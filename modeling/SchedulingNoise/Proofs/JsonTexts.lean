import SchedulingNoise.Json.Reader
import SchedulingNoise.Json.Writer
import SchedulingNoise.Proofs.Utf8Codec

/-! JSON texts are read as they were written. A written character stands for itself, behind a
backslash, or as one or two units in base sixteen; the reader takes each of these back. Two halves
that form a character come back as that character, so a text must not hold them apart. -/
namespace SchedulingNoise

namespace Text

theorem hex_four {n : Nat} (small : n < 0x10000) :
    hex 4 n = [(n / 4096).digitChar, (n / 256 % 16).digitChar, (n / 16 % 16).digitChar,
      (n % 16).digitChar] := by
  unfold hex
  dsimp only
  by_cases one : n < 16
  · rw [Nat.toDigits_of_lt_base one]
    have zeros : n / 4096 = 0 ∧ n / 256 % 16 = 0 ∧ n / 16 % 16 = 0 ∧ n % 16 = n := by omega
    simp [zeros]
  · rw [Nat.toDigits_of_base_le (by decide) (Nat.le_of_not_lt one)]
    by_cases two : n / 16 < 16
    · rw [Nat.toDigits_of_lt_base two]
      have zeros : n / 4096 = 0 ∧ n / 256 % 16 = 0 ∧ n / 16 % 16 = n / 16 := by omega
      simp [zeros]
    · rw [Nat.toDigits_of_base_le (by decide) (Nat.le_of_not_lt two)]
      by_cases three : n / 16 / 16 < 16
      · rw [Nat.toDigits_of_lt_base three]
        have zeros : n / 4096 = 0 ∧ n / 256 % 16 = n / 16 / 16 := by omega
        simp [zeros]
      · rw [Nat.toDigits_of_base_le (by decide) (Nat.le_of_not_lt three),
          Nat.toDigits_of_lt_base (by omega)]
        have parts : n / 16 / 16 / 16 = n / 4096 ∧ n / 16 / 16 % 16 = n / 256 % 16 := by omega
        simp [parts]

end Text

namespace Json

theorem hexDigit?_digitChar : ∀ d < 16, hexDigit? d.digitChar = some d := by decide

theorem hexUnit?_hex {n : Nat} (small : n < 0x10000) {rest : Text} (more : rest ≠ []) :
    hexUnit? (Text.hex 4 n ++ rest) = some (n, rest) := by
  obtain ⟨e, rest, rfl⟩ := List.exists_cons_of_ne_nil more
  have value : ((n / 4096 * 16 + n / 256 % 16) * 16 + n / 16 % 16) * 16 + n % 16 = n := by omega
  rw [Text.hex_four small]
  simp only [List.cons_append, List.nil_append, hexUnit?,
    hexDigit?_digitChar _ (by omega : n / 4096 < 16),
    hexDigit?_digitChar _ (by omega : n / 256 % 16 < 16),
    hexDigit?_digitChar _ (by omega : n / 16 % 16 < 16),
    hexDigit?_digitChar _ (by omega : n % 16 < 16), bind, Option.bind_some, pure, value]

/-- A text that its escapes can keep: every half is one, and no two halves side by side form a
character. -/
structure Settled (t : RawText) : Prop where
  halves : ∀ n, .half n ∈ t → isHigh n = true ∨ isLow n = true
  apart : ∀ m n, [.half m, .half n] <:+: t → ¬ (isHigh m = true ∧ isLow n = true)

theorem settled_ofText (t : Text) : Settled (.ofText t) := by
  have none : ∀ n, .half n ∉ RawText.ofText t := by
    intro n mem
    obtain ⟨c, _, eq⟩ := List.mem_map.mp mem
    cases eq
  constructor
  · exact fun n mem => absurd mem (none n)
  · exact fun m n inside => absurd (inside.subset List.mem_cons_self) (none m)

theorem Settled.tail {p : CodePoint} {t : RawText} (h : Settled (p :: t)) : Settled t where
  halves n mem := h.halves n (List.mem_cons_of_mem p mem)
  apart m n inside := h.apart m n (inside.trans (List.suffix_cons p t).isInfix)

theorem isHigh_iff {n : Nat} : isHigh n = true ↔ 0xD800 ≤ n ∧ n ≤ 0xDBFF := by
  simp [isHigh]

theorem isLow_iff {n : Nat} : isLow n = true ↔ 0xDC00 ≤ n ∧ n ≤ 0xDFFF := by
  simp [isLow]

theorem ofUnit_half {n : Nat} (half : isHigh n = true ∨ isLow n = true) : ofUnit n = .half n := by
  simp [ofUnit, half]

theorem toNat_cases (c : Char) : c.toNat < 0xD800 ∨ 0xDFFF < c.toNat ∧ c.toNat < 0x110000 := c.valid

theorem ofUnit_char (c : Char) : ofUnit c.toNat = .char c := by
  have none : ¬ (isHigh c.toNat || isLow c.toNat) = true := by
    have := toNat_cases c
    rw [Bool.or_eq_true, isHigh_iff, isLow_iff]
    omega
  rw [ofUnit, if_neg none, Char.ofNat_toNat]

def Printable (c : Char) : Prop := 0x20 ≤ c.toNat ∧ c.toNat < 0x7F

instance (c : Char) : Decidable (Printable c) := inferInstanceAs (Decidable (_ ∧ _))

inductive Written : CodePoint → Text → Prop
  | plain {c : Char} (quote : c ≠ '"') (backslash : c ≠ '\\') (shown : Printable c) :
      Written (.char c) [c]
  | short {c e : Char} (means : escaped? e = some c) : Written (.char c) ['\\', e]
  | unit {n : Nat} (small : n < 0x10000) : Written (ofUnit n) (escapeUnit n)
  | pair {high low : Nat} (first : isHigh high = true) (second : isLow low = true) :
      Written (.char (pairChar high low)) (escapeUnit high ++ escapeUnit low)

def lettered : Text := ['"', '\\', '\n', '\r', '\t', '\x0c', '\x08']

theorem written_lettered : ∀ c ∈ lettered, Written (.char c) (escapeChar c) := by
  simp only [lettered, List.forall_mem_cons]
  exact ⟨.short rfl, .short rfl, .short rfl, .short rfl, .short rfl, .short rfl, .short rfl, nofun⟩

theorem written_escapeChar (c : Char) : Written (.char c) (escapeChar c) := by
  by_cases letter : c ∈ lettered
  · exact written_lettered c letter
  · simp only [lettered, List.mem_cons, List.not_mem_nil, or_false, not_or] at letter
    obtain ⟨quote, backslash, feed, back, tab, form, bell⟩ := letter
    rw [escapeChar, if_neg quote, if_neg backslash, if_neg feed, if_neg back, if_neg tab,
      if_neg form, if_neg bell]
    split
    · rename_i printable
      simp only [Bool.and_eq_true, decide_eq_true_eq] at printable
      exact .plain quote backslash printable
    split
    · rename_i small
      rw [← ofUnit_char c]
      exact .unit small
    · rename_i large
      have bound := toNat_cases c
      have number : 0x10000 + (0xD800 + (c.toNat - 0x10000) / 0x400 - 0xD800) * 0x400 +
          (0xDC00 + (c.toNat - 0x10000) % 0x400 - 0xDC00) = c.toNat := by omega
      have whole : c = pairChar (0xD800 + (c.toNat - 0x10000) / 0x400)
          (0xDC00 + (c.toNat - 0x10000) % 0x400) := by
        rw [pairChar, number, Char.ofNat_toNat]
      have high : isHigh (0xD800 + (c.toNat - 0x10000) / 0x400) = true := by
        rw [isHigh_iff]
        omega
      have low : isLow (0xDC00 + (c.toNat - 0x10000) % 0x400) = true := by
        rw [isLow_iff]
        omega
      have pair := Written.pair high low
      rwa [← whole] at pair

theorem written_escape {p : CodePoint}
    (half : ∀ n, p = .half n → isHigh n = true ∨ isLow n = true) : Written p (escape p) := by
  cases p with
  | char c => exact written_escapeChar c
  | half n =>
    have real := half n rfl
    have small : n < 0x10000 := by
      rw [isHigh_iff, isLow_iff] at real
      omega
    have unit := Written.unit small
    rwa [ofUnit_half real] at unit

theorem Settled.written {t : RawText} (h : Settled t) {p : CodePoint} (mem : p ∈ t) :
    Written p (escape p) :=
  written_escape fun n eq => h.halves n (eq ▸ mem)

theorem Written.ne_nil {p : CodePoint} {w : Text} (h : Written p w) : w ≠ [] := by
  cases h <;> exact List.cons_ne_nil _ _

theorem digitChar_printable : ∀ d < 16, Printable d.digitChar := by decide

theorem escapeUnit_printable {n : Nat} (small : n < 0x10000) :
    ∀ c ∈ escapeUnit n, Printable c := by
  rw [escapeUnit, Text.hex_four small]
  simp only [List.forall_mem_cons]
  exact ⟨by decide, by decide, digitChar_printable _ (by omega), digitChar_printable _ (by omega),
    digitChar_printable _ (by omega), digitChar_printable _ (by omega), nofun⟩

theorem escaped?_printable {c e : Char} (means : escaped? e = some c) : Printable e := by
  have letter : e = '"' ∨ e = '\\' ∨ e = '/' ∨ e = 'b' ∨ e = 'f' ∨ e = 'n' ∨ e = 'r' ∨ e = 't' := by
    by_contra other
    simp only [not_or] at other
    simp [escaped?, other] at means
  rcases letter with rfl | rfl | rfl | rfl | rfl | rfl | rfl | rfl <;> decide

theorem Written.printable {p : CodePoint} {w : Text} (h : Written p w) :
    ∀ c ∈ w, Printable c := by
  cases h with
  | plain _ _ shown => exact List.forall_mem_singleton.mpr shown
  | short means =>
    simp only [List.forall_mem_cons]
    exact ⟨by decide, escaped?_printable means, nofun⟩
  | unit small => exact escapeUnit_printable small
  | pair first second =>
    rw [isHigh_iff] at first
    rw [isLow_iff] at second
    exact List.forall_mem_append.mpr
      ⟨escapeUnit_printable (by omega), escapeUnit_printable (by omega)⟩

/-- A text whose beginning is not the second unit of a pair. -/
def NoLow (t : Text) : Prop :=
  ∀ more, t = '\\' :: 'u' :: more → ∃ n rest, hexUnit? more = some (n, rest) ∧ isLow n = false

theorem Written.noLow {p : CodePoint} {w : Text} (h : Written p w)
    (notLow : ∀ n, p = .half n → isLow n = false) {rest : Text} (some : rest ≠ []) :
    NoLow (w ++ rest) := by
  intro more eq
  cases h with
  | plain quote backslash => exact absurd (List.cons.inj eq).1 backslash
  | short means =>
    cases (List.cons.inj (List.cons.inj eq).2).1
    cases means
  | @unit n small =>
    cases eq
    refine ⟨n, rest, hexUnit?_hex small some, ?_⟩
    by_contra low
    rw [Bool.not_eq_false] at low
    rw [notLow n (ofUnit_half (.inr low))] at low
    cases low
  | @pair high low first second =>
    have range := isHigh_iff.mp first
    rw [List.append_assoc] at eq
    cases eq
    refine ⟨high, escapeUnit low ++ rest, hexUnit?_hex (by omega) (List.cons_ne_nil _ _), ?_⟩
    rw [← Bool.not_eq_true, isLow_iff]
    omega

theorem unicodeEscape_unit {n : Nat} (small : n < 0x10000) {rest : Text} (some : rest ≠ [])
    (alone : isHigh n = true → NoLow rest) :
    unicodeEscape (Text.hex 4 n ++ rest) = .ok (ofUnit n, rest) := by
  unfold unicodeEscape
  rw [hexUnit?_hex small some]
  dsimp only
  split
  · rename_i more high
    obtain ⟨m, left, unit, notLow⟩ := alone high more rfl
    rw [unit]
    simp [notLow]
  · rfl

theorem unicodeEscape_pair {high low : Nat} (first : isHigh high = true)
    (second : isLow low = true) {rest : Text} (some : rest ≠ []) :
    unicodeEscape (Text.hex 4 high ++ (escapeUnit low ++ rest)) =
      .ok (.char (pairChar high low), rest) := by
  have range := isHigh_iff.mp first
  have range' := isLow_iff.mp second
  have unit : hexUnit? (Text.hex 4 high ++ (escapeUnit low ++ rest)) = _ :=
    hexUnit?_hex (by omega) (List.cons_ne_nil _ _)
  have long : ¬ (Text.hex 4 low ++ rest).length ≤ 4 := by
    have := List.length_pos_iff.mpr some
    rw [Text.hex_four (by omega), List.length_append]
    simp only [List.length_cons, List.length_nil]
    omega
  unfold unicodeEscape
  rw [unit]
  simp only [first, escapeUnit, List.cons_append]
  rw [if_neg long, hexUnit?_hex (by omega) some]
  simp only [second, if_true]

section Reading

variable {start fuel : Nat} {rest left : Text} {ds : RawText}

theorem readChars_unicode {t : Text} {p : CodePoint} (read : unicodeEscape t = .ok (p, rest))
    (later : readChars start fuel rest = .ok (ds, left)) :
    readChars start (fuel + 1) ('\\' :: 'u' :: t) = .ok (p :: ds, left) := by
  rw [readChars, if_neg (by decide), if_pos rfl]
  simp only [read, bind, Except.bind, later]
  rfl

theorem readChars_lettered {c e : Char} (means : escaped? e = some c)
    (later : readChars start fuel rest = .ok (ds, left)) :
    readChars start (fuel + 1) ('\\' :: e :: rest) = .ok (.char c :: ds, left) := by
  have notUnit : e ≠ 'u' := by
    rintro rfl
    cases means
  rw [readChars, if_neg (by decide), if_pos rfl, means]
  · simp only [bind, Except.bind, later]
    rfl
  · exact notUnit

theorem readChars_written {p : CodePoint} {w : Text} (h : Written p w) (some : rest ≠ [])
    (alone : ∀ n, p = .half n → isHigh n = true → NoLow rest)
    (later : readChars start fuel rest = .ok (ds, left)) :
    readChars start (fuel + 1) (w ++ rest) = .ok (p :: ds, left) := by
  cases h with
  | plain quote backslash shown =>
    rw [List.singleton_append]
    unfold readChars
    rw [if_neg quote, if_neg backslash, if_neg (Nat.not_le.mpr shown.1), later]
    rfl
  | short means => exact readChars_lettered means later
  | @unit n small =>
    have read := unicodeEscape_unit small some fun high => alone n (ofUnit_half (.inl high)) high
    exact readChars_unicode read later
  | pair first second =>
    have read := unicodeEscape_pair first second some
    rw [List.append_assoc]
    exact readChars_unicode read later

theorem readChars_flatMap {t : RawText} (h : Settled t) (enough : t.length < fuel) :
    readChars start fuel (t.flatMap escape ++ '"' :: rest) = .ok (t, rest) := by
  induction t generalizing fuel with
  | nil =>
    obtain ⟨fuel, rfl⟩ := Nat.exists_eq_succ_of_ne_zero (Nat.ne_of_gt enough)
    rfl
  | cons p t ih =>
    obtain ⟨fuel, rfl⟩ := Nat.exists_eq_succ_of_ne_zero (Nat.ne_of_gt (Nat.zero_lt_of_lt enough))
    rw [List.flatMap_cons, List.append_assoc]
    refine readChars_written (h.written List.mem_cons_self) (by simp) ?_
      (ih h.tail (Nat.lt_of_succ_lt_succ enough))
    rintro m rfl high
    cases t with
    | nil =>
      intro more eq
      cases eq
    | cons q t =>
      rw [List.flatMap_cons, List.append_assoc]
      refine (h.tail.written List.mem_cons_self).noLow ?_ (by simp)
      rintro n rfl
      have apart := h.apart m n (List.prefix_append [.half m, .half n] t).isInfix
      rw [← Bool.not_eq_true]
      exact fun low => apart ⟨high, low⟩

end Reading

theorem length_le_flatMap {t : RawText} (h : Settled t) : t.length ≤ (t.flatMap escape).length := by
  induction t with
  | nil => exact Nat.le_refl 0
  | cons p t ih =>
    have some := List.length_pos_iff.mpr (h.written (List.mem_cons_self (a := p))).ne_nil
    have later := ih h.tail
    rw [List.flatMap_cons, List.length_append, List.length_cons]
    omega

theorem readText_written {t : RawText} (h : Settled t) (rest : Text) :
    readText (t.flatMap escape ++ '"' :: rest) = .ok (t, rest) := by
  have short := length_le_flatMap h
  refine readChars_flatMap h ?_
  rw [List.length_append, List.length_cons]
  omega

end Json

end SchedulingNoise
