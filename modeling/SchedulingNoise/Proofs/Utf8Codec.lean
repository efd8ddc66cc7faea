import SchedulingNoise.Proofs.Outcomes
import SchedulingNoise.Text.Utf8

namespace SchedulingNoise.Utf8

def Good (start : UInt8) : (first : Bool) → Bytes → Prop
  | _, [] => True
  | first, b :: more =>
    (if first then secondOk start b else continues b) = true ∧ Good start false more

theorem follow_eq_none {start : UInt8} {first : Bool} {want : Nat} {bs good : Bytes} :
    follow start first want bs = (good, none) ↔
      good.length = want ∧ Good start first good ∧ good <+: bs := by
  induction want generalizing first bs good with
  | zero =>
    cases good with
    | nil => simp [follow, Good]
    | cons b good => simp [follow]
  | succ want ih =>
    cases bs with
    | nil =>
      cases good with
      | nil => simp [follow]
      | cons b good => simp [follow]
    | cons b bs =>
      unfold follow
      by_cases fits : (if first then secondOk start b else continues b) = true
      · rw [if_pos fits]
        cases good with
        | nil => simp
        | cons b' good =>
          have step : follow start false want bs = (good, none) ↔ _ := ih
          constructor
          · intro h
            simp only [Prod.mk.injEq, List.cons.injEq] at h
            obtain ⟨⟨rfl, rest⟩, sound⟩ := h
            obtain ⟨count, all, front⟩ := step.mp (Prod.ext rest sound)
            exact ⟨congrArg (· + 1) count, ⟨fits, all⟩, List.cons_prefix_cons.mpr ⟨rfl, front⟩⟩
          · rintro ⟨count, all, front⟩
            obtain ⟨rfl, behind⟩ := List.cons_prefix_cons.mp front
            rw [step.mpr ⟨Nat.succ.inj count, all.2, behind⟩]
      · rw [if_neg fits]
        constructor
        · intro h
          cases h
        · rintro ⟨count, all, front⟩
          cases good with
          | nil => cases count
          | cons b' good =>
            obtain ⟨rfl, _⟩ := List.cons_prefix_cons.mp front
            exact absurd all.1 fits

theorem decodeFrom_skip (pos : Nat) (more rest : Bytes) :
    decodeFrom pos more.length (more ++ rest) = decodeFrom (pos + more.length) 0 rest := by
  induction more generalizing pos with
  | nil => rfl
  | cons b more ih =>
    rw [List.length_cons, List.cons_append, decodeFrom, ih]
    congr 1
    omega

section Bytes

variable {b start : UInt8}

theorem followers?_eq_some {n : Nat} : followers? b = some n ↔
    b.toNat < 0x80 ∧ n = 0 ∨ 0xC2 ≤ b.toNat ∧ b.toNat < 0xE0 ∧ n = 1 ∨
      0xE0 ≤ b.toNat ∧ b.toNat < 0xF0 ∧ n = 2 ∨ 0xF0 ≤ b.toNat ∧ b.toNat < 0xF5 ∧ n = 3 := by
  simp only [followers?, UInt8.lt_iff_toNat_lt, UInt8.reduceToNat]
  split
  · simp only [Option.some.injEq]
    omega
  · split
    · simp only [reduceCtorEq, false_iff]
      omega
    · split
      · simp only [Option.some.injEq]
        omega
      · split
        · simp only [Option.some.injEq]
          omega
        · split
          · simp only [Option.some.injEq]
            omega
          · simp only [reduceCtorEq, false_iff]
            omega

theorem continues_iff : continues b = true ↔ 0x80 ≤ b.toNat ∧ b.toNat ≤ 0xBF := by
  simp [continues, UInt8.le_iff_toNat_le]

theorem secondOk_iff : secondOk start b = true ↔ continues b = true ∧
    ¬ (start.toNat = 0xE0 ∧ b.toNat < 0xA0) ∧ ¬ (start.toNat = 0xED ∧ 0xA0 ≤ b.toNat) ∧
    ¬ (start.toNat = 0xF0 ∧ b.toNat < 0x90) ∧ ¬ (start.toNat = 0xF4 ∧ 0x90 ≤ b.toNat) := by
  simp only [secondOk, Bool.and_eq_true, Bool.not_eq_true', Bool.and_eq_false_iff,
    beq_eq_false_iff_ne, decide_eq_false_iff_not, ne_eq, ← UInt8.toNat_inj, UInt8.lt_iff_toNat_lt,
    UInt8.le_iff_toNat_le, UInt8.reduceToNat, ge_iff_le, and_assoc, not_and_or]

end Bytes

theorem toNat_ofNat {n : Nat} (valid : n.isValidChar) : (Char.ofNat n).toNat = n := by
  unfold Char.ofNat
  rw [dif_pos valid]
  rfl

def bytesOf (n : Nat) : Bytes :=
  if n ≤ 0x7F then [.ofNat n]
  else if n ≤ 0x7FF then [.ofNat (n / 64 % 32 + 192), .ofNat (n % 64 + 128)]
  else if n ≤ 0xFFFF then
    [.ofNat (n / 4096 % 16 + 224), .ofNat (n / 64 % 64 + 128), .ofNat (n % 64 + 128)]
  else [.ofNat (n / 262144 % 8 + 240), .ofNat (n / 4096 % 64 + 128), .ofNat (n / 64 % 64 + 128),
    .ofNat (n % 64 + 128)]

theorem encodeChar_eq (c : Char) : encodeChar c = bytesOf c.toNat := rfl

theorem encodeChar_ofNat {n : Nat} (valid : n.isValidChar) :
    encodeChar (Char.ofNat n) = bytesOf n := by
  rw [encodeChar_eq, toNat_ofNat valid]

theorem byte_eq {k : Nat} {b : UInt8} (h : k = b.toNat) : UInt8.ofNat k = b := by
  rw [h, UInt8.ofNat_toNat]

theorem toNat_byte {k n : Nat} (h : k = n) (small : n < 256) : (UInt8.ofNat k).toNat = n := by
  rw [UInt8.toNat_ofNat_of_lt' (by simpa [h] using small), h]

theorem encodeChar_assemble {start : UInt8} {good : Bytes}
    (count : followers? start = some good.length) (all : Good start true good) :
    encodeChar (assemble start good) = start :: good := by
  rw [followers?_eq_some] at count
  match good with
  | [] =>
    simp only [List.length_nil] at count
    have small : start.toNat < 128 := by omega
    have valid : start.toNat.isValidChar := .inl (by omega)
    rw [show assemble start [] = Char.ofNat start.toNat from rfl, encodeChar_ofNat valid,
      bytesOf, if_pos (by omega), UInt8.ofNat_toNat]
  | [x] =>
    simp only [List.length_cons, List.length_nil] at count
    have second := continues_iff.mp (secondOk_iff.mp all.1).1
    have eq : assemble start [x] = Char.ofNat (start.toNat % 32 * 64 + x.toNat % 64) := rfl
    have valid : (start.toNat % 32 * 64 + x.toNat % 64).isValidChar := .inl (by omega)
    rw [eq, encodeChar_ofNat valid, bytesOf, if_neg (by omega), if_pos (by omega)]
    simp only [List.cons.injEq, and_true]
    exact ⟨byte_eq (by omega), byte_eq (by omega)⟩
  | [x, y] =>
    simp only [List.length_cons, List.length_nil] at count
    obtain ⟨second, low, surrogate, _⟩ := secondOk_iff.mp all.1
    rw [continues_iff] at second
    have third := continues_iff.mp all.2.1
    have eq : assemble start [x, y] =
      Char.ofNat ((start.toNat % 16 * 64 + x.toNat % 64) * 64 + y.toNat % 64) := rfl
    have valid : ((start.toNat % 16 * 64 + x.toNat % 64) * 64 + y.toNat % 64).isValidChar := by
      unfold Nat.isValidChar
      omega
    rw [eq, encodeChar_ofNat valid, bytesOf, if_neg (by omega), if_neg (by omega),
      if_pos (by omega)]
    simp only [List.cons.injEq, and_true]
    exact ⟨byte_eq (by omega), byte_eq (by omega), byte_eq (by omega)⟩
  | [x, y, z] =>
    simp only [List.length_cons, List.length_nil] at count
    obtain ⟨second, _, _, low, high⟩ := secondOk_iff.mp all.1
    rw [continues_iff] at second
    have third := continues_iff.mp all.2.1
    have fourth := continues_iff.mp all.2.2.1
    have eq : assemble start [x, y, z] = Char.ofNat
      (((start.toNat % 8 * 64 + x.toNat % 64) * 64 + y.toNat % 64) * 64 + z.toNat % 64) := rfl
    have valid : (((start.toNat % 8 * 64 + x.toNat % 64) * 64 + y.toNat % 64) * 64 +
        z.toNat % 64).isValidChar := .inr (by omega)
    rw [eq, encodeChar_ofNat valid, bytesOf, if_neg (by omega), if_neg (by omega),
      if_neg (by omega)]
    simp only [List.cons.injEq, and_true]
    exact ⟨byte_eq (by omega), byte_eq (by omega), byte_eq (by omega), byte_eq (by omega)⟩
  | _ :: _ :: _ :: _ :: _ =>
    simp only [List.length_cons] at count
    omega

/-- A start byte and its followers that are decoded to the character of a number. -/
structure Spells (start : UInt8) (good : Bytes) (n : Nat) : Prop where
  count : followers? start = some good.length
  all : Good start true good
  char : assemble start good = Char.ofNat n

section Spells

variable {n : Nat}

theorem spells_one (high : n ≤ 0x7F) : Spells (.ofNat n) [] n := by
  have start : (UInt8.ofNat n).toNat = n := toNat_byte rfl (by omega)
  constructor
  · rw [followers?_eq_some, start]
    exact .inl ⟨by omega, rfl⟩
  · trivial
  · change Char.ofNat (UInt8.ofNat n).toNat = Char.ofNat n
    rw [start]

theorem toNat_last : (UInt8.ofNat (n % 64 + 128)).toNat = n % 64 + 128 := toNat_byte rfl (by omega)

theorem spells_two (low : 0x7F < n) (high : n ≤ 0x7FF) :
    Spells (.ofNat (n / 64 % 32 + 192)) [.ofNat (n % 64 + 128)] n := by
  have start : (UInt8.ofNat (n / 64 % 32 + 192)).toNat = n / 64 + 192 :=
    toNat_byte (by omega) (by omega)
  constructor
  · rw [followers?_eq_some, start]
    exact .inr (.inl ⟨by omega, by omega, rfl⟩)
  · refine ⟨?_, trivial⟩
    rw [if_pos rfl, secondOk_iff, continues_iff, start, toNat_last]
    omega
  · change Char.ofNat ((UInt8.ofNat _).toNat % 32 * 64 + (UInt8.ofNat _).toNat % 64) = _
    rw [start, toNat_last]
    congr 1
    omega

theorem spells_three (low : 0x7FF < n) (high : n ≤ 0xFFFF) (valid : n < 0xD800 ∨ 0xDFFF < n) :
    Spells (.ofNat (n / 4096 % 16 + 224))
      [.ofNat (n / 64 % 64 + 128), .ofNat (n % 64 + 128)] n := by
  have start : (UInt8.ofNat (n / 4096 % 16 + 224)).toNat = n / 4096 + 224 :=
    toNat_byte (by omega) (by omega)
  constructor
  · rw [followers?_eq_some, start]
    exact .inr (.inr (.inl ⟨by omega, by omega, rfl⟩))
  · refine ⟨?_, ?_, trivial⟩
    · rw [if_pos rfl, secondOk_iff, continues_iff, start, toNat_last]
      omega
    · rw [if_neg (by decide), continues_iff, toNat_last]
      omega
  · change Char.ofNat (((UInt8.ofNat _).toNat % 16 * 64 + (UInt8.ofNat _).toNat % 64) * 64 +
      (UInt8.ofNat _).toNat % 64) = _
    rw [start, toNat_last, toNat_last]
    congr 1
    omega

theorem spells_four (low : 0xFFFF < n) (high : n < 0x110000) :
    Spells (.ofNat (n / 262144 % 8 + 240)) [.ofNat (n / 4096 % 64 + 128),
      .ofNat (n / 64 % 64 + 128), .ofNat (n % 64 + 128)] n := by
  have start : (UInt8.ofNat (n / 262144 % 8 + 240)).toNat = n / 262144 + 240 :=
    toNat_byte (by omega) (by omega)
  constructor
  · rw [followers?_eq_some, start]
    exact .inr (.inr (.inr ⟨by omega, by omega, rfl⟩))
  · refine ⟨?_, ?_, ?_, trivial⟩
    · rw [if_pos rfl, secondOk_iff, continues_iff, start, toNat_last]
      omega
    · rw [if_neg (by decide), continues_iff, toNat_last]
      omega
    · rw [if_neg (by decide), continues_iff, toNat_last]
      omega
  · change Char.ofNat ((((UInt8.ofNat _).toNat % 8 * 64 + (UInt8.ofNat _).toNat % 64) * 64 +
      (UInt8.ofNat _).toNat % 64) * 64 + (UInt8.ofNat _).toNat % 64) = _
    rw [start, toNat_last, toNat_last, toNat_last]
    congr 1
    omega

end Spells

theorem exists_encodeChar (c : Char) :
    ∃ start good, encodeChar c = start :: good ∧ Spells start good c.toNat := by
  have valid : c.toNat < 0xD800 ∨ 0xDFFF < c.toNat ∧ c.toNat < 0x110000 := c.valid
  rw [encodeChar_eq]
  unfold bytesOf
  split
  · rename_i one
    exact ⟨_, _, rfl, spells_one one⟩
  · split
    · rename_i one two
      exact ⟨_, _, rfl, spells_two (Nat.lt_of_not_ge one) two⟩
    · split
      · rename_i two three
        exact ⟨_, _, rfl, spells_three (Nat.lt_of_not_ge two) three (valid.imp_right (·.1))⟩
      · rename_i three
        exact ⟨_, _, rfl, spells_four (Nat.lt_of_not_ge three) (by omega)⟩

theorem decodeFrom_encode (pos : Nat) (t : Text) : decodeFrom pos 0 (encode t) = .ok t := by
  induction t generalizing pos with
  | nil => rfl
  | cons c rest ih =>
    obtain ⟨start, good, bytes, count, all, char⟩ := exists_encodeChar c
    rw [Char.ofNat_toNat] at char
    have eq : encode (c :: rest) = start :: (good ++ encode rest) := by
      rw [encode, List.flatMap_cons, bytes]
      rfl
    have followed : follow start true good.length (good ++ encode rest) = (good, none) :=
      follow_eq_none.mpr ⟨rfl, all, List.prefix_append good _⟩
    rw [eq, decodeFrom, count]
    simp only [followed, decodeFrom_skip, ih, char, Except.map]

theorem encode_of_decodeFrom {pos : Nat} {bs : Bytes} {t : Text}
    (h : decodeFrom pos 0 bs = .ok t) : encode t = bs := by
  induction len : bs.length using Nat.strongRecOn generalizing pos bs t with
  | ind n ih =>
    cases bs with
    | nil =>
      cases h
      rfl
    | cons start rest =>
      unfold decodeFrom at h
      split at h
      · cases h
      · rename_i n count
        split at h
        · cases h
        · rename_i good followed
          obtain ⟨rfl, all, behind, rfl⟩ := follow_eq_none.mp followed
          rw [decodeFrom_skip] at h
          cases later : decodeFrom (pos + 1 + good.length) 0 behind with
          | error r =>
            rw [later] at h
            cases h
          | ok more =>
            rw [later] at h
            cases h
            have shorter : behind.length < n := by
              simp only [List.length_cons, List.length_append] at len
              omega
            rw [encode, List.flatMap_cons, encodeChar_assemble count all]
            exact congrArg (start :: good ++ ·) (ih _ shorter later rfl)

/-- Bytes are decoded to the one text that they encode, if there is one. -/
theorem decode_eq_ok {bs : Bytes} {t : Text} : decode bs = .ok t ↔ bs = encode t := by
  constructor
  · exact fun h => (encode_of_decodeFrom h).symm
  · rintro rfl
    exact decodeFrom_encode 0 t

theorem encode_injective {s t : Text} (same : encode s = encode t) : s = t := by
  have decoded : decode (encode t) = .ok s := decode_eq_ok.mpr same.symm
  rw [decode_eq_ok.mpr rfl] at decoded
  exact (Except.ok.inj decoded).symm

end SchedulingNoise.Utf8
