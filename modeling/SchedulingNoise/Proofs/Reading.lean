import SchedulingNoise.Proofs.Pieces
import SchedulingNoise.Text.Basic

namespace SchedulingNoise

namespace Text

theorem take_drop_of_append {t x y : Text} {k : Nat} (eq : t = x ++ y) (len : k = x.length) :
    t.take k = x ∧ t.drop k = y := by
  subst eq len
  simp

theorem span_run {p : Char → Bool} {x rest : Text} (all : ∀ c ∈ x, p c = true)
    (ends : ∀ c ∈ rest.head?, p c = false) :
    (x ++ rest).takeWhile p = x ∧ (x ++ rest).dropWhile p = rest := by
  rw [List.takeWhile_append_of_pos all, List.dropWhile_append_of_pos all]
  cases rest with
  | nil => simp
  | cons c rest => simp [ends c rfl]

section Cut

variable {c : Char} {u v w z : Text}

theorem behind_of_not_mem (absent : c ∉ u) (eq : v ++ c :: w = u ++ z) :
    ∃ v', v = u ++ v' ∧ v' ++ c :: w = z := by
  rcases List.append_eq_append_iff.mp eq with ⟨m, rfl, behind⟩ | ⟨m, rfl, behind⟩
  · cases m with
    | nil => exact ⟨[], by simp, behind⟩
    | cons d m =>
      cases behind
      exact absurd (by simp) absent
  · exact ⟨m, rfl, behind.symm⟩

theorem eq_nil_of_last (absent : c ∉ u) (eq : v ++ c :: w = u ++ [c]) : w = [] := by
  obtain ⟨v', _, last⟩ := behind_of_not_mem absent eq
  have long := congrArg List.length last
  simp only [List.length_append, List.length_cons, List.length_nil] at long
  exact List.length_eq_zero_iff.mp (by omega)

end Cut

theorem after?_eq_some {w t rest : Text} : after? w t = some rest ↔ t = w ++ rest := by
  unfold after?
  constructor
  · intro h
    split at h
    · rename_i begins
      obtain ⟨more, rfl⟩ := List.isPrefixOf_iff_prefix.mp begins
      cases h
      simp
    · cases h
  · rintro rfl
    simp

theorem skipBlanks1?_suffix {t rest : Text} (h : skipBlanks1? t = some rest) : rest <:+ t := by
  cases t with
  | nil => cases h
  | cons c t =>
    rw [skipBlanks1?] at h
    split at h
    · cases h
      exact (List.dropWhile_suffix _).trans (List.suffix_cons c t)
    · cases h

theorem skipBlanks1?_shrinks {t rest : Text} (h : skipBlanks1? t = some rest) :
    rest.length < t.length := by
  cases t with
  | nil => cases h
  | cons c t =>
    rw [skipBlanks1?] at h
    split at h
    · cases h
      exact Nat.lt_succ_of_le (List.dropWhile_suffix _).length_le
    · cases h

theorem partition?_eq_some {c : Char} {t x y : Text} :
    partition? c t = some (x, y) ↔ t = x ++ c :: y ∧ c ∉ x := by
  induction t generalizing x with
  | nil => simp [partition?]
  | cons d rest ih =>
    rw [partition?]
    by_cases here : d = c
    · subst here
      rw [if_pos rfl]
      cases x with
      | nil => simp [eq_comm]
      | cons e x =>
        simp only [Option.some.injEq, Prod.mk.injEq, List.cons_append, List.cons.injEq]
        constructor
        · rintro ⟨⟨⟩, _⟩
        · rintro ⟨⟨rfl, _⟩, absent⟩
          exact absurd List.mem_cons_self absent
    · rw [if_neg here, Option.map_eq_some_iff]
      constructor
      · rintro ⟨⟨x', y'⟩, found, eq⟩
        cases eq
        obtain ⟨rfl, absent⟩ := ih.mp found
        refine ⟨rfl, fun mem => ?_⟩
        rcases List.mem_cons.mp mem with rfl | mem
        · exact here rfl
        · exact absent mem
      · rintro ⟨eq, absent⟩
        cases x with
        | nil =>
          cases eq
          exact absurd rfl here
        | cons e x =>
          cases eq
          have later := ih.mpr ⟨rfl, fun mem => absent (List.mem_cons_of_mem d mem)⟩
          exact ⟨(x, y), later, rfl⟩

theorem partition?_suffix {c : Char} {t : Text} {p : Text × Text} (h : partition? c t = some p) :
    p.2 <:+ t := by
  obtain ⟨rfl, _⟩ := partition?_eq_some.mp h
  exact (List.suffix_cons c p.2).trans (List.suffix_append p.1 _)

def Blank (b : Text) : Prop := ∀ c ∈ b, isBlank c = true

instance (b : Text) : Decidable (Blank b) :=
  decidable_of_iff (b.all isBlank = true) List.all_eq_true

def Solid (t : Text) : Prop := ∀ c ∈ t.head?, isBlank c = false

theorem Solid.cons {c : Char} (h : isBlank c = false) (t : Text) : Solid (c :: t) := by
  intro d hd
  cases hd
  exact h

theorem countBlanks_append {b t : Text} (blank : Blank b) (solid : Solid t) :
    countBlanks (b ++ t) = b.length := by
  unfold countBlanks
  rw [List.takeWhile_append_of_pos blank]
  cases t with
  | nil => simp
  | cons c t => simp [solid c rfl]

theorem split_blanks (t : Text) : ∃ b rest, t = b ++ rest ∧ Blank b ∧ Solid rest := by
  refine ⟨t.takeWhile isBlank, t.dropWhile isBlank, ?_, ?_, ?_⟩
  · rw [List.takeWhile_append_dropWhile]
  · exact List.all_eq_true.mp List.all_takeWhile
  · intro c hc
    have first := List.head?_dropWhile_not isBlank t
    rw [hc] at first
    exact Bool.eq_false_iff.mpr (by simpa using first)

end Text

namespace Matcher

theorem firstFrom_eq_some {m : Matcher α} {before : Option Char} {pos : Nat} {t : Text}
    {found : Match α} (h : m.firstFrom before pos t = some found) :
    ∃ front back before' n, t = front ++ back ∧ found.start = pos + front.length ∧
      m before' back = some (n, found.value) ∧ found.stop = found.start + n := by
  induction t generalizing before pos with
  | nil => cases h
  | cons c rest ih =>
    rw [firstFrom] at h
    split at h
    · rename_i n a here
      cases h
      exact ⟨[], c :: rest, before, n, rfl, rfl, here, rfl⟩
    · obtain ⟨front, back, before', n, rfl, start, here, stop⟩ := ih h
      refine ⟨c :: front, back, before', n, rfl, ?_, here, stop⟩
      rw [start, List.length_cons]
      omega

section Everywhere

-- Matchers that do not look at the character before a place.
variable {m : Text → Option (Nat × α)} {pos : Nat} {t rest : Text}

theorem allFrom_before (before before' : Option Char) (skip : Nat) :
    allFrom (fun _ => m) before pos skip t = allFrom (fun _ => m) before' pos skip t := by
  cases t with
  | nil => simp [allFrom]
  | cons c rest => cases skip <;> rfl

theorem allFrom_skip (before : Option Char) (skip : Nat) :
    allFrom (fun _ => m) before pos skip t =
      allFrom (fun _ => m) none (pos + skip) 0 (t.drop skip) := by
  induction t generalizing before pos skip with
  | nil => simp [allFrom]
  | cons c rest ih =>
    cases skip with
    | zero => exact allFrom_before before none 0
    | succ skip =>
      rw [allFrom, ih, List.drop_succ_cons]
      congr 1
      omega

theorem allFrom_match {text : Text} {a : α} (here : m (text ++ rest) = some (text.length, a))
    (some : text ≠ []) :
    allFrom (fun _ => m) none pos 0 (text ++ rest) =
      ⟨pos, pos + text.length, a⟩ :: allFrom (fun _ => m) none (pos + text.length) 0 rest := by
  obtain ⟨c, text, rfl⟩ := List.exists_cons_of_ne_nil some
  rw [List.cons_append] at here ⊢
  have passed : pos + 1 + text.length = pos + (text.length + 1) := by omega
  have behind : allFrom (fun _ => m) (.some c) (pos + 1) text.length (text ++ rest) =
      allFrom (fun _ => m) none (pos + (text.length + 1)) 0 rest := by
    rw [allFrom_skip, List.drop_left, passed]
  rw [allFrom, here]
  simpa using behind

theorem allFrom_none {c : Char} (nothing : m (c :: rest) = none) :
    allFrom (fun _ => m) none pos 0 (c :: rest) = allFrom (fun _ => m) none (pos + 1) 0 rest := by
  rw [allFrom, nothing]
  exact allFrom_before (some c) none 0

theorem allFrom_gap {gap : Text} (nothing : ∀ s, s <:+ gap → s ≠ [] → m (s ++ rest) = none) :
    allFrom (fun _ => m) none pos 0 (gap ++ rest) =
      allFrom (fun _ => m) none (pos + gap.length) 0 rest := by
  induction gap generalizing pos with
  | nil => rfl
  | cons c gap ih =>
    have here : m (c :: (gap ++ rest)) = none :=
      nothing (c :: gap) List.suffix_rfl (List.cons_ne_nil c gap)
    have passed : pos + 1 + gap.length = pos + (gap.length + 1) := by omega
    rw [List.cons_append, allFrom_none here, List.length_cons, ← passed]
    exact ih fun s ends => nothing s (ends.trans (List.suffix_cons c gap))

end Everywhere

theorem start_le_stop_of_mem_allFrom {m : Matcher α} {before : Option Char} {pos skip : Nat}
    {t : Text} {found : Match α} (h : found ∈ allFrom m before pos skip t) :
    found.start ≤ found.stop := by
  induction t generalizing before pos skip with
  | nil => simp [allFrom] at h
  | cons c rest ih =>
    cases skip with
    | succ skip => exact ih h
    | zero =>
      rw [allFrom] at h
      split at h
      · rcases List.mem_cons.mp h with rfl | h
        · exact Nat.le_add_right pos _
        · exact ih h
      · exact ih h

end Matcher

end SchedulingNoise
