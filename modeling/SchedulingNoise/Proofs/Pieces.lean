import SchedulingNoise.Text.Basic

namespace SchedulingNoise.Text

/-- Joins two lists of pieces; the last piece of the first goes on with the first of the second. -/
def glue : List Text → List Text → List Text
  | [], bs => bs
  | [a], [] => [a]
  | [a], b :: bs => (a ++ b) :: bs
  | a :: a' :: as, bs => a :: glue (a' :: as) bs

/-- Does no separator begin in `x` and end in `y`? -/
def Apart (sep x y : Text) : Prop :=
  ∀ u v, sep = u ++ v → u ≠ [] → v ≠ [] → u <:+ x → ¬ v <+: y

/-- Induction along a search from left to right: what is found is passed as a whole. -/
theorem search_induction {w : Text} (positive : w ≠ []) {motive : Text → Prop}
    (nil : motive []) (found : ∀ rest, motive rest → motive (w ++ rest))
    (passed : ∀ c rest, ¬ w <+: c :: rest → motive rest → motive (c :: rest)) (t : Text) :
    motive t := by
  induction hn : t.length using Nat.strongRecOn generalizing t with
  | ind n ih =>
    by_cases front : w <+: t
    · obtain ⟨rest, rfl⟩ := front
      have shorter : rest.length < n := by
        have : 0 < w.length := List.length_pos_iff.mpr positive
        simp only [List.length_append] at hn
        omega
      exact found rest (ih _ shorter rest rfl)
    · cases t with
      | nil => exact nil
      | cons c rest => exact passed c rest front (ih rest.length (by simp at hn; omega) rest rfl)

theorem splitFrom_skip (sep held : Text) (skip : Nat) (t : Text) :
    splitFrom sep held skip t = splitFrom sep held 0 (t.drop skip) := by
  induction t generalizing skip with
  | nil => cases skip <;> simp [splitFrom]
  | cons c rest ih =>
    cases skip with
    | zero => rfl
    | succ skip => rw [splitFrom, ih skip, List.drop_succ_cons]

theorem splitFrom_ne_nil (sep held : Text) (skip : Nat) (t : Text) :
    splitFrom sep held skip t ≠ [] := by
  induction t generalizing held skip with
  | nil => simp [splitFrom]
  | cons c rest ih =>
    cases skip with
    | zero =>
      rw [splitFrom]
      split
      · exact List.cons_ne_nil _ _
      · exact ih _ _
    | succ skip => exact ih _ _

theorem splitOn_ne_nil (sep t : Text) : splitOn sep t ≠ [] := splitFrom_ne_nil sep [] 0 t

theorem glue_nil_left (a : Text) {bs : List Text} (h : bs ≠ []) :
    glue [a] bs = (a ++ bs.head h) :: bs.tail := by
  cases bs with
  | nil => exact absurd rfl h
  | cons b bs => rfl

theorem glue_cons (a : Text) {as : List Text} (h : as ≠ []) (bs : List Text) :
    glue (a :: as) bs = a :: glue as bs := by
  cases as with
  | nil => exact absurd rfl h
  | cons a' as => rfl

theorem glue_glue_single (a b : Text) {bs : List Text} (h : bs ≠ []) :
    glue [a] (glue [b] bs) = glue [a ++ b] bs := by
  cases bs with
  | nil => exact absurd rfl h
  | cons c bs => simp [glue]

theorem glue_nil_right {as : List Text} (h : as ≠ []) (bs : List Text) :
    glue as ([] :: bs) = as ++ bs := by
  induction as with
  | nil => exact absurd rfl h
  | cons a rest ih =>
    cases rest with
    | nil => simp [glue]
    | cons a' rest =>
      rw [glue_cons a (List.cons_ne_nil a' rest), ih (List.cons_ne_nil a' rest)]
      rfl

theorem splitFrom_held (sep held t : Text) :
    splitFrom sep held 0 t = glue [held.reverse] (splitOn sep t) := by
  unfold splitOn
  induction t generalizing held with
  | nil => simp [splitFrom, glue]
  | cons c rest ih =>
    rw [splitFrom, splitFrom]
    split
    · simp [glue]
    · have grown := glue_glue_single held.reverse [c] (splitFrom_ne_nil sep [] 0 rest)
      rw [ih (c :: held), ih [c]]
      simpa using grown.symm

theorem splitOn_nil (sep : Text) : splitOn sep [] = [[]] := rfl

theorem splitOn_cons {sep : Text} {c : Char} {rest : Text} (h : ¬ sep <+: c :: rest) :
    splitOn sep (c :: rest) = glue [[c]] (splitOn sep rest) := by
  have away : sep.isPrefixOf (c :: rest) = false := by
    rw [Bool.eq_false_iff]
    exact fun front => h (List.isPrefixOf_iff_prefix.mp front)
  rw [splitOn, splitFrom, away]
  exact splitFrom_held sep [c] rest

theorem splitOn_sep {sep : Text} (positive : sep ≠ []) (rest : Text) :
    splitOn sep (sep ++ rest) = [] :: splitOn sep rest := by
  obtain ⟨s, more, rfl⟩ := List.exists_cons_of_ne_nil positive
  have here : (s :: more).isPrefixOf (s :: (more ++ rest)) = true := by simp
  rw [splitOn, List.cons_append, splitFrom, if_pos here, splitFrom_skip]
  simp [splitOn]

theorem Apart.tail {sep x y : Text} {c : Char} (h : Apart sep (c :: x) y) : Apart sep x y :=
  fun u v eq hu hv ends => h u v eq hu hv (ends.trans (List.suffix_cons c x))

theorem Apart.of_suffix {sep x x' y : Text} (h : Apart sep x y) (ends : x' <:+ x) :
    Apart sep x' y :=
  fun u v eq hu hv ends' => h u v eq hu hv (ends'.trans ends)

theorem Apart.of_not_mem_left {sep : Text} {c : Char} (foreign : c ∉ sep) (x y : Text) :
    Apart sep x (c :: y) := by
  rintro u v rfl _ hv _ begins
  obtain ⟨d, v, rfl⟩ := List.exists_cons_of_ne_nil hv
  obtain ⟨rfl, _⟩ := List.cons_prefix_cons.mp begins
  exact foreign (by simp)

theorem Apart.of_not_mem_right {sep : Text} {c : Char} (foreign : c ∉ sep) (x y : Text) :
    Apart sep (x ++ [c]) y := by
  rintro u v rfl hu _ ends _
  rcases List.suffix_concat_iff.mp ends with rfl | ⟨u, rfl, _⟩
  · exact hu rfl
  · exact foreign (by simp)

theorem Apart.prefix_left {sep x y : Text} (h : Apart sep x y) (positive : x ≠ [])
    (front : sep <+: x ++ y) : sep <+: x := by
  obtain ⟨more, eq⟩ := front
  rcases List.append_eq_append_iff.mp eq with ⟨u, rfl, _⟩ | ⟨v, rfl, rfl⟩
  · exact List.prefix_append sep u
  · by_cases hv : v = []
    · simp [hv]
    · exact absurd (List.prefix_append v more) (h x v rfl positive hv List.suffix_rfl)

theorem Apart.infix_append {w x y : Text} (h : Apart w x y) (inside : w <:+: x ++ y) :
    w <:+: x ∨ w <:+: y := by
  induction x with
  | nil => exact .inr inside
  | cons c x ih =>
    rcases List.infix_cons_iff.mp inside with begins | inside
    · exact .inl (h.prefix_left (List.cons_ne_nil c x) begins).isInfix
    · exact (ih h.tail inside).imp_left fun left => left.trans (List.suffix_cons c x).isInfix

theorem splitOn_append {sep : Text} (positive : sep ≠ []) (x y : Text) (apart : Apart sep x y) :
    splitOn sep (x ++ y) = glue (splitOn sep x) (splitOn sep y) := by
  induction x using search_induction positive with
  | nil =>
    rw [List.nil_append, splitOn_nil, glue_nil_left [] (splitOn_ne_nil sep y)]
    simp
  | found rest ih =>
    rw [List.append_assoc, splitOn_sep positive, splitOn_sep positive,
      ih (apart.of_suffix (List.suffix_append sep rest)), glue_cons _ (splitOn_ne_nil sep rest)]
  | passed c rest front ih =>
    have away : ¬ sep <+: c :: (rest ++ y) := fun h =>
      front (apart.prefix_left (List.cons_ne_nil c rest) h)
    rw [List.cons_append, splitOn_cons away, splitOn_cons front, ih apart.tail]
    cases hs : splitOn sep rest with
    | nil => exact absurd hs (splitOn_ne_nil sep rest)
    | cons a as =>
      cases as with
      | nil =>
        rw [glue_glue_single _ _ (splitOn_ne_nil sep y)]
        rfl
      | cons a' as => rfl

theorem splitOn_of_not_infix {sep t : Text} (absent : ¬ sep <:+: t) : splitOn sep t = [t] := by
  induction t with
  | nil => rfl
  | cons c rest ih =>
    have rest_absent : ¬ sep <:+: rest :=
      fun h => absent (h.trans (List.suffix_cons c rest).isInfix)
    rw [splitOn_cons (fun h => absent h.isInfix), ih rest_absent]
    rfl

theorem join_glue_single (sep a : Text) {bs : List Text} (h : bs ≠ []) :
    join sep (glue [a] bs) = a ++ join sep bs := by
  cases bs with
  | nil => exact absurd rfl h
  | cons b bs =>
    cases bs with
    | nil => simp [glue, join]
    | cons b' bs => simp [glue, join, List.intercalate]

theorem join_cons (sep a : Text) {bs : List Text} (h : bs ≠ []) :
    join sep (a :: bs) = a ++ sep ++ join sep bs := by
  cases bs with
  | nil => exact absurd rfl h
  | cons b bs => simp [join, List.intercalate]

theorem join_append_singleton (sep : Text) {ps : List Text} (h : ps ≠ []) (n : Text) :
    join sep (ps ++ [n]) = join sep ps ++ sep ++ n := by
  induction ps with
  | nil => exact absurd rfl h
  | cons a rest ih =>
    by_cases last : rest = []
    · simp [last, join, List.intercalate]
    · rw [List.cons_append, join_cons sep a (by simp), ih last, join_cons sep a last]
      simp

theorem mem_join {c : Char} {sep : Text} {ps : List Text} (h : c ∈ join sep ps) :
    c ∈ sep ∨ ∃ p ∈ ps, c ∈ p := by
  induction ps with
  | nil => simp [join, List.intercalate] at h
  | cons a rest ih =>
    by_cases last : rest = []
    · exact .inr ⟨a, List.mem_cons_self, by simpa [last, join, List.intercalate] using h⟩
    · rw [join_cons sep a last, List.mem_append, List.mem_append] at h
      rcases h with (h | h) | h
      · exact .inr ⟨a, List.mem_cons_self, h⟩
      · exact .inl h
      · rcases ih h with h | ⟨p, hp, hc⟩
        · exact .inl h
        · exact .inr ⟨p, List.mem_cons_of_mem a hp, hc⟩

theorem mem_join_of_mem {c : Char} (sep : Text) {p : Text} {ps : List Text} (hp : p ∈ ps)
    (hc : c ∈ p) : c ∈ join sep ps := by
  induction ps with
  | nil => cases hp
  | cons a rest ih =>
    by_cases last : rest = []
    · have : p = a := by simpa [last] using hp
      simpa [last, join, List.intercalate, ← this] using hc
    · rw [join_cons sep a last, List.mem_append, List.mem_append]
      rcases List.mem_cons.mp hp with rfl | hp
      · exact .inl (.inl hc)
      · exact .inr (ih hp)

theorem join_splitOn {sep : Text} (positive : sep ≠ []) (t : Text) :
    join sep (splitOn sep t) = t := by
  induction t using search_induction positive with
  | nil => rfl
  | found rest ih =>
    rw [splitOn_sep positive, join_cons _ _ (splitOn_ne_nil sep rest), ih]
    simp
  | passed c rest front ih =>
    rw [splitOn_cons front, join_glue_single _ _ (splitOn_ne_nil sep rest), ih]
    rfl

/-- A separator of which no part stands in front of another one. -/
structure Separates (sep : Text) : Prop where
  positive : sep ≠ []
  apart : ∀ x y, Apart sep x (sep ++ y)

theorem Separates.char (c : Char) : Separates [c] := by
  refine ⟨List.cons_ne_nil c [], fun x y u v eq hu hv => ?_⟩
  have long := congrArg List.length eq
  have : 0 < u.length := List.length_pos_iff.mpr hu
  have : 0 < v.length := List.length_pos_iff.mpr hv
  simp only [List.length_append, List.length_cons, List.length_nil] at long
  omega

namespace Separates

variable {sep x : Text} {parts : List Text}

theorem splitOn_around (h : Separates sep) (x y : Text) :
    splitOn sep (x ++ sep ++ y) = splitOn sep x ++ splitOn sep y := by
  rw [List.append_assoc, splitOn_append h.positive x (sep ++ y) (h.apart x y),
    splitOn_sep h.positive, glue_nil_right (splitOn_ne_nil sep x)]

theorem splitOn_append_sep (h : Separates sep) (absent : ¬ sep <:+: x) (y : Text) :
    splitOn sep (x ++ sep ++ y) = x :: splitOn sep y := by
  rw [h.splitOn_around, splitOn_of_not_infix absent, List.singleton_append]

theorem splitOn_join (h : Separates sep) (some : parts ≠ [])
    (absent : ∀ p ∈ parts, ¬ sep <:+: p) : splitOn sep (join sep parts) = parts := by
  induction parts with
  | nil => exact absurd rfl some
  | cons p rest ih =>
    by_cases last : rest = []
    · rw [last]
      simpa [join, List.intercalate] using splitOn_of_not_infix (absent p List.mem_cons_self)
    · rw [join_cons _ _ last, h.splitOn_append_sep (absent p List.mem_cons_self),
        ih last fun q hq => absent q (List.mem_cons_of_mem p hq)]

theorem splitOn_join_sep (h : Separates sep) (some : parts ≠ [])
    (absent : ∀ p ∈ parts, ¬ sep <:+: p) :
    splitOn sep (join sep parts ++ sep) = parts ++ [[]] := by
  induction parts with
  | nil => exact absurd rfl some
  | cons p rest ih =>
    by_cases last : rest = []
    · have one := h.splitOn_append_sep (absent p List.mem_cons_self) []
      rw [List.append_nil, splitOn_nil] at one
      simpa [last, join, List.intercalate] using one
    · rw [join_cons _ _ last, List.append_assoc,
        h.splitOn_append_sep (absent p List.mem_cons_self),
        ih last fun q hq => absent q (List.mem_cons_of_mem p hq)]
      rfl

end Separates

end SchedulingNoise.Text
