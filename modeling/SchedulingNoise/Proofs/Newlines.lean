import SchedulingNoise.Proofs.Pieces
import SchedulingNoise.Source.Unit

namespace SchedulingNoise

namespace Text

theorem prefix_of_head_splitOn {sep : Text} (positive : sep ≠ []) {t first : Text}
    {more : List Text} (h : splitOn sep t = first :: more) : first <+: t := by
  induction t using search_induction positive generalizing first more with
  | nil =>
    cases h
    exact List.prefix_rfl
  | found rest ih =>
    rw [splitOn_sep positive] at h
    cases h
    exact List.nil_prefix
  | passed c rest front ih =>
    rw [splitOn_cons front] at h
    cases found : splitOn sep rest with
    | nil => exact absurd found (splitOn_ne_nil sep rest)
    | cons a as =>
      rw [found] at h
      cases h
      exact List.cons_prefix_cons.mpr ⟨rfl, ih found⟩

theorem not_infix_of_mem_splitOn {sep : Text} (positive : sep ≠ []) {t piece : Text}
    (h : piece ∈ splitOn sep t) : ¬ sep <:+: piece := by
  induction t using search_induction positive generalizing piece with
  | nil =>
    rw [splitOn_nil] at h
    simpa [List.mem_singleton.mp h] using positive
  | found rest ih =>
    rw [splitOn_sep positive] at h
    rcases List.mem_cons.mp h with rfl | h
    · simpa using positive
    · exact ih h
  | passed c rest front ih =>
    rw [splitOn_cons front] at h
    cases found : splitOn sep rest with
    | nil => exact absurd found (splitOn_ne_nil sep rest)
    | cons a as =>
      rw [found] at h ih
      rcases List.mem_cons.mp h with rfl | h
      · intro inside
        rcases List.infix_cons_iff.mp inside with begins | inside
        · have whole : c :: a <+: c :: rest :=
            List.cons_prefix_cons.mpr ⟨rfl, prefix_of_head_splitOn positive found⟩
          exact front (begins.trans whole)
        · exact ih List.mem_cons_self inside
      · exact ih (List.mem_cons_of_mem a h)

end Text

def IsNewline (sep : Text) : Prop := sep = ['\n'] ∨ sep = ['\r', '\n']

/-- A text that holds no character of any newline. -/
def OneLine (t : Text) : Prop := '\r' ∉ t ∧ '\n' ∉ t

namespace IsNewline

variable {sep x y : Text}

theorem ne_nil (h : IsNewline sep) : sep ≠ [] := by
  rcases h with rfl | rfl <;> simp

theorem foreign (h : IsNewline sep) {t : Text} (plain : OneLine t) {c : Char} (mem : c ∈ t) :
    c ∉ sep := by
  rcases h with rfl | rfl
  · intro own
    exact plain.2 (List.mem_singleton.mp own ▸ mem)
  · intro own
    rcases List.mem_cons.mp own with rfl | own
    · exact plain.1 mem
    · exact plain.2 (List.mem_singleton.mp own ▸ mem)

theorem not_inside (h : IsNewline sep) {t : Text} (plain : OneLine t) : ¬ sep <:+: t := by
  intro inside
  obtain ⟨c, rest, rfl⟩ := List.exists_cons_of_ne_nil h.ne_nil
  exact h.foreign plain (inside.subset List.mem_cons_self) List.mem_cons_self

theorem apart (h : IsNewline sep)
    (meet : sep = ['\r', '\n'] → ¬ (['\r'] <:+ x ∧ ['\n'] <+: y)) : Text.Apart sep x y := by
  intro u v eq hu hv ends begins
  obtain ⟨a, u', rfl⟩ := List.exists_cons_of_ne_nil hu
  obtain ⟨b, v', rfl⟩ := List.exists_cons_of_ne_nil hv
  have long := congrArg List.length eq
  rcases h with rfl | rfl
  · simp only [List.length_append, List.length_cons, List.length_nil] at long
    omega
  · simp only [List.length_append, List.length_cons, List.length_nil] at long
    have hu' : u' = [] := List.length_eq_zero_iff.mp (by omega)
    have hv' : v' = [] := List.length_eq_zero_iff.mp (by omega)
    subst hu' hv'
    cases eq
    exact meet rfl ⟨ends, begins⟩

theorem apart_nil_left (h : IsNewline sep) : Text.Apart sep [] y :=
  h.apart fun _ => by simp

theorem apart_sep (h : IsNewline sep) : Text.Apart sep x (sep ++ y) :=
  h.apart fun eq => by simp [eq]

theorem apart_of_not_infix (absent : ¬ sep <:+: x ++ y) : Text.Apart sep x y := by
  rintro u v rfl _ _ ⟨front, rfl⟩ ⟨back, rfl⟩
  exact absent ⟨front, back, by simp⟩

theorem separates (h : IsNewline sep) : Text.Separates sep := ⟨h.ne_nil, fun _ _ => h.apart_sep⟩

theorem splitOn_ending (h : IsNewline sep) (x : Text) :
    Text.splitOn sep (x ++ sep) = Text.splitOn sep x ++ [[]] := by
  have whole := h.separates.splitOn_join_sep (Text.splitOn_ne_nil sep x)
    fun l hl => Text.not_infix_of_mem_splitOn h.ne_nil hl
  rwa [Text.join_splitOn h.ne_nil] at whole

end IsNewline

namespace SourceUnit

theorem isNewline_newlineOf (t : Text) : IsNewline (newlineOf t) := by
  unfold newlineOf
  split
  · exact .inr rfl
  · exact .inl rfl

/-- Lines as a unit has them: at least one, and none with a newline of the unit in it. -/
structure Lined (u : SourceUnit) (lines : List Text) : Prop where
  newline : IsNewline u.newline
  some : lines ≠ []
  absent : ∀ l ∈ lines, ¬ u.newline <:+: l

def ending (u : SourceUnit) : List Text := if u.trailing then [[]] else []

theorem Lined.splitOn_assemble {u : SourceUnit} {lines : List Text} (h : u.Lined lines) :
    Text.splitOn u.newline (u.assemble lines) = lines ++ u.ending := by
  unfold assemble ending
  have there : lines.isEmpty = false := by simpa using h.some
  cases u.trailing with
  | false => simpa using h.newline.separates.splitOn_join h.some h.absent
  | true => simpa [there] using h.newline.separates.splitOn_join_sep h.some h.absent

theorem newline_ofText (path : Path) (t : Text) (scope : Scope) :
    (ofText path t scope).newline = newlineOf t := by
  unfold ofText
  dsimp only
  split <;> rfl

theorem ofText_lines (path : Path) (t : Text) (scope : Scope) :
    (ofText path t scope).Lined (ofText path t scope).lines ∧
      Text.splitOn (newlineOf t) t =
        (ofText path t scope).lines ++ (ofText path t scope).ending := by
  have newline := isNewline_newlineOf t
  unfold ofText ending
  dsimp only
  split
  · rename_i ends
    obtain ⟨x, eq⟩ := List.isSuffixOf_iff_suffix.mp ends
    have pieces : Text.splitOn (newlineOf t) t = Text.splitOn (newlineOf t) x ++ [[]] := by
      have whole := newline.splitOn_ending x
      rwa [eq] at whole
    rw [pieces]
    simp only [if_true, List.dropLast_concat]
    refine ⟨⟨newline, Text.splitOn_ne_nil _ x, ?_⟩, trivial⟩
    exact fun l hl => Text.not_infix_of_mem_splitOn newline.ne_nil hl
  · simp only [Bool.false_eq_true, if_false, List.append_nil]
    refine ⟨⟨newline, Text.splitOn_ne_nil _ t, ?_⟩, trivial⟩
    exact fun l hl => Text.not_infix_of_mem_splitOn newline.ne_nil hl

end SourceUnit

end SchedulingNoise
