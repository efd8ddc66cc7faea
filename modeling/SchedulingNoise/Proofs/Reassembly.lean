import SchedulingNoise.Proofs.Newlines
import SchedulingNoise.Proofs.Outcomes

/-! Lines that were changed and put together again. If no change brings a newline, a carriage
return at the end of a line, or an empty line, the text is cut into the changed lines. -/
namespace SchedulingNoise

theorem Text.contains_iff {w t : Text} : Text.contains w t = true ↔ w <:+: t := by
  unfold Text.contains
  induction t with
  | nil =>
    rw [Text.find?]
    cases w with
    | nil => simp
    | cons c w => simp
  | cons c rest ih =>
    rw [Text.find?]
    split
    · rename_i front
      exact ⟨fun _ => (List.isPrefixOf_iff_prefix.mp front).isInfix, fun _ => rfl⟩
    · rename_i front
      rw [Option.isSome_map, ih, List.infix_cons_iff, ← List.isPrefixOf_iff_prefix]
      simp [front]

def pair : Text := ['\r', '\n']

/-- A line that can stand for another one. -/
structure SameEnds (l l' : Text) : Prop where
  absent : ∀ sep, IsNewline sep → ¬ sep <:+: l → ¬ sep <:+: l'
  ending : ['\r'] <:+ l' → ['\r'] <:+ l
  some : l' = [] → l = []

theorem pair_inside {x y : Text} : pair <:+: x ++ '\n' :: y ↔
    pair <:+: x ∨ ['\r'] <:+ x ∨ pair <:+: y := by
  constructor
  · intro inside
    by_cases meets : ['\r'] <:+ x
    · exact .inr (.inl meets)
    · have apart : Text.Apart pair x ('\n' :: y) :=
        IsNewline.apart (.inr rfl) fun _ both => meets both.1
      rcases apart.infix_append inside with inside | inside
      · exact .inl inside
      · rcases List.infix_cons_iff.mp inside with begins | inside
        · cases (List.cons_prefix_cons.mp begins).1
        · exact .inr (.inr inside)
  · rintro (inside | ⟨z, rfl⟩ | inside)
    · exact inside.trans (List.prefix_append x _).isInfix
    · exact ⟨z, y, by simp [pair]⟩
    · exact inside.trans ((List.suffix_cons '\n' y).trans (List.suffix_append x _)).isInfix

namespace SourceUnit

theorem newlineOf_inside {t : Text} (inside : pair <:+: t) : newlineOf t = pair :=
  if_pos (Text.contains_iff.mpr inside)

theorem newlineOf_outside {t : Text} (outside : ¬ pair <:+: t) : newlineOf t = ['\n'] :=
  if_neg fun inside => outside (Text.contains_iff.mp inside)

theorem assemble_cons (u : SourceUnit) (l : Text) (rest : List Text) :
    u.assemble (l :: rest) =
      l ++ (if rest = [] then (if u.trailing then u.newline else [])
        else u.newline ++ u.assemble rest) := by
  cases rest with
  | nil => simp [assemble, Text.join, List.intercalate]
  | cons l' rest => simp [assemble, Text.join, List.intercalate, List.intersperse]

theorem Lined.assemble_eq {u : SourceUnit} {lines : List Text} (h : u.Lined lines) :
    u.assemble lines = Text.join u.newline lines ++ (if u.trailing then u.newline else []) := by
  have there : lines.isEmpty = false := List.isEmpty_eq_false_iff.mpr h.some
  simp [assemble, there]

/-- Lines that a unit's newlines put together into a text with those same lines. -/
structure Faithful (u : SourceUnit) (lines : List Text) : Prop extends u.Lined lines where
  kind : newlineOf (u.assemble lines) = u.newline
  ends : u.trailing = false → ¬ u.newline <:+ u.assemble lines

theorem Faithful.lines_ofText {u : SourceUnit} {lines : List Text} (h : u.Faithful lines)
    (path : Path) (scope : Scope) : (ofText path (u.assemble lines) scope).lines = lines := by
  have cut := h.splitOn_assemble
  unfold ofText
  rw [h.kind]
  dsimp only
  split
  · rename_i ends
    have trailing : u.trailing = true := by
      cases none : u.trailing with
      | true => rfl
      | false => exact absurd (List.isSuffixOf_iff_suffix.mp ends) (h.ends none)
    rw [cut, ending, if_pos trailing, List.dropLast_concat]
  · rename_i ends
    have trailing : ¬ u.trailing = true := by
      intro trailing
      have there : lines.isEmpty = false := by simpa using h.some
      refine ends (List.isSuffixOf_iff_suffix.mpr ?_)
      simp [assemble, trailing, there]
    rw [cut, ending, if_neg trailing, List.append_nil]

theorem faithful_plain {u : SourceUnit} {lines : List Text} (newline : u.newline = ['\n'])
    (trailing : u.trailing = true) (some : lines ≠ []) (plain : ∀ l ∈ lines, OneLine l) :
    u.Faithful lines := by
  have lined : u.Lined lines := by
    refine ⟨.inl newline, some, fun l hl => ?_⟩
    rw [newline]
    exact IsNewline.not_inside (.inl rfl) (plain l hl)
  refine ⟨lined, ?_, ?_⟩
  · rw [newline, lined.assemble_eq, newline]
    apply newlineOf_outside
    intro inside
    have mem : '\r' ∈ Text.join ['\n'] lines ++ (if u.trailing then ['\n'] else []) :=
      inside.subset List.mem_cons_self
    simp only [trailing, if_true, List.mem_append, List.mem_singleton] at mem
    rcases mem with mem | mem
    · rcases Text.mem_join mem with own | ⟨l, hl, own⟩
      · exact absurd own (by decide)
      · exact (plain l hl).1 own
    · exact absurd mem (by decide)
  · intro none
    rw [trailing] at none
    cases none

theorem assemble_ofText (path : Path) (t : Text) (scope : Scope) :
    (ofText path t scope).assemble (ofText path t scope).lines = t := by
  obtain ⟨lined, pieces⟩ := ofText_lines path t scope
  have again := lined.splitOn_assemble
  rw [newline_ofText, ← pieces] at again
  have newline := (isNewline_newlineOf t).ne_nil
  calc (ofText path t scope).assemble (ofText path t scope).lines
      = Text.join (newlineOf t) (Text.splitOn (newlineOf t) t) := by
        rw [← again, Text.join_splitOn newline]
    _ = t := Text.join_splitOn newline t

theorem faithful_ofText (path : Path) (t : Text) (scope : Scope) :
    (ofText path t scope).Faithful (ofText path t scope).lines := by
  refine ⟨(ofText_lines path t scope).1, ?_, ?_⟩
  · rw [assemble_ofText, newline_ofText]
  · rw [assemble_ofText, newline_ofText]
    unfold ofText
    dsimp only
    split
    · intro none
      cases none
    · rename_i ends
      exact fun _ suffix => ends (List.isSuffixOf_iff_suffix.mpr suffix)

theorem Faithful.kind_iff {u : SourceUnit} {lines : List Text} (h : u.Faithful lines) :
    u.newline = pair ↔ pair <:+: u.assemble lines := by
  by_cases inside : pair <:+: u.assemble lines
  · simp [← h.kind, newlineOf_inside inside, inside]
  · have other : ['\n'] ≠ pair := by decide
    simp [← h.kind, newlineOf_outside inside, inside, other]

section Changed

variable {u : SourceUnit} {lines lines' : List Text}
  (each : List.Forall₂ SameEnds lines lines')
include each

theorem Lined.changed (h : u.Lined lines) : u.Lined lines' := by
  refine ⟨h.newline, ?_, fun l' hl' => ?_⟩
  · rintro rfl
    exact h.some (List.forall₂_nil_right_iff.mp each)
  · obtain ⟨l, hl, same⟩ := exists_of_mem_right each hl'
    exact same.absent _ h.newline (h.absent l hl)

theorem Faithful.pair_changed (h : u.Faithful lines) (pairs : u.newline = pair) :
    pair <:+: u.assemble lines' := by
  have newline : IsNewline pair := .inr rfl
  have cut := h.splitOn_assemble
  have cut' := (Lined.changed each h.toLined).splitOn_assemble
  rw [pairs] at cut cut'
  by_contra outside
  rw [Text.splitOn_of_not_infix outside] at cut'
  have one : (Text.splitOn pair (u.assemble lines)).length = 1 := by
    rw [cut, List.length_append, each.length_eq, ← List.length_append, ← cut']
    rfl
  obtain ⟨piece, alone⟩ := List.length_eq_one_iff.mp one
  have whole := Text.join_splitOn newline.ne_nil (u.assemble lines)
  rw [alone] at whole
  have mem : u.assemble lines ∈ Text.splitOn pair (u.assemble lines) := by
    rw [alone, ← whole]
    simp [Text.join]
  exact Text.not_infix_of_mem_splitOn newline.ne_nil mem (h.kind_iff.mp pairs)

theorem not_pair_changed (single : ∀ l ∈ lines, ¬ ['\n'] <:+: l) {e : Text}
    (ending : e = [] ∨ e = ['\n']) (outside : ¬ pair <:+: Text.join ['\n'] lines ++ e) :
    ¬ pair <:+: Text.join ['\n'] lines' ++ e := by
  induction each with
  | nil => exact outside
  | @cons l l' rest rest' same each ih =>
    obtain ⟨here, later⟩ := List.forall_mem_cons.mp single
    have whole : ¬ pair <:+: l' := fun inside =>
      same.absent _ (.inl rfl) here ((List.suffix_cons '\r' _).isInfix.trans inside)
    have step : ∀ y y' : Text, (pair <:+: y' → pair <:+: y) → ¬ pair <:+: l ++ '\n' :: y →
        ¬ pair <:+: l' ++ '\n' :: y' := by
      intro y y' behind outside inside
      rcases pair_inside.mp inside with inside | meets | inside
      · exact whole inside
      · exact outside (pair_inside.mpr (.inr (.inl (same.ending meets))))
      · exact outside (pair_inside.mpr (.inr (.inr (behind inside))))
    by_cases last : rest = []
    · subst last
      cases List.forall₂_nil_left_iff.mp each
      rcases ending with rfl | rfl
      · simpa [Text.join, List.intercalate] using whole
      · have alone := step [] [] id
        simp only [Text.join, List.intercalate] at outside ⊢
        simpa using alone (by simpa using outside)
    · have last' : rest' ≠ [] := by
        rintro rfl
        exact last (List.forall₂_nil_right_iff.mp each)
      rw [Text.join_cons _ _ last] at outside
      rw [Text.join_cons _ _ last']
      have both := step (Text.join ['\n'] rest ++ e) (Text.join ['\n'] rest' ++ e) fun inside =>
        Classical.byContradiction fun out => ih later out inside
      simpa using both (by simpa using outside)

theorem Faithful.ends_changed (h : u.Faithful lines) (cut_off : u.trailing = false) :
    ¬ u.newline <:+ u.assemble lines' := by
  have cut' := (Lined.changed each h.toLined).splitOn_assemble
  rintro ⟨x, eq⟩
  rw [← eq, h.newline.splitOn_ending, ending, cut_off] at cut'
  have some := Text.splitOn_ne_nil u.newline x
  generalize Text.splitOn u.newline x = before at cut' some
  rw [← (by simpa using cut' : before ++ [[]] = lines')] at each
  have front := List.forall₂_take_append _ _ _ each
  have back := List.forall₂_drop_append _ _ _ each
  obtain ⟨l, rest, same, none, back⟩ := List.forall₂_cons_right_iff.mp back
  cases List.forall₂_nil_right_iff.mp none
  have parts := List.take_append_drop before.length lines
  rw [back, same.some rfl] at parts
  have there : lines.take before.length ≠ [] := by
    intro nothing
    rw [nothing] at front
    exact some (List.forall₂_nil_left_iff.mp front)
  refine h.ends cut_off ⟨Text.join u.newline (lines.take before.length), ?_⟩
  have joined := Text.join_append_singleton u.newline there []
  rw [parts] at joined
  simp [assemble, cut_off, joined]

theorem Faithful.changed (h : u.Faithful lines) : u.Faithful lines' := by
  have lined := Lined.changed each h.toLined
  refine ⟨lined, ?_, h.ends_changed each⟩
  rcases h.newline with single | pairs
  · have outside : ¬ pair <:+: u.assemble lines := by
      rw [← h.kind_iff, single]
      decide
    rw [h.assemble_eq, single] at outside
    rw [lined.assemble_eq, single]
    refine newlineOf_outside (not_pair_changed each (single ▸ h.absent) ?_ outside)
    split
    · exact .inr rfl
    · exact .inl rfl
  · rw [newlineOf_inside (h.pair_changed each pairs)]
    exact pairs.symm

end Changed

theorem Faithful.padded {u : SourceUnit} {lines : List Text} (h : u.Faithful lines)
    (some : u.assemble lines ≠ []) : u.Faithful ([] :: lines) := by
  have lined : u.Lined ([] :: lines) := by
    refine ⟨h.newline, List.cons_ne_nil _ _, List.forall_mem_cons.mpr ⟨?_, h.absent⟩⟩
    simpa using h.newline.ne_nil
  have whole : u.assemble ([] :: lines) = u.newline ++ u.assemble lines := by
    rw [lined.assemble_eq, h.assemble_eq, Text.join_cons _ _ h.some]
    simp
  refine ⟨lined, ?_, fun cut_off ends => h.ends cut_off ?_⟩
  · rw [whole]
    rcases h.newline with single | pairs
    · have outside : ¬ pair <:+: u.assemble lines := by
        rw [← h.kind_iff, single]
        decide
      rw [single]
      refine newlineOf_outside fun inside => outside ?_
      have split : pair <:+: [] ++ '\n' :: u.assemble lines := inside
      rcases pair_inside.mp split with no | no | inside
      · exact absurd (List.infix_nil.mp no) (by decide)
      · exact absurd (List.suffix_nil.mp no) (by decide)
      · exact inside
    · rw [pairs]
      exact newlineOf_inside (List.prefix_append _ _).isInfix
  · rw [whole] at ends
    refine List.suffix_of_suffix_length_le ends (List.suffix_append _ _) ?_
    rcases h.newline with single | pairs
    · rw [single]
      exact List.length_pos_iff.mpr some
    · rw [pairs]
      exact (h.kind_iff.mp pairs).length_le

end SourceUnit

end SchedulingNoise
