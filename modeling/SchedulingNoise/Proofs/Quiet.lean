import SchedulingNoise.Proofs.Reassembly
import SchedulingNoise.Proofs.Scanning
import SchedulingNoise.Instrument.Unit

namespace SchedulingNoise

section Quiet

variable [Amount α] {points : List (Point α)} (quiet : ∀ p ∈ points, p.noise = none)
include quiet

omit [Amount α] in
theorem noisyOn_quiet (number : Nat) : noisyOn points number = [] := by
  apply List.filter_eq_nil_iff.mpr
  intro p hp
  simp [quiet p hp]

theorem Survey.instrumentedFrom_quiet (s : Survey) (r : RandomField) (number : Nat)
    (lines : List Text) : s.instrumentedFrom points r number lines = .ok lines := by
  induction lines generalizing number with
  | nil => rfl
  | cons line rest ih =>
    have here : s.instrumentedLine points r number line = .ok line := by
      rw [instrumentedLine, noisyOn_quiet quiet number]
    exact bind_eq_ok.mpr ⟨line, here, bind_eq_ok.mpr ⟨rest, ih (number + 1), rfl⟩⟩

theorem Survey.instrument_quiet (s : Survey) (r : RandomField) :
    s.instrument points r = .ok s.unit.text := by
  have none : points.any (·.noise.isSome) = false := by
    apply List.any_eq_false.mpr
    intro p hp
    simp [quiet p hp]
  have lines : s.instrumentedLines points r = .ok s.unit.lines :=
    s.instrumentedFrom_quiet quiet (s.randomField r) 1 s.unit.lines
  rw [instrument, none]
  exact bind_eq_ok.mpr ⟨s.unit.lines, lines, rfl⟩

end Quiet

/-- A text survives being cut into lines: the unit puts it together again, has a line, and has no
newline of its own inside a line. However the unit is scanned, points that carry no noise give
back the text. -/
theorem text_survives [Amount α] (path : Path) (t : Text) (scope : Scope) :
    (SourceUnit.ofText path t scope).text = t ∧
    (SourceUnit.ofText path t scope).lines ≠ [] ∧
    (∀ l ∈ (SourceUnit.ofText path t scope).lines,
      ¬ (SourceUnit.ofText path t scope).newline <:+: l) ∧
    ∀ c s, Survey.ofUnit (.ofText path t scope) c = .ok s →
      ∀ points : List (Point α), (∀ p ∈ points, p.noise = none) →
        ∀ r, s.instrument points r = .ok t := by
  have whole : (SourceUnit.ofText path t scope).text = t := SourceUnit.assemble_ofText path t scope
  obtain ⟨lined, _⟩ := SourceUnit.ofText_lines path t scope
  refine ⟨whole, lined.some, lined.absent, ?_⟩
  intro c s scanned points quiet r
  obtain ⟨unit, _⟩ := Survey.of_ofUnit scanned
  rw [s.instrument_quiet quiet r, unit, whole]

/-- Lines between pairs, with single characters of such pairs in them, and no pair at the end. -/
def mixedEnds : Text := "\r\n\nx.lock();\r\r\n\r\n\rx.unlock();\n".toList

def mixedEndsSurvey : Survey where
  unit := .ofText (.ofText "A.java".toList) mixedEnds
  catalogue := .default
  points := [⟨2, 0, .mutualExclusion, ".lock(".toList, none⟩,
    ⟨4, 0, .mutualExclusion, ".unlock(".toList, none⟩]

theorem mixedEnds_survive :
    Survey.ofUnit (.ofText (.ofText "A.java".toList) mixedEnds) .default = .ok mixedEndsSurvey ∧
    mixedEndsSurvey.unit.lines =
      ["", "\nx.lock();\r", "", "\rx.unlock();\n"].map String.toList ∧
    (∀ l ∈ mixedEndsSurvey.unit.lines, ¬ mixedEndsSurvey.unit.newline <:+: l) ∧
    (∀ p ∈ mixedEndsSurvey.points, p.noise = none) ∧
    mixedEndsSurvey.instrument mixedEndsSurvey.points = .ok mixedEnds := by
  have scanned : Survey.ofUnit (.ofText (.ofText "A.java".toList) mixedEnds) .default =
      .ok mixedEndsSurvey := by rfl
  have quiet : ∀ p ∈ mixedEndsSurvey.points, p.noise = none := by decide +kernel
  obtain ⟨_, _, absent, instrumented⟩ :=
    text_survives (α := Int) (.ofText "A.java".toList) mixedEnds {}
  exact ⟨scanned, by decide +kernel, absent, quiet, instrumented _ _ scanned _ quiet {}⟩

end SchedulingNoise
