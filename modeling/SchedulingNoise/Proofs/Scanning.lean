import SchedulingNoise.Proofs.Outcomes
import SchedulingNoise.Source.Scan

namespace SchedulingNoise

theorem pairwise_zipIdx (l : List α) : l.zipIdx.Pairwise fun a b => a.2 < b.2 := by
  have rising : (l.zipIdx.map Prod.snd).Pairwise (· < ·) := by
    rw [List.zipIdx_map_snd]
    exact List.pairwise_lt_range'
  exact List.pairwise_map.mp rising

namespace Catalogue

theorem getElem?_scanLine {c : Catalogue} {line : Text} {o : Occurrence} (h : o ∈ c.scanLine line) :
    (c.scanLine line)[o.sequence]? = some o := by
  unfold scanLine at h ⊢
  obtain ⟨⟨find, n⟩, mem, rfl⟩ := List.mem_map.mp h
  have found := List.mk_mem_zipIdx_iff_getElem?.mp mem
  rw [List.getElem?_map, List.getElem?_zipIdx, found]
  simp

theorem pairwise_scanLine (c : Catalogue) (line : Text) :
    (c.scanLine line).Pairwise (fun o o' => o.sequence < o'.sequence) := by
  unfold scanLine
  rw [List.pairwise_map]
  exact pairwise_zipIdx _

end Catalogue

/-- A point's occurrence on a line. -/
structure Point.Matches (p : Point α) (o : Occurrence) : Prop where
  sequence : p.sequence = o.sequence
  kind : p.kind = o.kind
  trigger : p.trigger = o.trigger

theorem mem_classifyLine {c : Catalogue} {line above : Text} {number : Int} {ps : List (Point Int)}
    (h : classifyLine c line above number = .ok ps) {q : Point Int} (hq : q ∈ ps) :
    q.line = number ∧ ∃ o ∈ c.scanLine line, q.Matches o := by
  obtain ⟨o, mem, made⟩ := exists_of_mem_right (mapM_eq_ok.mp h) hq
  obtain ⟨a, _, made⟩ := bind_eq_ok.mp made
  cases made
  exact ⟨rfl, o, mem, rfl, rfl, rfl⟩

theorem mem_pointsFrom {c : Catalogue} {above : Text} {number : Nat} {lines : List Text}
    {ps : List (Point Int)} (h : pointsFrom c above number lines = .ok ps) {q : Point Int}
    (hq : q ∈ ps) :
    ∃ i line o, lines[i]? = some line ∧ q.line = (number + i : Nat) ∧ o ∈ c.scanLine line ∧
      q.Matches o := by
  induction lines generalizing above number ps with
  | nil =>
    cases h
    cases hq
  | cons line rest ih =>
    obtain ⟨here, classified, h⟩ := bind_eq_ok.mp h
    obtain ⟨below, others, h⟩ := bind_eq_ok.mp h
    cases h
    rcases List.mem_append.mp hq with hq | hq
    · obtain ⟨number_eq, o, mem, made⟩ := mem_classifyLine classified hq
      exact ⟨0, line, o, rfl, by simpa using number_eq, mem, made⟩
    · obtain ⟨i, line', o, at_, number_eq, mem, made⟩ := ih others hq
      exact ⟨i + 1, line', o, by simpa using at_, by rw [number_eq]; congr 1; omega, mem, made⟩

/-- In reading order: by lines, and on a line by sequence numbers. -/
def Point.Before (p q : Point α) : Prop :=
  p.line < q.line ∨ p.line = q.line ∧ p.sequence < q.sequence

theorem pairwise_classifyLine {c : Catalogue} {line above : Text} {number : Int}
    {ps : List (Point Int)} (h : classifyLine c line above number = .ok ps) :
    ps.Pairwise Point.Before := by
  refine pairwise_right (mapM_eq_ok.mp h) (c.pairwise_scanLine line) ?_
  intro o p o' p' made made' rising
  obtain ⟨_, _, made⟩ := bind_eq_ok.mp made
  obtain ⟨_, _, made'⟩ := bind_eq_ok.mp made'
  cases made
  cases made'
  exact .inr ⟨rfl, Int.ofNat_lt.mpr rising⟩

theorem pairwise_pointsFrom {c : Catalogue} {above : Text} {number : Nat} {lines : List Text}
    {ps : List (Point Int)} (h : pointsFrom c above number lines = .ok ps) :
    ps.Pairwise Point.Before := by
  induction lines generalizing above number ps with
  | nil =>
    cases h
    exact .nil
  | cons line rest ih =>
    obtain ⟨here, classified, h⟩ := bind_eq_ok.mp h
    obtain ⟨below, others, h⟩ := bind_eq_ok.mp h
    cases h
    refine List.pairwise_append.mpr ⟨pairwise_classifyLine classified, ih others, ?_⟩
    intro p hp q hq
    obtain ⟨at_, _⟩ := mem_classifyLine classified hp
    obtain ⟨i, _, _, _, further, _⟩ := mem_pointsFrom others hq
    exact .inl (by omega)

namespace Survey

variable {u : SourceUnit} {c : Catalogue} {s : Survey}

theorem of_ofUnit (h : ofUnit u c = .ok s) : s.unit = u ∧ s.catalogue = catalogueOr c ∧
    pointsFrom (catalogueOr c) [] 1 u.lines = .ok s.points := by
  obtain ⟨ps, found, made⟩ := bind_eq_ok.mp h
  cases made
  exact ⟨rfl, rfl, found⟩

theorem own_of_survey (scanned : Survey.ofUnit u c = .ok s)
    {q : Point Int} (hq : q ∈ s.points) :
    ∃ i line o, u.lines[i]? = some line ∧ q.line = (i + 1 : Nat) ∧
      o ∈ s.catalogue.scanLine line ∧ q.Matches o := by
  obtain ⟨_, catalogue, found⟩ := of_ofUnit scanned
  obtain ⟨i, line, o, at_, number, mem, matched⟩ := mem_pointsFrom found hq
  exact ⟨i, line, o, at_, by rw [number, Nat.add_comm], catalogue ▸ mem, matched⟩

end Survey

end SchedulingNoise
