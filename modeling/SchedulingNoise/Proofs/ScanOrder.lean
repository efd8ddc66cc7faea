import Mathlib.Algebra.Ring.Nat
import SchedulingNoise.Proofs.Finds
import SchedulingNoise.Proofs.LongNumbers
import SchedulingNoise.Proofs.RoundTrip
import SchedulingNoise.Proofs.Scanning

/-! What a scan leaves behind. The points of a line stand in the order of their offsets, and where
triggers begin at one offset, in the order of the catalogue; each has the noise that the line
above gives to its number. -/
namespace SchedulingNoise

section Stable

variable {le : α → α → Bool} {R : α → α → Prop}

/-- In order, and if they tie, as they were before. -/
def InOrder (le : α → α → Bool) (R : α → α → Prop) (a b : α) : Prop :=
  le a b = true ∧ (le b a = true → R a b)

variable (trans : ∀ a b c, le a b → le b c → le a c) (total : ∀ a b, le a b || le b a)
include trans total

theorem inOrder_insertBy {a : α} {l : List α} (before : ∀ b ∈ l, R a b)
    (sorted : l.Pairwise (InOrder le R)) : (insertBy le a l).Pairwise (InOrder le R) := by
  induction l with
  | nil => simp [insertBy]
  | cons b rest ih =>
    obtain ⟨below, restSorted⟩ := List.pairwise_cons.mp sorted
    unfold insertBy
    split
    · rename_i first
      apply List.pairwise_cons.mpr ⟨_, sorted⟩
      intro c hc
      refine ⟨?_, fun _ => before c hc⟩
      rcases List.mem_cons.mp hc with rfl | hc
      · exact first
      · exact trans a b c first (below c hc).1
    · -- Only a strictly smaller element is passed, so nothing that ties changes places.
      rename_i later
      apply List.pairwise_cons.mpr ⟨_, ih (List.forall_mem_cons.mp before).2 restSorted⟩
      intro c hc
      rcases List.mem_cons.mp ((insertBy_perm le a rest).mem_iff.mp hc) with rfl | hc
      · have := total b c
        simp_all [InOrder]
      · exact below c hc

theorem inOrder_sortBy {l : List α} (ordered : l.Pairwise R) :
    (sortBy le l).Pairwise (InOrder le R) := by
  induction l with
  | nil => exact .nil
  | cons a rest ih =>
    obtain ⟨before, ordered⟩ := List.pairwise_cons.mp ordered
    apply inOrder_insertBy trans total _ (ih ordered)
    intro b hb
    exact before b ((sortBy_perm le rest).mem_iff.mp hb)

end Stable

namespace Catalogue

variable (cat : Catalogue) (line : Text)

/-- The finds on a line, each with its entry and the place of the entry in the catalogue. -/
def marked : List (Nat × Entry × Nat) :=
  cat.zipIdx.flatMap fun e => (triggerOffsets e.1.trigger line).map fun o => (o, e)

theorem finds_eq_marked : cat.finds line = (cat.marked line).map fun p => (p.1, p.2.1) := by
  have entries (f : Entry → List (Nat × Entry)) :
      cat.flatMap f = cat.zipIdx.flatMap fun e => f e.1 := by
    conv_lhs => rw [← List.zipIdx_map_fst 0 cat, List.flatMap_map]
  rw [finds, entries, marked, List.map_flatMap]
  simp [Function.comp_def]

theorem mem_marked {o j : Nat} {e : Entry} :
    (o, e, j) ∈ cat.marked line ↔ cat[j]? = some e ∧ o ∈ triggerOffsets e.trigger line := by
  unfold marked
  constructor
  · intro h
    obtain ⟨⟨e', j'⟩, he, h⟩ := List.mem_flatMap.mp h
    obtain ⟨o', ho, eq⟩ := List.mem_map.mp h
    cases eq
    exact ⟨List.mk_mem_zipIdx_iff_getElem?.mp he, ho⟩
  · rintro ⟨he, ho⟩
    apply List.mem_flatMap.mpr
    exact ⟨(e, j), List.mk_mem_zipIdx_iff_getElem?.mpr he, List.mem_map.mpr ⟨o, ho, rfl⟩⟩

theorem length_marked :
    (cat.marked line).length = (cat.map fun e => (triggerOffsets e.trigger line).length).sum := by
  have same : (cat.marked line).length = (cat.finds line).length := by
    rw [finds_eq_marked, List.length_map]
  rw [same, finds, List.length_flatMap]
  simp

theorem pairwise_marked : (cat.marked line).Pairwise fun p q =>
    p.2.2 < q.2.2 ∨ p.2.2 = q.2.2 ∧ p.1 < q.1 := by
  apply List.pairwise_flatMap.mpr
  constructor
  · intro e _
    apply List.pairwise_map.mpr
    exact (pairwise_triggerOffsets e.1.trigger line).imp fun less => .inr ⟨rfl, less⟩
  · apply (pairwise_zipIdx cat).imp
    intro e e' less p hp q hq
    obtain ⟨_, _, rfl⟩ := List.mem_map.mp hp
    obtain ⟨_, _, rfl⟩ := List.mem_map.mp hq
    exact .inl less

def ranked : List (Nat × Entry × Nat) := sortBy (fun p q => p.1 ≤ q.1) (cat.marked line)

theorem pairwise_ranked : (cat.ranked line).Pairwise fun p q =>
    p.1 < q.1 ∨ p.1 = q.1 ∧ p.2.2 < q.2.2 := by
  apply (inOrder_sortBy _ _ (cat.pairwise_marked line)).imp
  · rintro p q ⟨le, tie⟩
    simp only [decide_eq_true_eq] at le tie
    omega
  · intro p q r pq qr
    simp only [decide_eq_true_eq] at *
    omega
  · intro p q
    simp only [Bool.or_eq_true, decide_eq_true_eq]
    omega

theorem scanLine_eq_ranked : cat.scanLine line = (cat.ranked line).zipIdx.map fun p =>
    ⟨p.1.2.1.kind, p.1.2.1.trigger, p.1.1, p.2⟩ := by
  have sorted : sortBy (fun a b => a.1 ≤ b.1) (cat.finds line) =
      (cat.ranked line).map fun p => (p.1, p.2.1) := by
    rw [finds_eq_marked]
    exact sortBy_map _ fun p _ q _ => rfl
  unfold scanLine
  rw [sorted, List.zipIdx_map]
  simp

end Catalogue

structure Noise.InRange (n : Noise Int) : Prop where
  probability : 0 ≤ n.probability ∧ n.probability ≤ 100
  delays : 0 ≤ n.low ∧ n.low ≤ n.high

theorem Pragma.Sound.inRange {a : Pragma Int} (h : a.Sound) : a.noise.InRange := by
  refine ⟨h.likely, ?_⟩
  unfold Noise.low Noise.high
  cases action : a.noise.action with
  | yield => exact (by decide : (0 : Int) ≤ 100 ∧ (100 : Int) ≤ 1000)
  | sleep low high =>
    obtain ⟨positive, order, _⟩ := h.delays low high action
    exact ⟨positive, order⟩

theorem Pragma.inRange_annotations {line : Text} {a : Pragma Int} (h : a ∈ annotations line) :
    a.noise.InRange := by
  obtain ⟨m, _, read⟩ := List.mem_filterMap.mp h
  cases result : ofList m.value with
  | error f => simp [result, Except.toOption] at read
  | ok r =>
    rw [result] at read
    cases (read : r = some a)
    exact (sound_ofList sound_default result).inRange

/-- The noise that a line gives to a number on the line below: that of its first annotation for
the number, if one is well formed. -/
def noiseFor (above : Text) (q : Int) : Option (Noise Int) :=
  ((Pragma.annotations above).find? (·.sequence = q)).map (·.noise)

theorem inRange_noiseFor {above : Text} {q : Int} {n : Noise Int} (h : n ∈ noiseFor above q) :
    n.InRange := by
  obtain ⟨a, found, rfl⟩ := Option.map_eq_some_iff.mp h
  exact Pragma.inRange_annotations (List.mem_of_find?_eq_some found)

/-- The points of a line below another one, at places of the line and of the catalogue. -/
structure ScannedLine (cat : Catalogue) (line above : Text) (points : List (Point Int))
    (places : List (Nat × Nat)) : Prop where
  ordered : places.Pairwise fun p q => p.1 < q.1 ∨ p.1 = q.1 ∧ p.2 < q.2
  complete : ∀ o j, (o, j) ∈ places ↔
    ∃ e, cat[j]? = some e ∧ o ∈ triggerOffsets e.trigger line
  numbers : points.map (·.sequence) =
    (List.range (cat.map fun e => (triggerOffsets e.trigger line).length).sum).map Int.ofNat
  standing : List.Forall₂ (fun p place => ∃ e, cat[place.2]? = some e ∧ p.kind = e.kind ∧
    p.trigger = e.trigger ∧ e.trigger <+: line.drop place.1) points places
  noise : ∀ p ∈ points, p.noise = noiseFor above p.sequence

section Points

variable {cat : Catalogue} {line above : Text}

theorem classifyLine_eq (legible : ∀ m ∈ Pragma.comments above, Pragma.Legible m.value)
    (number : Int) : classifyLine cat line above number = .ok ((cat.scanLine line).map fun o =>
      ⟨number, o.sequence, o.kind, o.trigger, noiseFor above o.sequence⟩) := by
  apply mapM_eq_ok.mpr
  apply List.forall₂_map_right_iff.mpr
  apply List.forall₂_same.mpr
  intro o _
  have looked := Pragma.lookup_eq (fun m hm => (legible m hm).exists_ofList) o.sequence
  unfold Occurrence.point
  rw [show Pragma.lookupIn o.sequence (Pragma.readings above) = _ from looked]
  rfl

theorem scannedLine_of_classifyLine {number : Int} {ps : List (Point Int)}
    (legible : ∀ m ∈ Pragma.comments above, Pragma.Legible m.value)
    (h : classifyLine cat line above number = .ok ps) :
    ScannedLine cat line above ps ((cat.ranked line).map fun p => (p.1, p.2.2)) := by
  have members {p : Nat × Entry × Nat} : p ∈ cat.ranked line ↔ p ∈ cat.marked line :=
    (sortBy_perm _ _).mem_iff
  rw [classifyLine_eq legible, cat.scanLine_eq_ranked] at h
  cases h
  constructor
  · exact List.pairwise_map.mpr (cat.pairwise_ranked line)
  · intro o j
    simp only [List.mem_map, Prod.exists, Prod.mk.injEq, members]
    constructor
    · rintro ⟨_, e, _, h, rfl, rfl⟩
      exact ⟨e, (cat.mem_marked line).mp h⟩
    · rintro ⟨e, h⟩
      exact ⟨o, e, j, (cat.mem_marked line).mpr h, rfl, rfl⟩
  · have count : (cat.ranked line).length = _ :=
      (sortBy_perm _ _).length_eq.trans (cat.length_marked line)
    rw [← count, List.range_eq_range', ← List.zipIdx_map_snd 0 (cat.ranked line)]
    simp only [List.map_map]
    rfl
  · -- Points come from the numbered finds, places from the finds: both are maps of the former.
    have unnumbered := List.zipIdx_map_fst 0 (cat.ranked line)
    generalize (cat.ranked line).zipIdx = numbered at unnumbered
    rw [← unnumbered] at members ⊢
    simp only [List.map_map, List.forall₂_map_left_iff, List.forall₂_map_right_iff]
    apply List.forall₂_same.mpr
    rintro ⟨⟨o, e, j⟩, n⟩ h
    obtain ⟨entry, ho⟩ := (cat.mem_marked line).mp (members.mp (List.mem_map_of_mem h))
    exact ⟨e, entry, rfl, rfl, prefix_of_mem_triggerOffsets ho⟩
  · intro p hp
    obtain ⟨o, _, rfl⟩ := List.mem_map.mp hp
    rfl

def lineAbove (lines : List Text) (i : Nat) : Text := ([] :: lines).getD i []

theorem pointsFrom_filter {number i : Nat} {lines : List Text} {ps : List (Point Int)}
    (h : pointsFrom cat above number lines = .ok ps) (at_ : lines[i]? = some line) :
    classifyLine cat line ((above :: lines).getD i []) (number + i : Nat) =
      .ok (ps.filter (·.line = (number + i : Nat))) := by
  induction lines generalizing above number i ps with
  | nil => cases at_
  | cons first rest ih =>
    obtain ⟨here, classified, h⟩ := bind_eq_ok.mp h
    obtain ⟨below, others, h⟩ := bind_eq_ok.mp h
    cases h
    have ahead : ∀ p ∈ here, p.line = number := fun p hp => (mem_classifyLine classified hp).1
    rw [List.filter_append]
    cases i with
    | zero =>
      cases at_
      have own : here.filter (·.line = (number : Int)) = here :=
        List.filter_eq_self.mpr fun p hp => decide_eq_true (ahead p hp)
      have none : below.filter (·.line = (number : Int)) = [] := by
        apply List.filter_eq_nil_iff.mpr
        intro p hp
        obtain ⟨_, _, _, _, further, _⟩ := mem_pointsFrom others hp
        simp only [decide_eq_true_eq]
        omega
      simpa [own, none] using classified
    | succ i =>
      have none : here.filter (·.line = ((number + (i + 1) : Nat) : Int)) = [] := by
        apply List.filter_eq_nil_iff.mpr
        intro p hp
        have := ahead p hp
        simp only [decide_eq_true_eq]
        omega
      rw [none, List.nil_append, show number + (i + 1) = number + 1 + i by omega]
      exact ih others at_

end Points

theorem Survey.scannedLine_of_ofUnit {u : SourceUnit} {cat : Catalogue} {s : Survey} {i : Nat}
    {line : Text} (legible : ∀ l ∈ u.lines, ∀ m ∈ Pragma.comments l, Pragma.Legible m.value)
    (scanned : ofUnit u cat = .ok s) (at_ : u.lines[i]? = some line) :
    ∃ places, ScannedLine (catalogueOr cat) line (lineAbove u.lines i)
      (s.points.filter (·.line = (i + 1 : Nat))) places := by
  obtain ⟨_, _, found⟩ := of_ofUnit scanned
  have classified := pointsFrom_filter found at_
  rw [Nat.add_comm 1 i] at classified
  refine ⟨_, scannedLine_of_classifyLine ?_ classified⟩
  cases i with
  | zero =>
    intro m hm
    cases hm
  | succ j =>
    have inside : j < u.lines.length := Nat.lt_of_succ_lt (List.getElem?_eq_some_iff.mp at_).1
    have member : ([] :: u.lines).getD (j + 1) [] ∈ u.lines := by simp [inside]
    exact legible _ member

/-- A scan numbers the finds of every line from left to right, each with the noise that the line
above has for its number. -/
theorem scan_in_order (u : SourceUnit) {cat : Catalogue} (nonempty : cat ≠ [])
    (legible : ∀ l ∈ u.lines, ∀ m ∈ Pragma.comments l, Pragma.Legible m.value) :
    ∃ s, Survey.ofUnit u cat = .ok s ∧ s.points.Pairwise Point.Before ∧
      (∀ p ∈ s.points, (∃ i line, u.lines[i]? = some line ∧ p.line = (i + 1 : Nat)) ∧
        (p.line = 1 → p.noise = none) ∧ ∀ n ∈ p.noise, n.InRange) ∧
      ∀ i line, u.lines[i]? = some line → ∃ places, ScannedLine cat line (lineAbove u.lines i)
        (s.points.filter (·.line = (i + 1 : Nat))) places := by
  have short : ∀ n, ¬ ∃ l ∈ u.lines, Pragma.OverlongIn l n := by
    rintro n ⟨l, hl, m, hm, excess⟩
    exact (legible l hl m hm).not_excessive n excess
  obtain ⟨s, scanned⟩ := (answers_ofUnit u cat).exists_ok short
  obtain ⟨_, _, found⟩ := Survey.of_ofUnit scanned
  have given : Survey.catalogueOr cat = cat := by simp [Survey.catalogueOr, nonempty]
  have lines (i : Nat) (line : Text) (at_ : u.lines[i]? = some line) :=
    given ▸ Survey.scannedLine_of_ofUnit legible scanned at_
  refine ⟨s, scanned, pairwise_pointsFrom found, ?_, lines⟩
  intro p hp
  obtain ⟨i, line, _, at_, number, _⟩ := Survey.own_of_survey scanned hp
  obtain ⟨places, scannedLine⟩ := lines i line at_
  have noise := scannedLine.noise p (List.mem_filter.mpr ⟨hp, decide_eq_true number⟩)
  refine ⟨⟨i, line, at_, number⟩, ?_, ?_⟩
  · intro first
    obtain rfl : i = 0 := by omega
    exact noise
  · rw [noise]
    intro n hn
    exact inRange_noiseFor hn

def nested : Catalogue :=
  [⟨.semaphore, "lock(".toList⟩, ⟨.mutualExclusion, ".lock(".toList⟩, ⟨.latch, "lock(".toList⟩]

/-- Above a call site with three finds, annotations for the second of them: one that is
malformed, and two that are not. -/
def nestedUnit : SourceUnit where
  path := .ofText "A.java".toList
  lines := ["/*@PreemptionPoint(sequence=1,probability=101)*/ /*@PreemptionPoint(".toList ++
    "sequence=1,type=yield)*/ /*@PreemptionPoint(sequence=1)*/".toList, "x.lock();".toList]

theorem nested_in_order : nested ≠ [] ∧
    (∀ l ∈ nestedUnit.lines, ∀ m ∈ Pragma.comments l, Pragma.Legible m.value) ∧
    ∃ s, Survey.ofUnit nestedUnit nested = .ok s ∧ s.points.Pairwise Point.Before ∧
      s.points.map (fun p => (p.line, p.sequence, p.kind, p.noise)) =
        [(2, 0, .mutualExclusion, none), (2, 1, .semaphore, some ⟨100, .yield⟩),
          (2, 2, .latch, none)] := by
  have legible : ∀ l ∈ nestedUnit.lines, ∀ m ∈ Pragma.comments l, Pragma.Legible m.value := by
    decide +kernel
  obtain ⟨s, scanned, ordered, _⟩ := scan_in_order nestedUnit (by decide : nested ≠ []) legible
  have points : (Survey.ofUnit nestedUnit nested).map (fun s =>
      s.points.map fun p => (p.line, p.sequence, p.kind, p.noise)) =
      .ok [(2, 0, .mutualExclusion, none), (2, 1, .semaphore, some ⟨100, .yield⟩),
        (2, 2, .latch, none)] := by decide +kernel
  rw [scanned] at points
  exact ⟨by decide, legible, s, scanned, ordered, Except.ok.inj points⟩

end SchedulingNoise
