import Mathlib.Data.List.Nodup
import SchedulingNoise.Proofs.Finds
import SchedulingNoise.Proofs.Scanning
import SchedulingNoise.Batch.Survey
import SchedulingNoise.Instrument.Unit

/-! The order of a batch makes no difference. Every trigger that a catalogue of a batch can hold
ends at its only parenthesis, so no two of them stand at one place, and a scan does not depend on
the order of the catalogue. -/
namespace SchedulingNoise

namespace Catalogue

/-- No entry's trigger stands at the front of another's. -/
def Unambiguous (c : Catalogue) : Prop :=
  ∀ e ∈ c, ∀ e' ∈ c, e.trigger <+: e'.trigger → e = e'

variable {c c' : Catalogue}

theorem Unambiguous.eq_of_offset (h : c.Unambiguous) {line : Text} {p q : Nat × Entry}
    (hp : p ∈ c.finds line) (hq : q ∈ c.finds line) (same : p.1 = q.1) : p = q := by
  obtain ⟨ep, op⟩ := mem_finds.mp hp
  obtain ⟨eq, oq⟩ := mem_finds.mp hq
  have left := prefix_of_mem_triggerOffsets op
  have right := prefix_of_mem_triggerOffsets oq
  rw [same] at left
  refine Prod.ext same ?_
  rcases List.prefix_or_prefix_of_prefix left right with front | front
  · exact h _ ep _ eq front
  · exact (h _ eq _ ep front).symm

theorem Unambiguous.scanLine_perm (h : c.Unambiguous) (perm : c'.Perm c) (line : Text) :
    c'.scanLine line = c.scanLine line := by
  have finds : (c'.finds line).Perm (c.finds line) := perm.flatMap_right _
  have sorted : sortBy (fun p q => p.1 ≤ q.1) (c'.finds line) =
      sortBy (fun p q => p.1 ≤ q.1) (c.finds line) := by
    refine List.Perm.eq_of_pairwise ?_ (c'.pairwise_sorted_finds line)
      (c.pairwise_sorted_finds line)
      ((sortBy_perm _ _).trans (finds.trans (sortBy_perm _ _).symm))
    intro p q hp hq pq qp
    exact h.eq_of_offset (finds.mem_iff.mp ((sortBy_perm _ _).mem_iff.mp hp))
      ((sortBy_perm _ _).mem_iff.mp hq) (Nat.le_antisymm pq qp)
  unfold scanLine
  rw [sorted]

def Closes (t : Text) : Prop := t.getLast? = some '(' ∧ '(' ∉ t.dropLast

instance (t : Text) : Decidable (Closes t) := inferInstanceAs (Decidable (_ ∧ _))

theorem Closes.eq_of_begins {s t : Text} (hs : Closes s) (ht : Closes t) (front : s <+: t) :
    s = t := by
  obtain ⟨more, rfl⟩ := front
  rcases List.eq_nil_or_concat more with rfl | ⟨more, c, rfl⟩
  · simp
  · have inside : '(' ∈ (s ++ (more ++ [c])).dropLast := by
      rw [← List.append_assoc, List.dropLast_concat]
      exact List.mem_append_left more (List.mem_of_getLast? hs.1)
    exact absurd inside (by simpa using ht.2)

theorem unambiguous_of_closes (closes : ∀ e ∈ c, Closes e.trigger)
    (distinct : (c.map (·.trigger)).Nodup) : c.Unambiguous := by
  intro e he e' he' front
  exact List.inj_on_of_nodup_map distinct he he' ((closes e he).eq_of_begins (closes e' he') front)

theorem mem_extend {kind : ConstructKind} {ts : List Text} {e : Entry} :
    e ∈ c.extend kind ts ↔ e ∈ c ∨
      e.kind = kind ∧ e.trigger ∈ ts ∧ e.trigger ≠ [] ∧ ∀ d ∈ c, d.trigger ≠ e.trigger := by
  induction ts generalizing c with
  | nil => simp [extend]
  | cons t rest ih =>
    rw [extend]
    split
    · rename_i known
      rw [ih]
      refine or_congr_right (and_congr_right fun _ => ?_)
      simp only [Bool.or_eq_true, List.isEmpty_iff, List.any_eq_true, decide_eq_true_eq] at known
      constructor
      · rintro ⟨mem, rest⟩
        exact ⟨List.mem_cons_of_mem t mem, rest⟩
      · rintro ⟨mem, some, new⟩
        refine ⟨(List.mem_cons.mp mem).resolve_left fun same => ?_, some, new⟩
        rcases known with empty | ⟨d, hd, there⟩
        · exact some (same.trans empty)
        · exact new d hd (there.trans same.symm)
    · rename_i fresh
      simp only [Bool.or_eq_true, List.isEmpty_iff, List.any_eq_true, decide_eq_true_eq, not_or,
        not_exists, not_and] at fresh
      rw [ih]
      constructor
      · rintro (mem | ⟨own, mem, some, new⟩)
        · rcases List.mem_append.mp mem with mem | mem
          · exact .inl mem
          · cases List.mem_singleton.mp mem
            exact .inr ⟨rfl, List.mem_cons_self, fresh.1, fresh.2⟩
        · exact .inr ⟨own, List.mem_cons_of_mem t mem, some,
            fun d hd => new d (List.mem_append_left _ hd)⟩
      · rintro (mem | ⟨own, mem, some, new⟩)
        · exact .inl (List.mem_append_left _ mem)
        · by_cases same : e.trigger = t
          · exact .inl (List.mem_append_right _ (by simp [← own, ← same]))
          · refine .inr ⟨own, (List.mem_cons.mp mem).resolve_left same, some, fun d hd => ?_⟩
            rcases List.mem_append.mp hd with hd | hd
            · exact new d hd
            · cases List.mem_singleton.mp hd
              exact fun eq => same eq.symm

theorem nodup_extend (distinct : (c.map (·.trigger)).Nodup) (kind : ConstructKind)
    (ts : List Text) : ((c.extend kind ts).map (·.trigger)).Nodup := by
  induction ts generalizing c with
  | nil => exact distinct
  | cons t rest ih =>
    rw [extend]
    split
    · exact ih distinct
    · rename_i fresh
      refine ih ?_
      simp only [Bool.or_eq_true, List.any_eq_true, decide_eq_true_eq, not_or, not_exists,
        not_and] at fresh
      rw [List.map_append, List.nodup_append]
      refine ⟨distinct, List.nodup_singleton t, fun x hx y hy => ?_⟩
      obtain ⟨d, hd, rfl⟩ := List.mem_map.mp hx
      cases List.mem_singleton.mp hy
      exact fresh.2 d hd

end Catalogue

namespace Java

theorem methodName?_word {fuel : Nat} {t name rest : Text}
    (h : methodName? fuel t = some (name, rest)) : ∀ c ∈ name, Text.isWord c = true := by
  induction fuel generalizing t with
  | zero => cases h
  | succ fuel ih =>
    -- A name is read here, or behind another word of the type.
    have later : (do
        if t.takeWhile isTypeChar = [] then none
        let rest ← Text.skipBlanks1? (t.dropWhile isTypeChar)
        methodName? fuel rest) = some (name, rest) → ∀ c ∈ name, Text.isWord c = true := by
      intro next
      split at next
      · cases next
      · obtain ⟨_, _, next⟩ := Option.bind_eq_some_iff.mp next
        exact ih next
    rw [methodName?] at h
    dsimp only at h
    split at h
    · split at h
      · exact later h
      · cases h
        exact List.all_eq_true.mp List.all_takeWhile
    · exact later h

end Java

theorem Matcher.mem_allFrom {m : Matcher α} {before : Option Char} {pos skip : Nat} {t : Text}
    {found : Match α} (h : found ∈ m.allFrom before pos skip t) :
    ∃ before' back n, m before' back = some (n, found.value) := by
  induction t generalizing before pos skip with
  | nil => simp [allFrom] at h
  | cons c rest ih =>
    cases skip with
    | succ skip => exact ih h
    | zero =>
      rw [allFrom] at h
      split at h
      · rename_i n a here
        rcases List.mem_cons.mp h with rfl | h
        · exact ⟨before, c :: rest, n, here⟩
        · exact ih h
      · exact ih h

theorem Java.word_of_mem_synchronizedMethods {t name : Text}
    (h : name ∈ Java.synchronizedMethods t) : ∀ c ∈ name, Text.isWord c = true := by
  obtain ⟨m, hm, rfl⟩ := List.mem_map.mp (List.mem_filter.mp h).1
  obtain ⟨before, back, n, found⟩ := Matcher.mem_allFrom hm
  unfold Java.synchronizedMethod at found
  split at found
  · cases found
  · simp only [Option.bind_eq_bind, Option.bind_eq_some_iff] at found
    obtain ⟨_, _, rest, _, ⟨name, _⟩, read, made⟩ := found
    cases made
    exact methodName?_word read

namespace Batch

variable (b : Batch) (u : SourceUnit)

theorem closes_of_mem_triggersFor {b : Batch} {u : SourceUnit} {t : Text}
    (h : t ∈ b.triggersFor u) : Catalogue.Closes t := by
  obtain ⟨m, hm, rfl⟩ := List.mem_map.mp h
  obtain ⟨v, _, hm⟩ := List.mem_flatMap.mp (List.mem_filter.mp hm).1
  obtain ⟨name, mem, rfl⟩ := List.mem_map.mp hm
  have plain : '(' ∉ name := fun paren =>
    absurd (Java.word_of_mem_synchronizedMethods mem _ paren) (by decide)
  refine ⟨List.getLast?_concat .., ?_⟩
  rw [List.dropLast_concat]
  simpa using plain

theorem distinct_catalogueFor : ((b.catalogueFor u).map (·.trigger)).Nodup :=
  Catalogue.nodup_extend (by decide +kernel) _ _

/-- In a catalogue of a batch no two triggers stand at one place. -/
theorem unambiguous_catalogueFor : (b.catalogueFor u).Unambiguous := by
  have default : ∀ e ∈ Catalogue.default, Catalogue.Closes e.trigger := by decide +kernel
  refine Catalogue.unambiguous_of_closes (fun e he => ?_) (b.distinct_catalogueFor u)
  rcases Catalogue.mem_extend.mp he with he | ⟨_, mem, _⟩
  · exact default e he
  · exact closes_of_mem_triggersFor mem

variable {b} {units : List SourceUnit} (perm : units.Perm b.units)
include perm

theorem mem_triggersFor_perm {t : Text} :
    t ∈ triggersFor { b with units } u ↔ t ∈ b.triggersFor u :=
  ((perm.flatMap_right SourceUnit.methods).filter _ |>.map _).mem_iff

theorem catalogueFor_perm : (catalogueFor { b with units } u).Perm (b.catalogueFor u) := by
  refine (List.perm_ext_iff_of_nodup (distinct_catalogueFor _ u).of_map
    (b.distinct_catalogueFor u).of_map).mpr fun e => ?_
  unfold catalogueFor
  rw [Catalogue.mem_extend, Catalogue.mem_extend, mem_triggersFor_perm u perm]

end Batch

section Scans

variable {c c' : Catalogue} (alike : ∀ line, c'.scanLine line = c.scanLine line)
include alike

theorem pointsFrom_congr (above : Text) (number : Nat) (lines : List Text) :
    pointsFrom c' above number lines = pointsFrom c above number lines := by
  induction lines generalizing above number with
  | nil => rfl
  | cons line rest ih =>
    rw [pointsFrom, pointsFrom, classifyLine, classifyLine, alike, ih]

theorem instrument_congr [Amount α] (u : SourceUnit) (found : List (Point Int))
    (points : List (Point α)) (r : RandomField) :
    Survey.instrument ⟨u, c', found⟩ points r = Survey.instrument ⟨u, c, found⟩ points r := by
  have each : ∀ field number lines,
      Survey.instrumentedFrom ⟨u, c', found⟩ points field number lines =
        Survey.instrumentedFrom ⟨u, c, found⟩ points field number lines := by
    intro field number lines
    induction lines generalizing number with
    | nil => rfl
    | cons line rest ih =>
      rw [Survey.instrumentedFrom, Survey.instrumentedFrom, ih, Survey.instrumentedLine,
        Survey.instrumentedLine]
      simp only [instrumentLine, alike]
  unfold Survey.instrument Survey.instrumentedLines
  rw [each]
  rfl

end Scans

def Batch.annotatedText (b : Batch) (u : SourceUnit) : Except Fault Text := do
  let s ← Survey.ofUnit u (b.catalogueFor u)
  s.instrument s.annotated

/-- The order of a batch makes no difference: whatever the order of its units, a unit has a
catalogue with the same entries, its scan finds the same points in the same order, and it is
instrumented to the same text. -/
theorem batch_order_irrelevant (b : Batch) {units : List SourceUnit} (perm : units.Perm b.units)
    (u : SourceUnit) :
    (∀ e, e ∈ Batch.catalogueFor { b with units } u ↔ e ∈ b.catalogueFor u) ∧
    (Survey.ofUnit u (Batch.catalogueFor { b with units } u)).map (·.points) =
      (Survey.ofUnit u (b.catalogueFor u)).map (·.points) ∧
    Batch.annotatedText { b with units } u = b.annotatedText u := by
  have same := Batch.catalogueFor_perm u perm
  have alike := fun line => (b.unambiguous_catalogueFor u).scanLine_perm same line
  have named : ∀ b : Batch, Survey.catalogueOr (b.catalogueFor u) = b.catalogueFor u := by
    intro b
    have first : (⟨.mutualExclusion, ".lock(".toList⟩ : Entry) ∈ b.catalogueFor u :=
      Catalogue.mem_extend.mpr (.inl (by decide))
    unfold Survey.catalogueOr
    rw [if_neg]
    exact fun empty => by simp [List.isEmpty_iff.mp empty] at first
  have points := pointsFrom_congr alike [] 1 u.lines
  refine ⟨fun e => same.mem_iff, ?_, ?_⟩
  · unfold Survey.ofUnit
    rw [named, named, points]
    cases pointsFrom (b.catalogueFor u) [] 1 u.lines <;> rfl
  · unfold Batch.annotatedText Survey.ofUnit
    rw [named, named, points]
    cases pointsFrom (b.catalogueFor u) [] 1 u.lines with
    | error f => rfl
    | ok found => exact instrument_congr alike u found _ {}

/-- A unit that calls its own method and one of another unit on one line. -/
def callingUnit : SourceUnit :=
  .ofText (.ofText "A.java".toList) ("class A \x7b synchronized void put() \x7b\x7d\n".toList ++
    "/* @PreemptionPoint (sequence = 1) */\nq.put(q.take()); \x7d".toList)

def twoUnits : Batch where
  units := [callingUnit, .ofText (.ofText "B.java".toList)
    "class B \x7b synchronized int take() \x7b\x7d \x7d".toList]
  root := none

set_option maxRecDepth 4000 in
theorem twoUnits_reversed :
    twoUnits.units.reverse.Perm twoUnits.units ∧
    Batch.catalogueFor { twoUnits with units := twoUnits.units.reverse } callingUnit ≠
      twoUnits.catalogueFor callingUnit ∧
    (∀ e, e ∈ Batch.catalogueFor { twoUnits with units := twoUnits.units.reverse } callingUnit ↔
      e ∈ twoUnits.catalogueFor callingUnit) ∧
    (Survey.ofUnit callingUnit
        (Batch.catalogueFor { twoUnits with units := twoUnits.units.reverse } callingUnit)).map
      (·.points) = .ok [⟨3, 0, .mutualExclusion, ".put(".toList, none⟩,
        ⟨3, 1, .mutualExclusion, ".take(".toList, some ⟨100, .sleep 100 1000⟩⟩] ∧
    Batch.annotatedText { twoUnits with units := twoUnits.units.reverse } callingUnit =
      twoUnits.annotatedText callingUnit := by
  have perm := twoUnits.units.reverse_perm
  obtain ⟨entries, points, text⟩ := batch_order_irrelevant twoUnits perm callingUnit
  exact ⟨perm, by decide +kernel, entries, points.trans (by rfl), text⟩

end SchedulingNoise
