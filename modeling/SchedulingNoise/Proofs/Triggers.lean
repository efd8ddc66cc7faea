import SchedulingNoise.Proofs.Batches

namespace SchedulingNoise

namespace Catalogue

variable {c : Catalogue} {line : Text}

theorem prefix_extend (c : Catalogue) (kind : ConstructKind) (ts : List Text) :
    c <+: c.extend kind ts := by
  induction ts generalizing c with
  | nil => exact List.prefix_rfl
  | cons t rest ih =>
    rw [extend]
    split
    · exact ih c
    · exact (List.prefix_append c _).trans (ih _)

section Distinct

variable (distinct : (c.map (·.trigger)).Nodup)
include distinct

theorem kindOf?_eq_some {e : Entry} (he : e ∈ c) : c.kindOf? e.trigger = some e.kind := by
  have there : (c.find? (·.trigger = e.trigger)).isSome := List.find?_isSome.mpr ⟨e, he, by simp⟩
  obtain ⟨d, found⟩ := Option.isSome_iff_exists.mp there
  have same : d.trigger = e.trigger := by simpa using List.find?_some found
  have own : d = e := List.inj_on_of_nodup_map distinct (List.mem_of_find?_eq_some found) he same
  rw [kindOf?, found, own]
  rfl

theorem Unambiguous.pairwise_finds (h : c.Unambiguous) (line : Text) :
    (c.finds line).Pairwise fun p q => p.1 ≠ q.1 := by
  apply List.pairwise_flatMap.mpr
  constructor
  · intro e _
    apply List.pairwise_map.mpr
    exact (pairwise_triggerOffsets e.trigger line).imp fun less => Nat.ne_of_lt less
  · apply List.Pairwise.imp_of_mem _ (List.nodup_iff_pairwise_ne.mp distinct.of_map)
    intro e e' he he' other p hp q hq same
    obtain ⟨o, ho, rfl⟩ := List.mem_map.mp hp
    obtain ⟨o', ho', rfl⟩ := List.mem_map.mp hq
    have found : (o, e) ∈ c.finds line := mem_finds.mpr ⟨he, ho⟩
    have found' : (o', e') ∈ c.finds line := mem_finds.mpr ⟨he', ho'⟩
    exact other (congrArg Prod.snd (h.eq_of_offset found found' same))

theorem Unambiguous.pairwise_offset (h : c.Unambiguous) (line : Text) :
    (c.scanLine line).Pairwise fun o o' => o.offset < o'.offset := by
  have apart : (sortBy (fun p q => p.1 ≤ q.1) (c.finds line)).Pairwise fun p q => p.1 ≠ q.1 :=
    ((sortBy_perm _ _).pairwise_iff fun other same => other same.symm).mpr
      (h.pairwise_finds distinct line)
  have rising : (sortBy (fun p q => p.1 ≤ q.1) (c.finds line)).Pairwise fun p q => p.1 < q.1 :=
    ((c.pairwise_sorted_finds line).and apart).imp fun both => Nat.lt_of_le_of_ne both.1 both.2
  unfold scanLine
  apply List.pairwise_map.mpr
  rw [← List.zipIdx_map_fst 0 (sortBy _ _)] at rising
  exact (List.pairwise_map.mp rising).imp id

end Distinct

theorem exists_entry {o : Occurrence} (h : o ∈ c.scanLine line) :
    ∃ e ∈ c, e.kind = o.kind ∧ e.trigger = o.trigger := by
  obtain ⟨⟨find, n⟩, mem, rfl⟩ := List.mem_map.mp h
  have sorted : find ∈ sortBy _ (c.finds line) := List.fst_mem_of_mem_zipIdx mem
  exact ⟨find.2, (mem_finds.mp ((sortBy_perm _ _).mem_iff.mp sorted)).1, rfl, rfl⟩

end Catalogue

/-- The catalogue of a unit begins with the default one and has every trigger once. A scan with it
goes strictly from left to right, gives every find the kind of its trigger, and does not depend on
the order of the catalogue. -/
theorem catalogue_unambiguous (b : Batch) (u : SourceUnit) :
    Catalogue.default <+: b.catalogueFor u ∧
    ((b.catalogueFor u).map (·.trigger)).Nodup ∧
    ∀ line,
      ((b.catalogueFor u).scanLine line).Pairwise (fun o o' => o.offset < o'.offset) ∧
      (∀ o ∈ (b.catalogueFor u).scanLine line,
        (b.catalogueFor u).kindOf? o.trigger = some o.kind) ∧
      ∀ c' : Catalogue, c'.Perm (b.catalogueFor u) →
        c'.scanLine line = (b.catalogueFor u).scanLine line := by
  have distinct := b.distinct_catalogueFor u
  have unambiguous := b.unambiguous_catalogueFor u
  refine ⟨Catalogue.prefix_extend _ _ _, distinct, fun line => ⟨?_, ?_, ?_⟩⟩
  · exact unambiguous.pairwise_offset distinct line
  · intro o ho
    obtain ⟨e, he, kind, trigger⟩ := Catalogue.exists_entry ho
    rw [← kind, ← trigger]
    exact Catalogue.kindOf?_eq_some distinct he
  · intro c' perm
    exact unambiguous.scanLine_perm perm line

/-- A unit with methods that are named like a trigger of the default catalogue, like the end of
one, and in letters beyond ASCII. -/
def clashingUnit : SourceUnit :=
  .ofText (.ofText "A.java".toList) ("class A \x7b synchronized void lock() \x7b\x7d\n".toList ++
    "synchronized void ock() \x7b\x7d synchronized int größe() \x7b\x7d \x7d".toList)

def clashingBatch : Batch where
  units := [clashingUnit]
  root := none

def clashingLine : Text := "a.größe(b.lock(c.ock(d.await())));".toList

def clashingCatalogue : Catalogue :=
  Catalogue.default ++ Catalogue.ofTexts .mutualExclusion [".ock(", ".größe("]

theorem clashingBatch_unambiguous :
    clashingBatch.catalogueFor clashingUnit = clashingCatalogue ∧
    clashingCatalogue.reverse.Perm clashingCatalogue ∧
    (clashingCatalogue.scanLine clashingLine).Pairwise (fun o o' => o.offset < o'.offset) ∧
    (⟨.latch, ".await(".toList, 22, 3⟩ : Occurrence) ∈ clashingCatalogue.scanLine clashingLine ∧
    clashingCatalogue.kindOf? ".await(".toList = some .latch ∧
    Catalogue.scanLine clashingCatalogue.reverse clashingLine =
      clashingCatalogue.scanLine clashingLine := by
  have catalogue : clashingBatch.catalogueFor clashingUnit = clashingCatalogue := by decide +kernel
  have found : (⟨.latch, ".await(".toList, 22, 3⟩ : Occurrence) ∈
      clashingCatalogue.scanLine clashingLine := by decide +kernel
  obtain ⟨_, _, scans⟩ := catalogue_unambiguous clashingBatch clashingUnit
  rw [catalogue] at scans
  obtain ⟨rising, kinds, orders⟩ := scans clashingLine
  exact ⟨catalogue, List.reverse_perm _, rising, found, kinds _ found,
    orders _ (List.reverse_perm _)⟩

end SchedulingNoise
