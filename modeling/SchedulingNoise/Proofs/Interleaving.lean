import Mathlib.Algebra.Ring.Nat
import Mathlib.Data.List.Nodup
import SchedulingNoise.Instrument.Unit

/-! Splices put into a line from the highest offset down give the line interleaved with their
texts: in front of every character stand the texts for its offset, in their order. How the splices
are listed makes no difference as long as no two have the same offset and order. -/
namespace SchedulingNoise

abbrev Inserts := List (Nat × Text)

namespace Inserts

def textAt (ps : Inserts) (pos : Nat) : Text := (ps.filter (·.1 = pos)).flatMap (·.2)

/-- The characters of a line from an offset on, with the texts that go in front of each of them
and behind the last. -/
def interleave (ps : Inserts) : (pos : Nat) → Text → Text
  | pos, [] => ps.textAt pos
  | pos, c :: rest => ps.textAt pos ++ c :: interleave ps (pos + 1) rest

theorem textAt_append (ps qs : Inserts) (pos : Nat) :
    textAt (ps ++ qs) pos = textAt ps pos ++ textAt qs pos := by
  simp [textAt]

theorem textAt_single (k : Nat) (t : Text) (pos : Nat) :
    textAt [(k, t)] pos = if k = pos then t else [] := by
  by_cases h : k = pos <;> simp [textAt, h]

theorem textAt_other {ps : Inserts} {pos : Nat} (other : ∀ p ∈ ps, p.1 ≠ pos) :
    ps.textAt pos = [] := by
  have none : ps.filter (·.1 = pos) = [] := by
    rw [List.filter_eq_nil_iff]
    intro p hp
    simpa using other p hp
  simp [textAt, none]

theorem textAt_beyond {ps : Inserts} {pos : Nat} (below : ∀ p ∈ ps, p.1 < pos) :
    ps.textAt pos = [] :=
  textAt_other fun p hp => Nat.ne_of_lt (below p hp)

theorem interleave_congr {ps qs : Inserts} {pos : Nat}
    (same : ∀ k, pos ≤ k → ps.textAt k = qs.textAt k) (line : Text) :
    ps.interleave pos line = qs.interleave pos line := by
  induction line generalizing pos with
  | nil => exact same pos (Nat.le_refl pos)
  | cons c rest ih =>
    rw [interleave, interleave, same pos (Nat.le_refl pos),
      ih fun k bound => same k (Nat.le_of_succ_le bound)]

theorem interleave_beyond {ps : Inserts} {pos : Nat} (below : ∀ p ∈ ps, p.1 ≤ pos) (line : Text) :
    ps.interleave pos line = ps.textAt pos ++ line := by
  induction line generalizing pos with
  | nil => simp [interleave]
  | cons c rest ih =>
    have next : ∀ p ∈ ps, p.1 < pos + 1 := fun p hp => Nat.lt_succ_of_le (below p hp)
    rw [interleave, ih fun p hp => Nat.le_of_lt (next p hp), textAt_beyond next]
    simp

theorem interleave_nil (pos : Nat) (line : Text) : interleave [] pos line = line := by
  rw [interleave_beyond (by simp)]
  simp [textAt]

theorem interleave_eq_flatMap (ps : Inserts) (pos : Nat) (t : Text) :
    ps.interleave pos t = (List.range (t.length + 1)).flatMap fun i =>
      ps.textAt (pos + i) ++ t[i]?.toList := by
  induction t generalizing pos with
  | nil => simp [interleave]
  | cons c rest ih =>
    have next : ∀ i, pos + 1 + i = pos + (i + 1) := fun i => by omega
    rw [interleave, List.length_cons, List.range_succ_eq_map, List.flatMap_cons, List.flatMap_map,
      ih]
    simp [next]

/-- A text put in at an offset that none of the others exceeds comes behind them all. -/
theorem interleave_insert {ps : Inserts} (k : Nat) (t : Text) (pos : Nat) (line : Text)
    (below : ∀ p ∈ ps, p.1 ≤ pos + k) (inside : k ≤ line.length) :
    ps.interleave pos (line.take k ++ t ++ line.drop k) =
      (ps ++ [(pos + k, t)]).interleave pos line := by
  induction k generalizing pos line with
  | zero =>
    have all : ∀ p ∈ ps ++ [(pos + 0, t)], p.1 ≤ pos := by
      intro p hp
      rcases List.mem_append.mp hp with hp | hp
      · simpa using below p hp
      · simp [List.mem_singleton.mp hp]
    rw [interleave_beyond (by simpa using below), interleave_beyond all, textAt_append,
      textAt_single]
    simp
  | succ k ih =>
    cases line with
    | nil => simp at inside
    | cons c rest =>
      have away : pos + (k + 1) ≠ pos := by omega
      have next : pos + 1 + k = pos + (k + 1) := by omega
      have rest_eq := ih (pos + 1) rest (by simpa [next] using below) (by simpa using inside)
      rw [next] at rest_eq
      simp only [List.take_succ_cons, List.drop_succ_cons, List.cons_append, interleave,
        textAt_append, textAt_single, if_neg away, List.append_nil, rest_eq]

theorem interleave_append {ps qs : Inserts} {pos : Nat} {x : Text}
    (low : ∀ p ∈ ps, p.1 ≤ pos + x.length) (high : ∀ q ∈ qs, pos + x.length < q.1) (c : Char)
    (y : Text) : (ps ++ qs).interleave pos (x ++ c :: y) =
      ps.interleave pos x ++ c :: qs.interleave (pos + x.length + 1) y := by
  induction x generalizing pos with
  | nil =>
    have here : qs.textAt pos = [] := textAt_other fun q hq => Nat.ne_of_gt (high q hq)
    have later : (ps ++ qs).interleave (pos + 1) y = qs.interleave (pos + 1) y := by
      apply interleave_congr
      intro k bound
      rw [textAt_append, textAt_beyond fun p hp => Nat.lt_of_le_of_lt (low p hp) bound,
        List.nil_append]
    have first : (ps ++ qs).textAt pos = ps.textAt pos := by
      rw [textAt_append, here, List.append_nil]
    rw [List.nil_append, interleave.eq_2, first, later]
    rfl
  | cons d x ih =>
    have next : pos + 1 + x.length = pos + (d :: x).length := by
      rw [List.length_cons]
      omega
    have here : qs.textAt pos = [] := textAt_other fun q hq => by
      have := high q hq
      omega
    rw [List.cons_append, interleave, interleave, textAt_append, here, List.append_nil,
      ih (by rwa [next]) (by rwa [next]), next, List.append_assoc, List.cons_append]

theorem interleave_shift (ps : Inserts) (k pos : Nat) (line : Text) :
    interleave (ps.map fun p => (k + p.1, p.2)) (k + pos) line = ps.interleave pos line := by
  have text : ∀ pos, textAt (ps.map fun p => (k + p.1, p.2)) (k + pos) = ps.textAt pos := by
    intro pos
    simp [textAt, List.filter_map, List.flatMap_map, Function.comp_def]
  induction line generalizing pos with
  | nil => exact text pos
  | cons c rest ih => rw [interleave, interleave, text, ← ih, Nat.add_assoc]

end Inserts

namespace Splice

def toInsert (s : Splice) : Nat × Text := (s.offset.toNat, s.text)

theorem insert_eq {line : Text} {s : Splice} (inside : 0 ≤ s.offset ∧ s.offset ≤ line.length) :
    insert line s = line.take s.toInsert.1 ++ s.text ++ line.drop s.toInsert.1 := by
  have index : cutIndex line.length s.offset = s.offset.toNat := by
    unfold cutIndex
    rw [if_pos inside.1]
    omega
  simp only [insert, index, toInsert]

theorem length_insert (line : Text) (s : Splice) :
    (insert line s).length = line.length + s.text.length := by
  simp only [insert, List.length_append, List.length_take, List.length_drop]
  omega

theorem length_foldl_insert (line : Text) (ss : List Splice) :
    (ss.foldl insert line).length = line.length + (ss.map (·.text.length)).sum := by
  induction ss generalizing line with
  | nil => rfl
  | cons s rest ih =>
    rw [List.foldl_cons, ih, length_insert, List.map_cons, List.sum_cons, Nat.add_assoc]

theorem length_applyAll (line : Text) (ss : List Splice) :
    (applyAll line ss).length = line.length + (ss.map (·.text.length)).sum := by
  rw [applyAll, length_foldl_insert, ((sortBy_perm before ss).map _).sum_nat]

theorem foldl_insert {line : Text} {ss : List Splice}
    (inside : ∀ s ∈ ss, 0 ≤ s.offset ∧ s.offset ≤ line.length)
    (falling : ss.Pairwise fun a b => b.offset ≤ a.offset) :
    ss.foldl insert line = Inserts.interleave (ss.reverse.map toInsert) 0 line := by
  induction ss generalizing line with
  | nil => simp [Inserts.interleave_nil]
  | cons s rest ih =>
    obtain ⟨highest, falling'⟩ := List.pairwise_cons.mp falling
    have here := inside s List.mem_cons_self
    have inside' : ∀ s' ∈ rest, 0 ≤ s'.offset ∧ s'.offset ≤ (insert line s).length := by
      intro s' hs'
      have bound := inside s' (List.mem_cons_of_mem s hs')
      have longer := length_insert line s
      omega
    have below : ∀ p ∈ rest.reverse.map toInsert, p.1 ≤ 0 + s.toInsert.1 := by
      intro p hp
      obtain ⟨s', hs', rfl⟩ := List.mem_map.mp hp
      have := highest s' (List.mem_reverse.mp hs')
      simp only [toInsert]
      omega
    have fits : s.toInsert.1 ≤ line.length := by
      simp only [toInsert]
      omega
    rw [List.foldl_cons, ih inside' falling', insert_eq here,
      Inserts.interleave_insert _ _ 0 line below fits, List.reverse_cons, List.map_append]
    simp [toInsert]

theorem before_iff {a b : Splice} :
    before a b = true ↔ b.offset < a.offset ∨ b.offset = a.offset ∧ b.order ≤ a.order := by
  simp [before]

theorem before_trans (a b c : Splice) (h : before a b) (h' : before b c) : before a c := by
  rw [before_iff] at *
  omega

theorem before_total (a b : Splice) : before a b || before b a := by
  simp only [Bool.or_eq_true, before_iff]
  omega

theorem textAt_map (ss : List Splice) (pos : Nat) :
    Inserts.textAt (ss.map toInsert) pos =
      (ss.filter (·.offset.toNat = pos)).flatMap (·.text) := by
  simp only [Inserts.textAt, List.filter_map, List.flatMap_map, toInsert]
  rfl

def key (s : Splice) : Int × Int := (s.offset, s.order)

section Keys

variable {line : Text} {ss : List Splice}
  (inside : ∀ s ∈ ss, 0 ≤ s.offset ∧ s.offset ≤ line.length)
include inside

theorem filter_sortBy (distinct : (ss.map key).Nodup) {pos : Nat} {here : List Splice}
    (perm : here.Perm (ss.filter (·.offset.toNat = pos)))
    (rising : here.Pairwise fun a b => a.order ≤ b.order) :
    (sortBy before ss).reverse.filter (·.offset.toNat = pos) = here := by
  have all := (sortBy before ss).reverse_perm.trans (sortBy_perm before ss)
  -- In the sorted list the orders fall where the offset stays.
  have left : ((sortBy before ss).reverse.filter (·.offset.toNat = pos)).Pairwise
      fun a b => a.order ≤ b.order := by
    have sorted := pairwise_sortBy before_trans before_total ss
    refine List.pairwise_filter.mpr (List.pairwise_reverse.mpr (sorted.imp_of_mem ?_))
    intro a b ha hb first hb' ha'
    have offsetA := inside a ((sortBy_perm before ss).mem_iff.mp ha)
    have offsetB := inside b ((sortBy_perm before ss).mem_iff.mp hb)
    simp only [before_iff, decide_eq_true_eq] at first hb' ha'
    omega
  refine List.Perm.eq_of_pairwise ?_ left rising ((all.filter _).trans perm.symm)
  intro a b ha hb le ge
  obtain ⟨memA, atA⟩ := List.mem_filter.mp ((all.filter _).mem_iff.mp ha)
  obtain ⟨memB, atB⟩ := List.mem_filter.mp (perm.mem_iff.mp hb)
  have offset : a.offset = b.offset := by
    have offsetA := inside a memA
    have offsetB := inside b memB
    simp only [decide_eq_true_eq] at atA atB
    omega
  exact List.inj_on_of_nodup_map distinct memA memB
    (Prod.ext offset (Int.le_antisymm le ge))

theorem applyAll_eq_interleave :
    applyAll line ss = Inserts.interleave ((sortBy before ss).reverse.map toInsert) 0 line := by
  have sorted := pairwise_sortBy before_trans before_total ss
  have falling : (sortBy before ss).Pairwise fun a b => b.offset ≤ a.offset := by
    refine sorted.imp fun h => ?_
    rw [before_iff] at h
    omega
  exact foldl_insert (fun s hs => inside s ((sortBy_perm before ss).mem_iff.mp hs)) falling

theorem applyAll_eq (rising : ss.Pairwise fun a b => a.order < b.order) :
    applyAll line ss = Inserts.interleave (ss.map toInsert) 0 line := by
  have distinct : (ss.map key).Nodup := by
    refine List.pairwise_map.mpr (rising.imp fun less same => ?_)
    exact Int.ne_of_lt less (congrArg Prod.snd same)
  have ordered := rising.imp fun less => Int.le_of_lt less
  rw [applyAll_eq_interleave inside]
  apply Inserts.interleave_congr
  intro pos _
  rw [textAt_map, textAt_map, filter_sortBy inside distinct (.refl _) (ordered.filter _)]

end Keys

def atOffset (ss : List Splice) (i : Nat) : List Splice :=
  (ss.filter (·.offset = (i : Int))).mergeSort (·.order ≤ ·.order)

/-- At every offset of a line the texts that go there, by their orders, and then the character
of the line. -/
def woven (t : Text) (ss : List Splice) : Text :=
  (List.range (t.length + 1)).flatMap fun i =>
    (atOffset ss i).flatMap (·.text) ++ t[i]?.toList

theorem pairwise_atOffset (ss : List Splice) (i : Nat) :
    (atOffset ss i).Pairwise fun a b => a.order ≤ b.order := by
  have sorted : (atOffset ss i).Pairwise fun a b => decide (a.order ≤ b.order) = true :=
    List.pairwise_mergeSort (fun a b c => by simpa using Int.le_trans)
      (fun a b => by simpa using Int.le_total _ _) _
  exact sorted.imp fun h => of_decide_eq_true h

theorem applyAll_of_perm {line : Text} {ss ss' : List Splice}
    (inside : ∀ s ∈ ss, 0 ≤ s.offset ∧ s.offset ≤ line.length) (distinct : (ss.map key).Nodup)
    (perm : ss'.Perm ss) : applyAll line ss' = woven line ss := by
  have inside' : ∀ s ∈ ss', 0 ≤ s.offset ∧ s.offset ≤ line.length :=
    fun s hs => inside s (perm.mem_iff.mp hs)
  have distinct' : (ss'.map key).Nodup := (perm.map key).nodup_iff.mpr distinct
  have text : ∀ i, Inserts.textAt ((sortBy before ss').reverse.map toInsert) i =
      (atOffset ss i).flatMap (·.text) := by
    intro i
    have same : ss.filter (·.offset = (i : Int)) = ss.filter (·.offset.toNat = i) := by
      apply List.filter_congr
      intro s hs
      have := inside s hs
      exact decide_eq_decide.mpr (by omega)
    have here : (atOffset ss i).Perm (ss'.filter (·.offset.toNat = i)) := by
      rw [atOffset, same]
      exact (List.mergeSort_perm _ _).trans (perm.symm.filter _)
    rw [textAt_map, filter_sortBy inside' distinct' here (pairwise_atOffset ss i)]
  rw [applyAll_eq_interleave inside', Inserts.interleave_eq_flatMap, woven]
  simp only [Nat.zero_add, text]

/-- Splices with offsets in the line, of which no two have the same offset and order, weave their
texts into it. They may be listed in any order, and the line grows by all their texts. -/
theorem applyAll_eq_woven {line : Text} {ss : List Splice}
    (inside : ∀ s ∈ ss, 0 ≤ s.offset ∧ s.offset ≤ line.length)
    (distinct : (ss.map key).Nodup) :
    applyAll line ss = woven line ss ∧
    (∀ ss', ss'.Perm ss → applyAll line ss' = applyAll line ss) ∧
    (applyAll line ss).length = line.length + (ss.map (·.text.length)).sum := by
  have whole : applyAll line ss = woven line ss := applyAll_of_perm inside distinct (.refl ss)
  refine ⟨whole, fun ss' perm => ?_, length_applyAll line ss⟩
  rw [whole, applyAll_of_perm inside distinct perm]

/-- Splices at both ends of a line of three characters and inside it, one without text and two at
one offset, the later of these first. -/
def crowdedSplices : List Splice :=
  [⟨1, "later".toList, 4⟩, ⟨3, ";".toList, 0⟩, ⟨1, "sooner".toList, -2⟩, ⟨0, [], 0⟩,
    ⟨0, "int ".toList, 7⟩]

theorem crowdedSplices_woven :
    (∀ s ∈ crowdedSplices, 0 ≤ s.offset ∧ s.offset ≤ "abc".toList.length) ∧
    (crowdedSplices.map key).Nodup ∧
    applyAll "abc".toList crowdedSplices = "int asoonerlaterbc;".toList ∧
    woven "abc".toList crowdedSplices = "int asoonerlaterbc;".toList ∧
    applyAll "abc".toList crowdedSplices.reverse = "int asoonerlaterbc;".toList ∧
    "int asoonerlaterbc;".toList.length = 3 + (crowdedSplices.map (·.text.length)).sum := by
  have inside : ∀ s ∈ crowdedSplices, 0 ≤ s.offset ∧ s.offset ≤ "abc".toList.length := by decide
  have distinct : (crowdedSplices.map key).Nodup := by decide
  have result : applyAll "abc".toList crowdedSplices = "int asoonerlaterbc;".toList := by decide
  obtain ⟨whole, listed, long⟩ := applyAll_eq_woven inside distinct
  refine ⟨inside, distinct, result, whole ▸ result, ?_, ?_⟩
  · rw [listed _ (List.reverse_perm _), result]
  · rw [← result, long]
    rfl

end Splice

end SchedulingNoise
