import Mathlib.Data.List.Chain
import Mathlib.Order.Bounds.Basic
import SchedulingNoise.Proofs.Finds

/-! A search for a trigger misses nothing. Its finds do not overlap, and every place where the
trigger stands lies in one of them. Only one list of offsets is like that: the one to which a
search that goes on behind each find comes in the end. -/
namespace SchedulingNoise

namespace Text

variable {w t : Text}

theorem find?_none (absent : ∀ p, ¬ w <+: t.drop p) : find? w t = none := by
  induction t with
  | nil =>
    have some : w ≠ [] := fun h => absent 0 (h ▸ List.nil_prefix)
    simp [find?, some]
  | cons c rest ih =>
    have away : ¬ w.isPrefixOf (c :: rest) := fun h => absent 0 (List.isPrefixOf_iff_prefix.mp h)
    rw [find?, if_neg away, ih fun p => absent (p + 1)]
    rfl

theorem find?_least {k : Nat} (least : IsLeast {p | w <+: t.drop p} k) : find? w t = some k := by
  induction t generalizing k with
  | nil =>
    have empty : w = [] := by simpa using least.1
    have first : k = 0 := Nat.le_zero.mp (least.2 (by simp [empty]))
    simp [find?, empty, first]
  | cons c rest ih =>
    rw [find?]
    split
    · rename_i front
      have first : k = 0 := Nat.le_zero.mp (least.2 (List.isPrefixOf_iff_prefix.mp front))
      rw [first]
    · rename_i away
      cases k with
      | zero => exact absurd (List.isPrefixOf_iff_prefix.mpr least.1) away
      | succ k =>
        have later : IsLeast {p | w <+: rest.drop p} k := by
          refine ⟨least.1, fun p stands => ?_⟩
          have behind : k + 1 ≤ p + 1 := least.2 stands
          exact Nat.le_of_succ_le_succ behind
        rw [ih later]
        rfl

end Text

def standings (w line : Text) (start : Nat) : Set Nat := {p | start ≤ p ∧ w <+: line.drop p}

/-- Offsets from `start` on at which `w` stands without an overlap, and such that it begins
nowhere else than inside of what stands there. -/
structure Covering (w line : Text) (start : Nat) (os : List Nat) : Prop where
  behind : ∀ o ∈ os, start ≤ o
  stands : ∀ o ∈ os, w <+: line.drop o
  apart : os.IsChain fun o o' => o + w.length ≤ o'
  covered : ∀ p, start ≤ p → w <+: line.drop p → ∃ o ∈ os, o ≤ p ∧ p < o + w.length

/-- Every offset is the least one, at or behind the end of what stands at the one before, where
`w` stands. -/
def Leftmost (w line : Text) : (start : Nat) → List Nat → Prop
  | _, [] => True
  | start, o :: rest =>
    IsLeast (standings w line start) o ∧ Leftmost w line (o + w.length) rest

def nextOffset? (w line : Text) (start : Nat) : Option Nat :=
  (Text.find? w (line.drop start)).map (start + ·)

/-- What is found from `start` on if each search begins at the end of the last find, until one
finds nothing. There is no answer if `rounds` searches are not enough. -/
def searchFrom? (w line : Text) : (rounds start : Nat) → Option (List Nat)
  | 0, _ => none
  | rounds + 1, start =>
    match nextOffset? w line start with
    | none => some []
    | some o => (searchFrom? w line rounds (o + w.length)).map (o :: ·)

section Search

variable {w line : Text} {start o : Nat} {os os' : List Nat}

theorem nextOffset?_none (absent : ∀ p, start ≤ p → ¬ w <+: line.drop p) :
    nextOffset? w line start = none := by
  have nothing : Text.find? w (line.drop start) = none := by
    apply Text.find?_none
    intro p
    rw [List.drop_drop]
    exact absent (start + p) (Nat.le_add_right start p)
  rw [nextOffset?, nothing]
  rfl

theorem nextOffset?_least (least : IsLeast (standings w line start) o) :
    nextOffset? w line start = some o := by
  obtain ⟨k, rfl⟩ := Nat.exists_eq_add_of_le least.1.1
  have found : Text.find? w (line.drop start) = some k := by
    apply Text.find?_least
    constructor
    · simpa [List.drop_drop] using least.1.2
    · intro p stands
      have stands' : w <+: line.drop (start + p) := by simpa [List.drop_drop] using stands
      exact Nat.le_of_add_le_add_left (least.2 ⟨Nat.le_add_right start p, stands'⟩)
  rw [nextOffset?, found]
  rfl

namespace Covering

theorem absent (h : Covering w line start []) : ∀ p, start ≤ p → ¬ w <+: line.drop p := by
  intro p bound stands
  obtain ⟨o, mem, _⟩ := h.covered p bound stands
  cases mem

theorem tail_behind (h : Covering w line start (o :: os)) : ∀ o' ∈ os, o + w.length ≤ o' := by
  have : Trans (fun o o' => o + w.length ≤ o') (fun o o' => o + w.length ≤ o')
      (fun o o' : Nat => o + w.length ≤ o') := ⟨fun {a b c} ab bc => by omega⟩
  exact (List.pairwise_cons.mp (List.isChain_iff_pairwise.mp h.apart)).1

theorem least (h : Covering w line start (o :: os)) : IsLeast (standings w line start) o := by
  refine ⟨⟨h.behind o List.mem_cons_self, h.stands o List.mem_cons_self⟩, ?_⟩
  rintro p ⟨bound, stands⟩
  obtain ⟨o', mem, le, _⟩ := h.covered p bound stands
  rcases List.mem_cons.mp mem with rfl | mem
  · exact le
  · have := h.tail_behind o' mem
    omega

theorem tail (h : Covering w line start (o :: os)) : Covering w line (o + w.length) os where
  behind := h.tail_behind
  stands o' ho' := h.stands o' (List.mem_cons_of_mem o ho')
  apart := h.apart.tail
  covered p bound stands := by
    have first := h.behind o List.mem_cons_self
    obtain ⟨o', mem, le, lt⟩ := h.covered p (by omega) stands
    rcases List.mem_cons.mp mem with rfl | mem
    · omega
    · exact ⟨o', mem, le, lt⟩

theorem leftmost (h : Covering w line start os) : Leftmost w line start os := by
  induction os generalizing start with
  | nil => trivial
  | cons o rest ih => exact ⟨h.least, ih h.tail⟩

theorem unique (h : Covering w line start os) (h' : Covering w line start os') : os = os' := by
  induction os generalizing start os' with
  | nil =>
    cases os' with
    | nil => rfl
    | cons o' rest' => exact absurd h'.least.1.2 (h.absent o' h'.least.1.1)
  | cons o rest ih =>
    cases os' with
    | nil => exact absurd h.least.1.2 (h'.absent o h.least.1.1)
    | cons o' rest' =>
      obtain rfl : o = o' := h.least.unique h'.least
      rw [ih h.tail h'.tail]

theorem searchFrom?_eq (h : Covering w line start os) {rounds : Nat} (enough : os.length < rounds) :
    searchFrom? w line rounds start = some os := by
  induction os generalizing start rounds with
  | nil =>
    obtain ⟨rounds, rfl⟩ := Nat.exists_eq_add_one_of_ne_zero (Nat.ne_of_gt enough)
    rw [searchFrom?, nextOffset?_none h.absent]
  | cons o rest ih =>
    cases rounds with
    | zero => cases enough
    | succ rounds =>
      rw [searchFrom?, nextOffset?_least h.least]
      simp only [ih h.tail (Nat.lt_of_succ_lt_succ enough), Option.map_some]

theorem length_le (positive : w ≠ []) (h : Covering w line start os) :
    os.length * w.length ≤ line.length - start := by
  induction os generalizing start with
  | nil => simp
  | cons o rest ih =>
    have first := h.behind o List.mem_cons_self
    have fits := (h.stands o List.mem_cons_self).length_le
    have long : 0 < w.length := List.length_pos_iff.mpr positive
    have others := ih h.tail
    rw [List.length_drop] at fits
    rw [List.length_cons, Nat.succ_mul]
    omega

end Covering

theorem offsetsFrom_covered (positive : w ≠ []) (pos : Nat) {k : Nat} {t : Text}
    (stands : w <+: t.drop k) :
    ∃ o ∈ offsetsFrom w pos t, o ≤ pos + k ∧ pos + k < o + w.length := by
  induction t using Text.search_induction positive generalizing pos k with
  | nil => exact absurd (by simpa using stands) positive
  | found rest ih =>
    rw [offsetsFrom_append_self positive]
    by_cases inside : k < w.length
    · exact ⟨pos, List.mem_cons_self, by omega, by omega⟩
    · obtain ⟨k, rfl⟩ := Nat.exists_eq_add_of_le (Nat.le_of_not_lt inside)
      rw [List.drop_length_add_append] at stands
      obtain ⟨o, mem, le, lt⟩ := ih (pos + w.length) stands
      exact ⟨o, List.mem_cons_of_mem pos mem, by omega, by omega⟩
  | passed c rest front ih =>
    rw [offsetsFrom_cons front]
    cases k with
    | zero => exact absurd stands front
    | succ k =>
      obtain ⟨o, mem, le, lt⟩ := ih (pos + 1) stands
      exact ⟨o, mem, by omega, by omega⟩

theorem covering_triggerOffsets (positive : w ≠ []) (line : Text) :
    Covering w line 0 (triggerOffsets w line) where
  behind _ _ := Nat.zero_le _
  stands _ := prefix_of_mem_triggerOffsets
  apart := by
    rw [triggerOffsets_eq positive]
    exact (pairwise_offsetsFrom positive 0 line).isChain
  covered p _ stands := by
    rw [triggerOffsets_eq positive]
    simpa using offsetsFrom_covered positive 0 stands

/-- The search for a trigger ends, after no more rounds than the trigger fits into the line and
one. It finds the trigger where it stands, without overlaps and always at the leftmost place, and
every place where the trigger stands is covered by a find. Nothing else covers them all. -/
theorem search_misses_nothing (positive : w ≠ []) (line : Text) :
    searchFrom? w line (line.length / w.length + 1) 0 = some (triggerOffsets w line) ∧
    Covering w line 0 (triggerOffsets w line) ∧
    Leftmost w line 0 (triggerOffsets w line) ∧
    ∀ os, Covering w line 0 os → os = triggerOffsets w line := by
  have covering := covering_triggerOffsets positive line
  have rounds : (triggerOffsets w line).length ≤ line.length / w.length :=
    (Nat.le_div_iff_mul_le (List.length_pos_iff.mpr positive)).mpr (covering.length_le positive)
  exact ⟨covering.searchFrom?_eq (Nat.lt_succ_of_le rounds), covering, covering.leftmost,
    fun _ h => h.unique covering⟩

end Search

/-- A line in which a trigger that overlaps with itself stands at the offsets 1, 3, 5 and 7. -/
def overlapLine : Text := "xababababa".toList

theorem overlapLine_covered :
    "aba".toList ≠ [] ∧
    triggerOffsets "aba".toList overlapLine = [1, 5] ∧
    searchFrom? "aba".toList overlapLine 4 0 = some [1, 5] ∧
    Covering "aba".toList overlapLine 0 [1, 5] ∧
    Leftmost "aba".toList overlapLine 0 [1, 5] ∧
    (∀ os, Covering "aba".toList overlapLine 0 os → os = [1, 5]) ∧
    ¬ Covering "aba".toList overlapLine 0 [1, 7] := by
  have positive : "aba".toList ≠ [] := by decide
  have offsets : triggerOffsets "aba".toList overlapLine = [1, 5] := by decide
  obtain ⟨searched, covering, leftmost, unique⟩ := search_misses_nothing positive overlapLine
  rw [offsets] at searched covering leftmost unique
  exact ⟨positive, offsets, searched, covering, leftmost, unique,
    fun other => absurd (unique _ other) (by decide)⟩

end SchedulingNoise
