import SchedulingNoise.Proofs.Reading
import SchedulingNoise.Catalogue

namespace SchedulingNoise

theorem insertBy_map {le : α → α → Bool} {le' : β → β → Bool} (f : α → β) (a : α) {l : List α}
    (same : ∀ b ∈ l, le' (f a) (f b) = le a b) :
    insertBy le' (f a) (l.map f) = (insertBy le a l).map f := by
  induction l with
  | nil => rfl
  | cons b rest ih =>
    rw [List.map_cons, insertBy, insertBy, same b List.mem_cons_self]
    split
    · rfl
    · rw [ih fun c hc => same c (List.mem_cons_of_mem b hc)]
      rfl

theorem sortBy_map {le : α → α → Bool} {le' : β → β → Bool} (f : α → β) {l : List α}
    (same : ∀ a ∈ l, ∀ b ∈ l, le' (f a) (f b) = le a b) :
    sortBy le' (l.map f) = (sortBy le l).map f := by
  induction l with
  | nil => rfl
  | cons a rest ih =>
    have sorted := ih fun b hb c hc =>
      same b (List.mem_cons_of_mem a hb) c (List.mem_cons_of_mem a hc)
    rw [List.map_cons, sortBy, sortBy, sorted]
    apply insertBy_map
    intro b hb
    have mem := (sortBy_perm le rest).mem_iff.mp hb
    exact same a List.mem_cons_self b (List.mem_cons_of_mem a mem)

section Offsets

variable {w x y : Text}

def offsetsFrom (w : Text) (pos : Nat) (t : Text) : List Nat :=
  ((Matcher.literal w).allFrom none pos 0 t).map (·.start)

theorem offsetsFrom_append_self (positive : w ≠ []) (pos : Nat) (rest : Text) :
    offsetsFrom w pos (w ++ rest) = pos :: offsetsFrom w (pos + w.length) rest := by
  have here : (if w.isPrefixOf (w ++ rest) then some (w.length, ()) else none) =
      some (w.length, ()) := by simp
  unfold offsetsFrom Matcher.literal
  rw [Matcher.allFrom_match here positive]
  rfl

theorem offsetsFrom_cons {c : Char} {rest : Text} (away : ¬ w <+: c :: rest) (pos : Nat) :
    offsetsFrom w pos (c :: rest) = offsetsFrom w (pos + 1) rest := by
  have nothing : (if w.isPrefixOf (c :: rest) then some (w.length, ()) else none) = none :=
    if_neg fun h => away (List.isPrefixOf_iff_prefix.mp h)
  unfold offsetsFrom Matcher.literal
  rw [Matcher.allFrom_none nothing]

theorem offsetsFrom_append (positive : w ≠ []) (apart : Text.Apart w x y) (pos : Nat) :
    offsetsFrom w pos (x ++ y) = offsetsFrom w pos x ++ offsetsFrom w (pos + x.length) y := by
  induction x using Text.search_induction positive generalizing pos with
  | nil => rfl
  | found rest ih =>
    have long : pos + w.length + rest.length = pos + (w ++ rest).length := by
      rw [List.length_append, Nat.add_assoc]
    rw [List.append_assoc, offsetsFrom_append_self positive, offsetsFrom_append_self positive,
      ih (apart.of_suffix (List.suffix_append w rest)), List.cons_append, long]
  | passed c rest front ih =>
    have away : ¬ w <+: c :: (rest ++ y) := fun h =>
      front (apart.prefix_left (List.cons_ne_nil c rest) h)
    have long : pos + 1 + rest.length = pos + (c :: rest).length := by
      rw [List.length_cons]
      omega
    rw [List.cons_append, offsetsFrom_cons away, offsetsFrom_cons front, ih apart.tail, long]

theorem offsetsFrom_absent {t : Text} (absent : ¬ w <:+: t) (pos : Nat) :
    offsetsFrom w pos t = [] := by
  induction t generalizing pos with
  | nil => rfl
  | cons c rest ih =>
    rw [offsetsFrom_cons (fun h => absent h.isInfix)]
    exact ih (fun h => absent (h.trans (List.suffix_cons c rest).isInfix)) (pos + 1)

theorem offsetsFrom_shift (positive : w ≠ []) (pos k : Nat) (t : Text) :
    offsetsFrom w (pos + k) t = (offsetsFrom w pos t).map (· + k) := by
  induction t using Text.search_induction positive generalizing pos with
  | nil => rfl
  | found rest ih =>
    have moved : pos + k + w.length = pos + w.length + k := by omega
    rw [offsetsFrom_append_self positive, offsetsFrom_append_self positive, moved, ih,
      List.map_cons]
  | passed c rest front ih =>
    have moved : pos + k + 1 = pos + 1 + k := by omega
    rw [offsetsFrom_cons front, offsetsFrom_cons front, moved, ih]

theorem exists_of_mem_offsetsFrom (positive : w ≠ []) {pos o : Nat} {t : Text}
    (h : o ∈ offsetsFrom w pos t) : ∃ k, o = pos + k ∧ w <+: t.drop k := by
  induction t using Text.search_induction positive generalizing pos with
  | nil => cases h
  | found rest ih =>
    rw [offsetsFrom_append_self positive] at h
    rcases List.mem_cons.mp h with rfl | h
    · exact ⟨0, rfl, List.prefix_append w rest⟩
    · obtain ⟨k, rfl, stands⟩ := ih h
      refine ⟨w.length + k, Nat.add_assoc .., ?_⟩
      rwa [List.drop_length_add_append]
  | passed c rest front ih =>
    rw [offsetsFrom_cons front] at h
    obtain ⟨k, rfl, stands⟩ := ih h
    exact ⟨k + 1, by omega, stands⟩

theorem lt_of_mem_offsetsFrom (positive : w ≠ []) {pos o : Nat} {t : Text}
    (h : o ∈ offsetsFrom w pos t) : o < pos + t.length := by
  obtain ⟨k, rfl, stands⟩ := exists_of_mem_offsetsFrom positive h
  have long := stands.length_le
  have : 0 < w.length := List.length_pos_iff.mpr positive
  rw [List.length_drop] at long
  omega

theorem pairwise_offsetsFrom (positive : w ≠ []) (pos : Nat) (t : Text) :
    (offsetsFrom w pos t).Pairwise fun o o' => o + w.length ≤ o' := by
  induction t using Text.search_induction positive generalizing pos with
  | nil => exact .nil
  | found rest ih =>
    rw [offsetsFrom_append_self positive]
    apply List.pairwise_cons.mpr ⟨_, ih (pos + w.length)⟩
    intro o ho
    obtain ⟨k, rfl, _⟩ := exists_of_mem_offsetsFrom positive ho
    omega
  | passed c rest front ih =>
    rw [offsetsFrom_cons front]
    exact ih (pos + 1)

theorem triggerOffsets_eq (positive : w ≠ []) (line : Text) :
    triggerOffsets w line = offsetsFrom w 0 line :=
  if_neg (by simpa using positive)

theorem triggerOffsets_append (apart : Text.Apart w x y) :
    triggerOffsets w (x ++ y) = triggerOffsets w x ++ (triggerOffsets w y).map (· + x.length) := by
  by_cases positive : w = []
  · subst positive
    rfl
  · rw [triggerOffsets_eq positive, triggerOffsets_eq positive, triggerOffsets_eq positive,
      offsetsFrom_append positive apart, offsetsFrom_shift positive]

theorem triggerOffsets_absent {t : Text} (absent : ¬ w <:+: t) : triggerOffsets w t = [] := by
  by_cases positive : w = []
  · subst positive
    rfl
  · rw [triggerOffsets_eq positive, offsetsFrom_absent absent]

theorem triggerOffsets_space (solid : ¬ [' '] <:+ w) :
    triggerOffsets w (x ++ [' ']) = triggerOffsets w x := by
  have apart : Text.Apart w x [' '] := by
    rintro u v rfl _ hv _ begins
    obtain ⟨d, v, rfl⟩ := List.exists_cons_of_ne_nil hv
    obtain ⟨rfl, more⟩ := List.cons_prefix_cons.mp begins
    rw [List.prefix_nil.mp more] at solid
    exact solid (List.suffix_append u [' '])
  have nothing : triggerOffsets w [' '] = [] := by
    by_cases positive : w = []
    · subst positive
      rfl
    · refine triggerOffsets_absent fun inside => ?_
      rcases List.infix_cons_iff.mp inside with begins | inside
      · obtain ⟨d, v, rfl⟩ := List.exists_cons_of_ne_nil positive
        obtain ⟨rfl, more⟩ := List.cons_prefix_cons.mp begins
        exact solid (List.prefix_nil.mp more ▸ List.suffix_rfl)
      · exact positive (List.infix_nil.mp inside)
  rw [triggerOffsets_append apart, nothing]
  simp

theorem lt_of_mem_triggerOffsets {o : Nat} {t : Text} (h : o ∈ triggerOffsets w t) :
    o < t.length := by
  by_cases positive : w = []
  · subst positive
    cases h
  · rw [triggerOffsets_eq positive] at h
    simpa using lt_of_mem_offsetsFrom positive h

theorem pairwise_triggerOffsets (w line : Text) : (triggerOffsets w line).Pairwise (· < ·) := by
  by_cases positive : w = []
  · subst positive
    exact .nil
  · have : 0 < w.length := List.length_pos_iff.mpr positive
    rw [triggerOffsets_eq positive]
    apply (pairwise_offsetsFrom positive 0 line).imp
    omega

theorem prefix_of_mem_triggerOffsets {o : Nat} {line : Text} (h : o ∈ triggerOffsets w line) :
    w <+: line.drop o := by
  by_cases positive : w = []
  · subst positive
    cases h
  · rw [triggerOffsets_eq positive] at h
    obtain ⟨k, rfl, stands⟩ := exists_of_mem_offsetsFrom positive h
    rwa [Nat.zero_add]

end Offsets

/-- A text with a slash at each end, as a comment has. -/
def Slashed (m : Text) : Prop := ∃ inner, m = '/' :: (inner ++ ['/'])

theorem Slashed.apart {w m : Text} (slashed : Slashed m) (plain : '/' ∉ w) (x y : Text) :
    Text.Apart w x m ∧ Text.Apart w (x ++ m) y := by
  obtain ⟨inner, rfl⟩ := slashed
  have behind := Text.Apart.of_not_mem_right plain (x ++ '/' :: inner) y
  refine ⟨Text.Apart.of_not_mem_left plain x _, ?_⟩
  simpa using behind

theorem triggerOffsets_around {w m : Text} (plain : '/' ∉ w) (slashed : Slashed m)
    (absent : ¬ w <:+: m) (x y : Text) :
    triggerOffsets w (x ++ m ++ y) =
      triggerOffsets w x ++ (triggerOffsets w y).map (· + (x ++ m).length) := by
  obtain ⟨before, behind⟩ := slashed.apart plain x y
  rw [triggerOffsets_append behind, triggerOffsets_append before,
    triggerOffsets_absent absent]
  simp

namespace Catalogue

/-- The finds of a line without their offsets. -/
def sites (c : Catalogue) (line : Text) : List Occurrence :=
  (c.scanLine line).map fun o => { o with offset := 0 }

variable {c : Catalogue}

/-- Finds that only move, and do not change places, are the same finds. -/
theorem sites_eq_of_finds {line line' : Text} (move : Nat → Nat)
    (moved : c.finds line' = (c.finds line).map fun p => (move p.1, p.2))
    (keeps : ∀ p ∈ c.finds line, ∀ q ∈ c.finds line, (move p.1 ≤ move q.1 ↔ p.1 ≤ q.1)) :
    c.sites line' = c.sites line := by
  unfold sites scanLine
  have sorted : sortBy (fun a b => a.1 ≤ b.1) (c.finds line') =
      (sortBy (fun a b => a.1 ≤ b.1) (c.finds line)).map fun p => (move p.1, p.2) := by
    rw [moved]
    exact sortBy_map _ fun p hp q hq => decide_eq_decide.mpr (keeps p hp q hq)
  rw [sorted, List.zipIdx_map]
  simp

theorem mem_finds {line : Text} {p : Nat × Entry} :
    p ∈ c.finds line ↔ p.2 ∈ c ∧ p.1 ∈ triggerOffsets p.2.trigger line := by
  unfold finds
  constructor
  · intro h
    obtain ⟨e, he, h⟩ := List.mem_flatMap.mp h
    obtain ⟨o, ho, rfl⟩ := List.mem_map.mp h
    exact ⟨he, ho⟩
  · rintro ⟨he, ho⟩
    exact List.mem_flatMap.mpr ⟨p.2, he, List.mem_map.mpr ⟨p.1, ho, rfl⟩⟩

theorem pairwise_sorted_finds (c : Catalogue) (line : Text) :
    (sortBy (fun p q => p.1 ≤ q.1) (c.finds line)).Pairwise fun p q => p.1 ≤ q.1 := by
  have sorted : (sortBy (fun p q => p.1 ≤ q.1) (c.finds line)).Pairwise
      fun p q => decide (p.1 ≤ q.1) = true := by
    apply pairwise_sortBy
    · intro p q r pq qr
      simp only [decide_eq_true_eq] at *
      omega
    · intro p q
      simp only [Bool.or_eq_true, decide_eq_true_eq]
      omega
  exact sorted.imp of_decide_eq_true

theorem sites_silent {line : Text} (absent : ∀ e ∈ c, ¬ e.trigger <:+: line) :
    c.sites line = [] := by
  have none : c.finds line = [] := by
    refine List.flatMap_eq_nil_iff.mpr fun e he => ?_
    rw [triggerOffsets_absent (absent e he)]
    rfl
  unfold sites scanLine
  rw [none]
  rfl

theorem sites_over {m m' : Text} (plain : ∀ e ∈ c, '/' ∉ e.trigger)
    (old : Slashed m) (new : Slashed m') (absent : ∀ e ∈ c, ¬ e.trigger <:+: m)
    (absent' : ∀ e ∈ c, ¬ e.trigger <:+: m') (x y : Text) :
    c.sites (x ++ m' ++ y) = c.sites (x ++ m ++ y) := by
  let move : Nat → Nat := fun o => if o < x.length then o else o - m.length + m'.length
  have outside : ∀ p ∈ c.finds (x ++ m ++ y), p.1 < x.length ∨ x.length + m.length ≤ p.1 := by
    intro p hp
    obtain ⟨he, ho⟩ := mem_finds.mp hp
    rw [triggerOffsets_around (plain _ he) old (absent _ he)] at ho
    rcases List.mem_append.mp ho with ho | ho
    · exact .inl (lt_of_mem_triggerOffsets ho)
    · obtain ⟨k, _, eq⟩ := List.mem_map.mp ho
      simp only [List.length_append] at eq
      exact .inr (by omega)
  have moved : c.finds (x ++ m' ++ y) = (c.finds (x ++ m ++ y)).map fun p => (move p.1, p.2) := by
    unfold finds
    rw [List.map_flatMap]
    refine congrArg List.flatten (List.map_congr_left fun e he => ?_)
    rw [triggerOffsets_around (plain e he) new (absent' e he),
      triggerOffsets_around (plain e he) old (absent e he)]
    simp only [List.map_append, List.map_map]
    congr 1
    · refine List.map_congr_left fun o ho => ?_
      have := lt_of_mem_triggerOffsets ho
      simp [move, this]
    · refine List.map_congr_left fun o ho => ?_
      simp only [Function.comp, move, List.length_append, Prod.mk.injEq, and_true]
      rw [if_neg (by omega)]
      omega
  refine sites_eq_of_finds move moved fun p hp q hq => ?_
  have := outside p hp
  have := outside q hq
  simp only [move]
  split <;> split <;> omega

theorem sites_behind {m : Text} (plain : ∀ e ∈ c, '/' ∉ e.trigger)
    (solid : ∀ e ∈ c, ¬ [' '] <:+ e.trigger) (new : Slashed m)
    (absent : ∀ e ∈ c, ¬ e.trigger <:+: m) (line : Text) :
    c.sites (line ++ ' ' :: m) = c.sites line := by
  have same : c.finds (line ++ ' ' :: m) = c.finds line := by
    refine congrArg List.flatten (List.map_congr_left fun e he => ?_)
    have whole := triggerOffsets_around (plain e he) new (absent e he) (line ++ [' ']) []
    have nothing : triggerOffsets e.trigger [] = [] := by
      unfold triggerOffsets
      split <;> rfl
    rw [triggerOffsets_space (solid e he), nothing] at whole
    simp only [List.map_nil, List.append_nil, List.append_assoc, List.singleton_append] at whole
    rw [whole]
  unfold sites scanLine
  rw [same]

end Catalogue

end SchedulingNoise
