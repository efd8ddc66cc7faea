import Mathlib.Data.List.Induction
import SchedulingNoise.Disk.Basic
import SchedulingNoise.Proofs.Pieces

namespace SchedulingNoise.Disk

theorem find_putIn (p q : Place) (n : Node) (es : List (Place × Node)) :
    (putIn p n es).find? (·.1 = q) = if q = p then some (p, n) else es.find? (·.1 = q) := by
  induction es with
  | nil => by_cases h : q = p <;> simp [putIn, h, eq_comm]
  | cons e rest ih =>
    unfold putIn
    split
    · rename_i here
      by_cases h : q = p
      · simp [h]
      · have : ¬ p = q := fun eq => h eq.symm
        simp [h, here, this]
    · rename_i there
      by_cases h : q = p
      · subst h
        simp [there, ih]
      · simp only [List.find?_cons, ih, if_neg h]

theorem get?_put {p : Place} (below : p ≠ []) (d : Disk) (n : Node) (q : Place) :
    (d.put p n).get? q = if q = p then some n else d.get? q := by
  unfold get? put
  by_cases root : q = []
  · simp [root, Ne.symm below]
  · rw [find_putIn]
    by_cases h : q = p <;> simp [root, h, below]

theorem get?_erase {p : Place} (below : p ≠ []) (d : Disk) (q : Place) :
    (d.erase p).get? q = if q = p then none else d.get? q := by
  unfold get? erase
  by_cases root : q = []
  · simp [root, Ne.symm below]
  · by_cases h : q = p
    · subst h
      simp [root]
    · rw [if_neg root, if_neg root, if_neg h, List.find?_filter]
      congr 2
      funext e
      by_cases he : e.1 = q <;> simp [he, h]

theorem putIn_new {p : Place} {es : List (Place × Node)} (n : Node) (absent : ∀ e ∈ es, e.1 ≠ p) :
    putIn p n es = es ++ [(p, n)] := by
  induction es with
  | nil => rfl
  | cons e rest ih =>
    rw [putIn, if_neg (absent e List.mem_cons_self),
      ih fun e' he' => absent e' (List.mem_cons_of_mem e he'), List.cons_append]

theorem absent_of_get? {d : Disk} {p : Place} (h : d.get? p = none) : ∀ e ∈ d.entries, e.1 ≠ p := by
  intro e he eq
  unfold get? at h
  split at h
  · contradiction
  · simp only [Option.map_eq_none_iff, List.find?_eq_none] at h
    exact h e he (by simpa using eq)

theorem erase_put_new {d : Disk} {p : Place} (h : d.get? p = none) (n : Node) :
    (d.put p n).erase p = d := by
  have absent := absent_of_get? h
  have kept : d.entries.filter (fun e => decide (e.1 ≠ p)) = d.entries := by
    rw [List.filter_eq_self]
    intro e he
    simpa using absent e he
  unfold put erase
  rw [putIn_new n absent, List.filter_append, kept]
  simp

theorem not_folder_of_none {d : Disk} {p : Place} (h : d.get? p = none) :
    d.get? p ≠ some .folder := by
  rw [h]
  exact nofun

theorem not_folder_of_file {d : Disk} {p : Place} {bs : Bytes} (h : d.get? p = some (.file bs)) :
    d.get? p ≠ some .folder := by
  rw [h]
  exact nofun

structure ProperName (n : Text) : Prop where
  nonempty : n ≠ []
  notSelf : n ≠ selfName
  notParent : n ≠ parentName
  noSlash : '/' ∉ n
  noNull : Char.ofNat 0 ∉ n

instance (n : Text) : Decidable (ProperName n) :=
  decidable_of_iff (n ≠ [] ∧ n ≠ selfName ∧ n ≠ parentName ∧ '/' ∉ n ∧ Char.ofNat 0 ∉ n)
    ⟨fun h => ⟨h.1, h.2.1, h.2.2.1, h.2.2.2.1, h.2.2.2.2⟩,
      fun h => ⟨h.nonempty, h.notSelf, h.notParent, h.noSlash, h.noNull⟩⟩

/-- A disk with folders and regular files alone. Every entry stands in a folder, under a name
that a disk can hold. -/
structure Tree (d : Disk) : Prop where
  distinct : (d.entries.map (·.1)).Nodup
  plain : ∀ e ∈ d.entries, e.2 = .folder ∨ ∃ bs, e.2 = .file bs
  rooted : ∀ e ∈ d.entries, ∃ above n, e.1 = above ++ [n] ∧ d.get? above = some .folder ∧
    ProperName n ∧ Utf8.size n ≤ maxNameBytes

namespace Tree

variable {d : Disk}

def isPlain : Node → Bool
  | .folder => true
  | .file _ => true
  | _ => false

/-- A tree as it is checked, entry by entry. -/
theorem tree_iff : d.Tree ↔ (d.entries.map (·.1)).Nodup ∧ ∀ e ∈ d.entries, isPlain e.2 = true ∧
    ∃ n ∈ e.1.getLast?, d.get? e.1.dropLast = some .folder ∧ ProperName n ∧
      Utf8.size n ≤ maxNameBytes := by
  constructor
  · intro t
    refine ⟨t.distinct, fun e he => ⟨?_, ?_⟩⟩
    · rcases t.plain e he with folder | ⟨bs, file⟩
      · rw [folder]
        rfl
      · rw [file]
        rfl
    · obtain ⟨above, n, eq, folder, good⟩ := t.rooted e he
      exact ⟨n, by simp [eq], by simpa [eq] using folder, good⟩
  · rintro ⟨distinct, each⟩
    refine ⟨distinct, fun e he => ?_, fun e he => ?_⟩
    · have plain := (each e he).1
      unfold isPlain at plain
      split at plain
      · rename_i folder
        exact .inl folder
      · rename_i bs file
        exact .inr ⟨bs, file⟩
      · cases plain
    · obtain ⟨_, n, last, folder, good⟩ := each e he
      obtain ⟨above, eq⟩ := List.getLast?_eq_some_iff.mp last
      exact ⟨above, n, eq, by simpa [eq] using folder, good⟩

instance : Decidable d.Tree := decidable_of_iff _ tree_iff.symm

theorem find_of_mem {es : List (Place × Node)} (distinct : (es.map (·.1)).Nodup)
    {e : Place × Node} (he : e ∈ es) : es.find? (·.1 = e.1) = some e := by
  induction es with
  | nil => cases he
  | cons a rest ih =>
    rw [List.map_cons, List.nodup_cons] at distinct
    rcases List.mem_cons.mp he with rfl | he
    · simp
    · have other : ¬ a.1 = e.1 := fun eq =>
        distinct.1 (eq ▸ List.mem_map_of_mem he)
      rw [List.find?_cons_of_neg (by simpa using other)]
      exact ih distinct.2 he

theorem get?_of_mem (t : d.Tree) {p : Place} {n : Node} (h : (p, n) ∈ d.entries) :
    d.get? p = some n := by
  obtain ⟨above, name, eq, _⟩ := t.rooted _ h
  have below : p ≠ [] := fun nil => by simp [nil] at eq
  simp [get?, below, find_of_mem t.distinct h]

theorem mem_of_get? {p : Place} {n : Node} (below : p ≠ []) (h : d.get? p = some n) :
    (p, n) ∈ d.entries := by
  rw [get?, if_neg below, Option.map_eq_some_iff] at h
  obtain ⟨e, found, rfl⟩ := h
  have key : e.1 = p := by simpa using List.find?_some found
  exact key ▸ List.mem_of_find?_eq_some found

theorem node (t : d.Tree) {p : Place} {n : Node} (h : d.get? p = some n) :
    n = .folder ∨ ∃ bs, n = .file bs := by
  by_cases root : p = []
  · subst root
    exact .inl (by simpa [get?] using h.symm)
  · exact t.plain _ (mem_of_get? root h)

theorem above (t : d.Tree) {p : Place} {n : Text} {x : Node} (h : d.get? (p ++ [n]) = some x) :
    d.get? p = some .folder ∧ ProperName n ∧ Utf8.size n ≤ maxNameBytes := by
  obtain ⟨above, n', eq, folder, proper⟩ := t.rooted _ (mem_of_get? (by simp) h)
  obtain ⟨rfl, same⟩ := List.append_inj' eq rfl
  cases same
  exact ⟨folder, proper⟩

theorem folder_of_prefix (t : d.Tree) {p q : Place} {x : Node} (positive : q ≠ [])
    (h : d.get? (p ++ q) = some x) : d.get? p = some .folder := by
  induction q using List.reverseRecOn generalizing x with
  | nil => exact absurd rfl positive
  | append_singleton q n ih =>
    have up := (t.above (by rw [List.append_assoc]; exact h)).1
    by_cases hq : q = []
    · simpa [hq] using up
    · exact ih hq up

theorem proper_of_mem (t : d.Tree) {p : Place} {x : Node} (h : d.get? p = some x) {n : Text}
    (mem : n ∈ p) : ProperName n ∧ Utf8.size n ≤ maxNameBytes := by
  obtain ⟨before, after, rfl⟩ := List.append_of_mem mem
  cases after with
  | nil => exact (t.above h).2
  | cons m more =>
    have folder : d.get? (before ++ [n]) = some .folder := by
      apply t.folder_of_prefix (List.cons_ne_nil m more)
      simpa using h
    exact (t.above folder).2

theorem keys_putIn (p : Place) (n : Node) (es : List (Place × Node)) :
    (putIn p n es).map (·.1) =
      if p ∈ es.map (·.1) then es.map (·.1) else es.map (·.1) ++ [p] := by
  induction es with
  | nil => rfl
  | cons e rest ih =>
    unfold putIn
    by_cases here : e.1 = p
    · simp [here]
    · have there : ¬ p = e.1 := fun eq => here eq.symm
      simp only [if_neg here, List.map_cons, List.mem_cons, there, false_or, ih]
      split <;> rfl

theorem mem_putIn {p : Place} {n : Node} {es : List (Place × Node)} {e : Place × Node}
    (h : e ∈ putIn p n es) : e = (p, n) ∨ e ∈ es := by
  induction es with
  | nil => exact .inl (by simpa [putIn] using h)
  | cons a rest ih =>
    unfold putIn at h
    split at h
    · rcases List.mem_cons.mp h with h | h
      · exact .inl h
      · exact .inr (List.mem_cons_of_mem a h)
    · rcases List.mem_cons.mp h with h | h
      · exact .inr (h ▸ List.mem_cons_self)
      · exact (ih h).imp_right (List.mem_cons_of_mem a)

theorem put_file (t : d.Tree) {p : Place} {n : Text} (bs : Bytes) (folder : d.get? p = some .folder)
    (proper : ProperName n) (short : Utf8.size n ≤ maxNameBytes)
    (free : d.get? (p ++ [n]) ≠ some .folder) : (d.put (p ++ [n]) (.file bs)).Tree := by
  have below : p ++ [n] ≠ [] := by simp
  have keeps : ∀ q, d.get? q = some .folder →
      (d.put (p ++ [n]) (.file bs)).get? q = some .folder := by
    intro q hq
    have other : q ≠ p ++ [n] := fun eq => free (eq ▸ hq)
    rw [get?_put below, if_neg other, hq]
  refine ⟨?_, ?_, ?_⟩
  · have keys := keys_putIn (p ++ [n]) (.file bs) d.entries
    rw [put, keys]
    split
    · exact t.distinct
    · rename_i absent
      refine List.nodup_append.mpr ⟨t.distinct, by simp, ?_⟩
      intro a ha b hb eq
      exact absent (List.mem_singleton.mp hb ▸ eq ▸ ha)
  · intro e he
    rcases mem_putIn he with rfl | he
    · exact .inr ⟨bs, rfl⟩
    · exact t.plain e he
  · intro e he
    rcases mem_putIn he with rfl | he
    · exact ⟨p, n, rfl, keeps p folder, proper, short⟩
    · obtain ⟨above, m, eq, isFolder, good⟩ := t.rooted e he
      exact ⟨above, m, eq, keeps above isFolder, good⟩

theorem erase_file (t : d.Tree) {p : Place} {bs : Bytes} (h : d.get? p = some (.file bs)) :
    (d.erase p).Tree := by
  have below : p ≠ [] := fun root => by simp [root, get?] at h
  refine ⟨?_, ?_, ?_⟩
  · exact t.distinct.sublist (List.Sublist.map _ List.filter_sublist)
  · exact fun e he => t.plain e ((List.mem_filter.mp he).1)
  · intro e he
    obtain ⟨above, m, eq, isFolder, good⟩ := t.rooted e ((List.mem_filter.mp he).1)
    have other : above ≠ p := fun eq => by simp [eq, h] at isFolder
    exact ⟨above, m, eq, by rw [get?_erase below, if_neg other, isFolder], good⟩

end Tree

/-- Where names lead if each of them is a folder, one dot or two dots. -/
def through (d : Disk) : Place → List Text → Option Place
  | cur, [] => some cur
  | cur, n :: rest =>
    if n = selfName then d.through cur rest
    else if n = parentName then d.through cur.dropLast rest
    else if n.isEmpty || maxNameBytes < Utf8.size n then none
    else if d.get? (cur ++ [n]) = some .folder then d.through (cur ++ [n]) rest
    else none

theorem real_of_through {d : Disk} {cur p : Place} {names : List Text}
    (leads : d.through cur names = some p) : [] ∉ names := by
  induction names generalizing cur with
  | nil => exact List.not_mem_nil
  | cons n rest ih =>
    have self : ([] : Text) ≠ selfName := by decide
    have parent : ([] : Text) ≠ parentName := by decide
    intro mem
    unfold through at leads
    rcases List.mem_cons.mp mem with rfl | mem
    · simp [self, parent] at leads
    · split at leads
      · exact ih leads mem
      · split at leads
        · exact ih leads mem
        · split at leads
          · contradiction
          · split at leads
            · exact ih leads mem
            · contradiction

theorem walk_through {d : Disk} {cur p : Place} {names : List Text}
    (leads : d.through cur names = some p) (ending : Ending) {todo : List Text} (real : [] ∉ todo) :
    d.walk ending cur (names ++ todo) = d.walk ending p todo := by
  induction names generalizing cur with
  | nil =>
    cases leads
    rfl
  | cons n rest ih =>
    have inner : rest ++ todo ≠ [[]] := by
      intro eq
      have mem : [] ∈ rest ++ todo := eq ▸ List.mem_singleton_self _
      rcases List.mem_append.mp mem with mem | mem
      · exact real_of_through leads (List.mem_cons_of_mem n mem)
      · exact real mem
    unfold through at leads
    rw [List.cons_append, walk]
    split at leads
    · rename_i self
      simpa [self] using ih leads
    · rename_i self
      split at leads
      · rename_i parent
        have : parentName ≠ [] := by decide
        simpa [parent, this, show parentName ≠ selfName by decide] using ih leads
      · rename_i parent
        split at leads
        · contradiction
        · rename_i short
          simp only [Bool.or_eq_true, List.isEmpty_iff, decide_eq_true_eq, not_or] at short
          split at leads
          · rename_i folder
            simpa [self, parent, short, inner, folder] using ih leads
          · contradiction

theorem Tree.through_below {d : Disk} (t : d.Tree) {cur : Place} {dir : List Text}
    (folder : d.get? (cur ++ dir) = some .folder) : d.through cur dir = some (cur ++ dir) := by
  induction dir generalizing cur with
  | nil => simp [through]
  | cons n rest ih =>
    have here : d.get? (cur ++ [n]) = some .folder := by
      by_cases last : rest = []
      · simpa [last] using folder
      · exact t.folder_of_prefix last (by simpa using folder)
    obtain ⟨_, proper, short⟩ := t.above here
    have long : ¬ maxNameBytes < Utf8.size n := Nat.not_lt.mpr short
    have step : d.through (cur ++ [n]) rest = some (cur ++ [n] ++ rest) :=
      ih (by simpa using folder)
    simp [through, proper.notSelf, proper.notParent, proper.nonempty, long, here, step]

theorem Tree.walk_name {d : Disk} (t : d.Tree) (ending : Ending) (cur : Place) {n : Text}
    (nonempty : n ≠ []) (notSelf : n ≠ selfName) (notParent : n ≠ parentName) :
    d.walk ending cur [n] =
      if Utf8.size n ≤ maxNameBytes then .here (cur ++ [n]) else .stuck .nameTooLong := by
  unfold walk
  have good : (n = selfName || n.isEmpty) = false := by simp [notSelf, nonempty]
  rw [good]
  by_cases short : Utf8.size n ≤ maxNameBytes
  · have long : ¬ maxNameBytes < Utf8.size n := Nat.not_lt.mpr short
    simp only [Bool.false_eq_true, if_false, if_neg notParent, if_neg long, if_pos short]
    cases h : d.get? (cur ++ [n]) with
    | none => simp
    | some x =>
      rcases t.node h with rfl | ⟨bs, rfl⟩
      · simp [walk]
      · simp
  · have long : maxNameBytes < Utf8.size n := Nat.not_le.mp short
    simp [notParent, long, short]

theorem Tree.folder_of_walk_self {d : Disk} (t : d.Tree) {ending : Ending} {cur q : Place}
    {names : List Text} (here : d.get? cur = some .folder)
    (walked : d.walk ending cur (names ++ [selfName]) = .here q) : d.get? q = some .folder := by
  induction names generalizing cur with
  | nil =>
    cases walked
    exact here
  | cons n rest ih =>
    have more : (rest ++ [selfName]).isEmpty = false := by simp
    rw [List.cons_append, walk, more] at walked
    split at walked
    · exact ih here walked
    · split at walked
      · refine ih ?_ walked
        rcases List.eq_nil_or_concat cur with rfl | ⟨above, m, rfl⟩
        · exact here
        · rw [List.concat_eq_append] at here ⊢
          rw [List.dropLast_concat]
          exact (t.above here).1
      · split at walked
        · cases walked
        · split at walked
          · cases walked
          · cases found : d.get? (cur ++ [n]) with
            | none => simp [found] at walked
            | some x =>
              rcases t.node found with rfl | ⟨bs, rfl⟩
              · rw [found] at walked
                exact ih found walked
              · simp [found] at walked

end SchedulingNoise.Disk
