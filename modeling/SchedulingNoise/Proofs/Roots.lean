import SchedulingNoise.Proofs.Custody

namespace SchedulingNoise
open Disk Workspace

namespace Text

theorem not_mem_of_mem_splitOn {c : Char} {t piece : Text} (h : piece ∈ splitOn [c] t) :
    c ∉ piece := by
  induction t generalizing piece with
  | nil =>
    rw [splitOn_nil] at h
    simp [List.mem_singleton.mp h]
  | cons x rest ih =>
    by_cases same : c = x
    · subst same
      rw [show c :: rest = [c] ++ rest from rfl, splitOn_sep (by simp)] at h
      rcases List.mem_cons.mp h with rfl | h
      · simp
      · exact ih h
    · rw [splitOn_cons (by simp [same])] at h
      cases found : splitOn [c] rest with
      | nil => exact absurd found (splitOn_ne_nil _ _)
      | cons first more =>
        rw [found] at h ih
        rcases List.mem_cons.mp h with rfl | h
        · simp [same, ih List.mem_cons_self]
        · exact ih (List.mem_cons_of_mem first h)

end Text

namespace Disk

variable {d : Disk} {folder : Place}

theorem lexical_append (cur : Place) (names more : List Text) :
    lexical cur (names ++ more) = lexical (lexical cur names) more := by
  induction names generalizing cur with
  | nil => rfl
  | cons n rest ih => exact ih _

theorem plainPlace_child (p : Path) (n : Text) :
    plainPlace folder (p.child n) =
      if n = parentName then (plainPlace folder p).dropLast else plainPlace folder p ++ [n] :=
  lexical_append _ p.parts [n]

theorem plainPlace_upFrom (p : Path) :
    plainPlace folder (upFrom p) = (plainPlace folder p).dropLast := by
  unfold upFrom
  cases h : p.parts.getLast? with
  | none =>
    have none : p.parts = [] := List.getLast?_eq_none_iff.mp h
    dsimp only
    split
    · rename_i absolute
      simp [plainPlace, none, absolute, lexical]
    · rw [plainPlace_child, if_pos rfl]
  | some n =>
    dsimp only
    split
    · rw [plainPlace_child, if_pos rfl]
    · rename_i name
      obtain ⟨above, eq⟩ := List.getLast?_eq_some_iff.mp h
      have whole : p = p.parent.child n := by
        simp only [Path.parent, Path.child, eq, List.dropLast_concat]
        rw [← eq]
      rw [show plainPlace folder p = plainPlace folder (p.parent.child n) by rw [← whole],
        plainPlace_child, if_neg name, List.dropLast_concat]

theorem Tree.linkAt?_eq (t : d.Tree) (folder : Place) (p : Path) : d.linkAt? folder p = none := by
  unfold linkAt?
  split
  · rfl
  · split
    · rename_i found
      rcases t.node found with link | ⟨bs, link⟩ <;> cases link
    · rfl

theorem Tree.realFrom_eq (t : d.Tree) (fuel : Nat) (followed : Followed) (cur : Path)
    (todo : List Text) :
    ∃ q, ((d.realFrom folder fuel followed cur todo).1 = .reached q ∨
        (d.realFrom folder fuel followed cur todo).1 = .circle q) ∧
      plainPlace folder q = lexical (plainPlace folder cur) todo := by
  induction fuel generalizing cur todo with
  | zero => exact ⟨⟨cur.anchor, cur.parts ++ todo⟩, .inr rfl, lexical_append _ cur.parts todo⟩
  | succ fuel ih =>
    cases todo with
    | nil => exact ⟨cur, .inl rfl, rfl⟩
    | cons n rest =>
      unfold realFrom
      by_cases up : n = parentName
      · obtain ⟨q, reached, place⟩ := ih (upFrom cur) rest
        refine ⟨q, by rw [if_pos up]; exact reached, ?_⟩
        rw [place, plainPlace_upFrom, lexical, if_pos up]
      · obtain ⟨q, reached, place⟩ := ih (cur.child n) rest
        refine ⟨q, ?_, ?_⟩
        · rw [if_neg up]
          dsimp only
          rw [t.linkAt?_eq]
          exact reached
        · rw [place, plainPlace_child, if_neg up, lexical, if_neg up]

theorem Tree.real_eq (t : d.Tree) (p : Path) : d.real folder p = plainPlace folder p := by
  have ⟨q, reached, place⟩ : ∃ q, _ ∧
      plainPlace folder q = lexical (plainPlace folder ⟨p.anchor, []⟩) p.parts :=
    t.realFrom_eq realFuel [] ⟨p.anchor, []⟩ p.parts
  unfold real
  rcases reached with reached | reached
  · rw [reached]
    exact place
  · rw [reached]
    exact place

theorem Tree.through_of_walk (t : d.Tree) {cur p : Place} {names : List Text}
    (real : [] ∉ names) (walked : d.walk .enter cur names = .here p)
    (isFolder : d.get? p = some .folder) : d.through cur names = some p := by
  induction names generalizing cur with
  | nil =>
    cases walked
    rfl
  | cons n rest ih =>
    have nonempty : n ≠ [] := fun eq => real (eq ▸ List.mem_cons_self)
    have real' : [] ∉ rest := fun mem => real (List.mem_cons_of_mem n mem)
    unfold walk at walked
    unfold through
    by_cases self : n = selfName
    · rw [if_pos self]
      exact ih real' (by simpa [self] using walked)
    · by_cases parent : n = parentName
      · rw [if_neg self, if_pos parent]
        exact ih real' (by simpa [self, parent, show parentName ≠ selfName by decide,
          show parentName ≠ ([] : Text) by decide] using walked)
      · have named : (decide (n = selfName) || n.isEmpty) = false := by simp [self, nonempty]
        simp only [named, Bool.false_eq_true, if_false, if_neg parent, reduceCtorEq, decide_false,
          Bool.false_and] at walked
        split at walked
        · cases walked
        · rename_i long
          cases found : d.get? (cur ++ [n]) with
          | none =>
            simp only [found] at walked
            split at walked
            · cases walked
              rw [found] at isFolder
              cases isFolder
            · cases walked
          | some x =>
            rcases t.node found with rfl | ⟨bs, rfl⟩
            · simp only [found] at walked
              simpa [self, parent, nonempty, long] using ih real' walked
            · simp only [found] at walked
              split at walked
              · cases walked
                rw [found] at isFolder
                cases isFolder
              · cases walked

theorem Tree.walk_ne_jump (t : d.Tree) (ending : Ending) (cur p : Place) (names todo : List Text) :
    d.walk ending cur names ≠ .jump p todo := by
  induction names generalizing cur with
  | nil => simp [walk]
  | cons n rest ih =>
    unfold walk
    split
    · exact ih cur
    · split
      · exact ih _
      · split
        · simp
        · split
          · simp
          · cases found : d.get? (cur ++ [n]) with
            | none =>
              dsimp only
              split <;> simp
            | some x =>
              rcases t.node found with rfl | ⟨bs, rfl⟩
              · exact ih _
              · dsimp only
                split <;> simp

theorem walk_ne_loop (d : Disk) (ending : Ending) (cur : Place) (names : List Text) :
    d.walk ending cur names ≠ .stuck .tooManyLinks := by
  fun_induction d.walk ending cur names <;> simp_all

theorem Tree.node_ne_loop (t : d.Tree) (p : Path) : d.node folder p ≠ .error .tooManyLinks := by
  intro looped
  unfold Disk.node locate at looped
  split at looped
  · cases looped
  · unfold walkLinks at looped
    split at looped
    · simp only [bind, Except.bind] at looped
      split at looped <;> cases looped
    · rename_i e stuck
      cases looped
      exact walk_ne_loop d _ _ _ stuck
    · rename_i jumped
      exact t.walk_ne_jump _ _ _ _ _ jumped

theorem lexical_of_through {cur p : Place} {names : List Text} (noDot : selfName ∉ names)
    (leads : d.through cur names = some p) : lexical cur names = p := by
  induction names generalizing cur with
  | nil =>
    cases leads
    rfl
  | cons n rest ih =>
    have self : n ≠ selfName := fun eq => noDot (eq ▸ List.mem_cons_self)
    have noDot' : selfName ∉ rest := fun mem => noDot (List.mem_cons_of_mem n mem)
    unfold through at leads
    rw [if_neg self] at leads
    unfold lexical
    split at leads
    · rename_i parent
      rw [if_pos parent]
      exact ih noDot' leads
    · rename_i parent
      rw [if_neg parent]
      split at leads
      · cases leads
      · split at leads
        · exact ih noDot' leads
        · cases leads

end Disk

namespace Path

theorem whole_of_names {t n : Text} (h : n ∈ names t) : n ≠ [] ∧ '/' ∉ n ∧ n ≠ Disk.selfName := by
  obtain ⟨piece, kept⟩ := List.mem_filter.mp h
  simp only [Bool.and_eq_true, Bool.not_eq_true', List.isEmpty_eq_false_iff, ne_eq,
    decide_eq_true_eq] at kept
  exact ⟨kept.1, Text.not_mem_of_mem_splitOn piece, kept.2⟩

end Path

/-- Where a search below a root starts. -/
def searchStart (folder : Place) (root : Path) : Path :=
  if root.isAbsolute then root else ⟨.root, plainPlace folder root⟩

/-- A path as it was written that leads to a folder of a tree. The working folder is `folder`. -/
structure Rooted (d : Disk) (folder : Place) (root : Path) (place : Place) : Prop where
  tree : d.Tree
  written : ∃ t, root = .ofText t
  leads : d.locate .enter folder root = .ok place
  isFolder : d.get? place = some .folder

namespace Rooted

variable {d : Disk} {folder place : Place} {root : Path}

theorem whole (s : Rooted d folder root place) :
    ∀ n ∈ root.parts, n ≠ [] ∧ '/' ∉ n ∧ n ≠ selfName := by
  obtain ⟨t, rfl⟩ := s.written
  exact fun n hn => Path.whole_of_names hn

theorem steps_eq (s : Rooted d folder root place) : root.steps = root.parts :=
  Path.steps_of_whole fun n hn => ⟨(s.whole n hn).1, (s.whole n hn).2.1⟩

theorem real (s : Rooted d folder root place) : [] ∉ root.parts :=
  fun mem => (s.whole [] mem).1 rfl

theorem through_root (s : Rooted d folder root place) :
    d.through (if root.isAbsolute then [] else folder) root.parts = some place := by
  have leads := s.leads
  unfold locate at leads
  split at leads
  · cases leads
  · rw [s.steps_eq] at leads
    unfold walkLinks at leads
    split at leads
    · rename_i p walked
      cases leads
      exact s.tree.through_of_walk s.real walked s.isFolder
    · cases leads
    · rename_i jumped
      exact absurd jumped (s.tree.walk_ne_jump _ _ _ _ _)

theorem plainPlace_root (s : Rooted d folder root place) : plainPlace folder root = place :=
  lexical_of_through (fun mem => (s.whole selfName mem).2.2 rfl) s.through_root

theorem isAbsolute_start (folder : Place) (root : Path) :
    (searchStart folder root).isAbsolute = true := by
  unfold searchStart
  split
  · assumption
  · rfl

theorem through_start (s : Rooted d folder root place) :
    d.through [] (searchStart folder root).steps = some place := by
  have leads := s.through_root
  unfold searchStart
  by_cases absolute : root.isAbsolute = true
  · rw [if_pos absolute] at leads ⊢
    rw [s.steps_eq]
    exact leads
  · have proper : ∀ n ∈ place, ProperName n := fun n hn => (s.tree.proper_of_mem s.isFolder hn).1
    rw [if_neg absolute, s.plainPlace_root, Path.steps, Path.steps_of_proper proper]
    have whole : d.get? ([] ++ place) = some .folder := s.isFolder
    exact s.tree.through_below whole

theorem spelled_start (s : Rooted d folder root place) (spelled : Char.ofNat 0 ∉ root.text) :
    Char.ofNat 0 ∉ (searchStart folder root).text := by
  unfold searchStart
  split
  · exact spelled
  · rw [s.plainPlace_root]
    exact Path.spelled_descend (p := ⟨.root, []⟩) rfl (by decide)
      fun n hn => (s.tree.proper_of_mem s.isFolder hn).1

theorem base (s : Rooted d folder root place) (spelled : Char.ofNat 0 ∉ root.text)
    (short : Utf8.size (searchStart folder root).text ≤ maxPathBytes) :
    d.Base (searchStart folder root) place :=
  ⟨s.tree, isAbsolute_start folder root, s.spelled_start spelled, s.through_start, s.isFolder,
    short⟩

end Rooted

/-- The same, with nothing below the folder out of reach. -/
structure Expanse (d : Disk) (folder : Place) (root : Path) (place : Place) : Prop
    extends Rooted d folder root place where
  spelled : Char.ofNat 0 ∉ root.text
  short : ∀ below x, d.get? (place ++ below) = some x →
    Utf8.size ((searchStart folder root).descend below).text ≤ maxPathBytes

structure Reach (d : Disk) (folder : Place) (root : Path) (place : Place) : Prop where
  spelled : Char.ofNat 0 ∉ root.text
  base : d.Base (searchStart folder root) place
  short : ∀ below x, d.get? (place ++ below) = some x →
    Utf8.size ((searchStart folder root).descend below).text ≤ maxPathBytes

namespace Expanse

variable {d : Disk} {folder place : Place} {root : Path}

theorem base (e : Expanse d folder root place) : d.Base (searchStart folder root) place := by
  have short := e.short [] .folder (by simpa using e.isFolder)
  rw [Path.descend_nil] at short
  exact e.toRooted.base e.spelled short

theorem reach (e : Expanse d folder root place) : Reach d folder root place :=
  ⟨e.spelled, e.base, e.short⟩

end Expanse

/-- A source tree before any run: a folder with files and folders that no run has touched. The
working folder is `folder`, and `root` leads to `place`. -/
structure Site (d : Disk) (folder : Place) (root : Path) (place : Place) : Prop
    extends Expanse d folder root place where
  fresh : Fresh d place

end SchedulingNoise
