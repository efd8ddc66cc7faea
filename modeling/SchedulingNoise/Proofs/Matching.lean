import SchedulingNoise.Proofs.Searching

namespace SchedulingNoise
open Disk

namespace Keeps

variable {σ ε α : Type} {I : σ → Prop}

theorem nothing {P : α → Prop} :
    Keeps I (Pure.pure [] : EStateM ε σ (List α)) fun ys => ∀ y ∈ ys, P y :=
  pure fun _ mem => absurd mem List.not_mem_nil

theorem filterM {f : α → EStateM ε σ Bool} (xs : List α)
    (each : ∀ x ∈ xs, Keeps I (f x) fun _ => True) :
    Keeps I (xs.filterM f) fun ys => ∀ y ∈ ys, y ∈ xs := by
  have aux : ∀ (xs kept : List α), (∀ x ∈ xs, Keeps I (f x) fun _ => True) →
      Keeps I (xs.filterAuxM f kept) fun ys => ∀ y ∈ ys, y ∈ xs ∨ y ∈ kept := by
    intro xs
    induction xs with
    | nil => exact fun kept _ => pure fun y hy => .inr hy
    | cons x rest ih =>
      intro kept each
      refine (each x List.mem_cons_self).bind fun b _ => ?_
      refine (ih _ fun y hy => each y (List.mem_cons_of_mem x hy)).weaken fun ys all y hy => ?_
      rcases all y hy with mem | mem
      · exact .inl (List.mem_cons_of_mem x mem)
      · cases b with
        | false => exact .inr mem
        | true =>
          rcases List.mem_cons.mp mem with rfl | mem
          · exact .inl List.mem_cons_self
          · exact .inr mem
  refine (aux xs [] each).bind fun ys all => pure fun y hy => ?_
  simpa using all y (List.mem_reverse.mp hy)

end Keeps

namespace Workspace

variable {d : Disk} {folder place : Place}

theorem keeps_orOnRefusal {I : Workspace → Prop} {a : Act α} {other : Fault → Act α} {R : α → Prop}
    (h : Keeps I a R) (h' : ∀ f, Keeps I (other f) R) : Keeps I (orOnRefusal a other) R := by
  refine (keeps_attempt h).bind fun r hr => ?_
  cases r with
  | ok x => exact .pure (hr x rfl)
  | error f =>
    dsimp only
    split
    · exact h' f
    · exact .fail _ _

theorem keeps_isFile {I : Workspace → Prop} [Sees I d folder] (p : Path) : Keeps I (isFile p)
    fun b => b = true → ∃ x, d.node folder p = .ok x ∧ x ≠ .folder := by
  refine (keeps_node? p).bind fun n hn => ?_
  split
  · exact .pure fun _ => ⟨_, hn _ rfl, by simp⟩
  · exact .pure fun _ => ⟨_, hn _ rfl, by simp⟩
  · exact .pure nofun

section Root

variable {I : Workspace → Prop} [Sees I d folder]

theorem keeps_fromRoot (p : Path) : Keeps I (fromRoot p)
    fun q => q = if p.isAbsolute then p else ⟨.root, d.real folder p⟩ := by
  unfold fromRoot
  split
  · exact .pure rfl
  · refine (keeps_note _).bind fun _ _ => (keeps_attempt (keeps_resolve p)).bind fun r hr => ?_
    split
    · exact .pure (hr _ rfl)
    · exact .fail _ _
    · exact .fail _ _

theorem keeps_searchRoot (p : Path) : Keeps I (searchRoot (some p))
    fun r => ∀ q, r = some q → q = if p.isAbsolute then p else ⟨.root, d.real folder p⟩ := by
  have checked : Keeps I (checkPath p { mustExist := true })
      fun q => q = if p.isAbsolute then p else ⟨.root, d.real folder p⟩ := by
    refine (keeps_fromRoot p).bind fun q hq => ?_
    simp only [if_true, Bool.false_eq_true, if_false]
    refine (keeps_exists? q).bind fun b _ => ?_
    cases b with
    | false => exact .fail _ _
    | true => exact .pure hq
  refine (keeps_attempt checked).bind fun r hr => ?_
  split
  · rename_i q
    exact .pure fun q' eq => by cases eq; exact hr q rfl
  · exact (keeps_note _).bind fun _ _ => .pure nofun
  · exact .fail _ _

theorem searchStart_eq {root : Path} (rooted : Rooted d folder root place) :
    (if root.isAbsolute then root else ⟨.root, d.real folder root⟩) = searchStart folder root := by
  unfold searchStart
  rw [rooted.tree.real_eq root]

end Root

section Selecting

/-- A path that goes on from another one: with the same anchor, and with a last name that holds no
slash if the other's holds none. -/
structure Along (p q : Path) : Prop where
  anchor : q.anchor = p.anchor
  name : '/' ∉ p.name → '/' ∉ q.name

theorem Along.refl (p : Path) : Along p p := ⟨rfl, id⟩

theorem Along.trans {p q r : Path} (h : Along p q) (h' : Along q r) : Along p r :=
  ⟨h'.anchor.trans h.anchor, fun plain => h'.name (h.name plain)⟩

theorem Along.child (p : Path) {n : Text} (plain : '/' ∉ n) : Along p (p.child n) :=
  ⟨rfl, fun _ => by simpa [Path.name, Path.child] using plain⟩

theorem Along.descend (p : Path) {ns : List Text} (plain : ∀ n ∈ ns, '/' ∉ n) :
    Along p (p.descend ns) := by
  refine ⟨rfl, fun start => ?_⟩
  rcases List.eq_nil_or_concat ns with rfl | ⟨dir, n, rfl⟩
  · rw [Path.descend_nil]
    exact start
  · rw [List.concat_eq_append] at plain ⊢
    rw [name_descend]
    exact plain n (by simp)

theorem keeps_namesIn (t : d.Tree) (p : Path) :
    Keeps (Standing d folder) (namesIn p) fun ns => ∀ n ∈ ns, '/' ∉ n := by
  refine keeps_get.bind fun w hw => ?_
  rw [hw.1, hw.2.1]
  cases listed : d.namesAt folder p with
  | error e => exact .fail _ _
  | ok ns =>
    refine .pure fun n hn => ?_
    obtain ⟨place, _, eq⟩ := bind_eq_ok.mp listed
    cases eq
    split at hn
    · obtain ⟨x, found⟩ := (mem_names t _).mp hn
      exact (t.above found).2.1.noSlash
    · cases hn

theorem keeps_foldersFrom (t : d.Tree) (p : Path) :
    Keeps (Standing d folder) (foldersFrom p) fun ps => ∀ q ∈ ps, ∃ dir at_, q = p.descend dir ∧
      (∀ n ∈ dir, '/' ∉ n) ∧ d.locate .enter folder p = .ok at_ ∧
      (dir = [] ∨ d.get? (at_ ++ dir) = some .folder) := by
  refine keeps_get.bind fun w hw => ?_
  rw [hw.1, hw.2.1]
  split
  · exact .nothing
  · rename_i at_ leads
    have listing : Keeps (Standing d folder)
        ((p :: ((d.below at_).filter fun e => e.2 = .folder).map fun e => p.descend e.1).forM
          fun q => do let _ ← namesIn q) fun _ => True :=
      .forM _ fun q _ => (keeps_namesIn t q).bind fun _ _ => .pure trivial
    refine listing.bind fun _ _ => .pure fun q hq => ?_
    rcases List.mem_cons.mp hq with rfl | hq
    · exact ⟨[], at_, by simp, by simp, leads, .inl rfl⟩
    · obtain ⟨e, mem, rfl⟩ := List.mem_map.mp hq
      obtain ⟨inside, isFolder⟩ := List.mem_filter.mp mem
      simp only [decide_eq_true_eq] at isFolder
      obtain ⟨_, found⟩ := mem_below t (show (e.1, e.2) ∈ d.below at_ from inside)
      rw [isFolder] at found
      refine ⟨e.1, at_, rfl, ?_, leads, .inr found⟩
      exact fun n hn => (t.proper_of_mem found (List.mem_append_right at_ hn)).1.noSlash

theorem keeps_select (t : d.Tree) {patterns : List Text} (plain : ∀ n ∈ patterns, '/' ∉ n)
    (p : Path) : Keeps (Standing d folder) (select patterns p) fun ps => ∀ q ∈ ps, Along p q := by
  induction patterns generalizing p with
  | nil => exact .pure fun q hq => List.mem_singleton.mp hq ▸ .refl p
  | cons pattern rest ih =>
    have further : ∀ ps : List Path, (∀ q ∈ ps, Along p q) →
        Keeps (Standing d folder) (ps.mapM (select rest)) fun found =>
          ∀ q ∈ found.flatten, Along p q := by
      intro ps all
      refine (Keeps.mapM (R := fun found => ∀ q ∈ found, Along p q) ps fun q hq => ?_).weaken
        fun found each r hr => ?_
      · exact (ih (fun n hn => plain n (List.mem_cons_of_mem pattern hn)) q).weaken
          fun found each r hr => (all q hq).trans (each r hr)
      · obtain ⟨part, mem, inside⟩ := List.mem_flatten.mp hr
        exact each part mem r inside
    have here := plain pattern List.mem_cons_self
    unfold select
    dsimp only
    split
    · exact .pure fun q hq => List.mem_singleton.mp hq ▸ .refl p
    · split
      · refine (keeps_foldersFrom t p).bind fun ps each => ?_
        refine (further ps fun q hq => ?_).bind fun found all => .pure fun q hq => ?_
        · obtain ⟨dir, _, rfl, names, _⟩ := each q hq
          exact .descend p names
        · split at hq
          · exact all q (List.mem_eraseDups.mp hq)
          · exact all q hq
      · split
        · refine (keeps_namesIn t p).bind fun ns names => ?_
          have inside : ∀ q ∈ (ns.filter (nameFits pattern)).map p.child, Along p q := by
            intro q hq
            obtain ⟨n, mem, rfl⟩ := List.mem_map.mp hq
            exact .child p (names n (List.mem_filter.mp mem).1)
          split
          · refine Keeps.bind (.pure (R := fun ps => ∀ q ∈ ps, Along p q) inside) fun ps all => ?_
            exact (further ps all).bind fun found each => .pure each
          · refine (Keeps.filterM _ fun q _ => keeps_isFolder q).bind fun ps all => ?_
            exact (further ps fun q hq => inside q (all q hq)).bind fun found each => .pure each
        · have wanted : Keeps (Standing d folder) (if rest.isEmpty = true then
              exists? (p.child pattern) else isFolder (p.child pattern)) fun _ => True := by
            split
            · exact keeps_exists? _
            · exact keeps_isFolder _
          refine wanted.bind fun b _ => ?_
          split
          · exact (ih (fun n hn => plain n (List.mem_cons_of_mem pattern hn)) _).weaken
              fun found each r hr => (Along.child p here).trans (each r hr)
          · exact .nothing

theorem keeps_select_name (t : d.Tree) {pattern : Text} (magic : Glob.hasMagic pattern = true)
    (notAny : pattern ≠ anyFolders) (p : Path) :
    Keeps (Standing d folder) (select [pattern] p) fun ps =>
      ∀ q ∈ ps, ∃ n, '/' ∉ n ∧ q = p.child n := by
  have nonempty : pattern.isEmpty = false := by
    cases pattern with
    | nil => simp [Glob.hasMagic] at magic
    | cons => rfl
  unfold select
  simp only [nonempty, if_neg notAny, if_pos magic, Bool.false_eq_true, if_false,
    List.isEmpty_nil, if_true]
  refine (keeps_namesIn t p).bind fun ns names => ?_
  refine Keeps.bind (.pure (R := fun ps => ∀ q ∈ ps, ∃ n, '/' ∉ n ∧ q = p.child n) ?_)
    fun ps all => ?_
  · intro q hq
    obtain ⟨n, mem, rfl⟩ := List.mem_map.mp hq
    exact ⟨n, names n (List.mem_filter.mp mem).1, rfl⟩
  · refine (Keeps.mapM (R := fun found => ∀ q ∈ found, ∃ n, '/' ∉ n ∧ q = p.child n) ps
      fun q hq => ?_).bind fun found each => .pure fun r hr => ?_
    · exact .pure fun r hr => List.mem_singleton.mp hr ▸ all q hq
    · obtain ⟨part, mem, inside⟩ := List.mem_flatten.mp hr
      exact each part mem r inside

end Selecting

section Matching

theorem walk_of_locate (t : d.Tree) {p : Path} (absolute : p.isAbsolute = true) {ending : Ending}
    {at_ : Place} (leads : d.locate ending folder p = .ok at_) :
    d.walk ending [] p.steps = .here at_ := by
  unfold locate at leads
  rw [if_pos absolute] at leads
  split at leads
  · cases leads
  · unfold walkLinks at leads
    split at leads
    · cases leads
      assumption
    · cases leads
    · rename_i jumped
      exact absurd jumped (t.walk_ne_jump _ _ _ _ _)

theorem start_leads {root : Path} (rooted : Rooted d folder root place) {at_ : Place}
    (leads : d.locate .enter folder (searchStart folder root) = .ok at_) : at_ = place := by
  have walked := walk_of_locate rooted.tree (Rooted.isAbsolute_start folder root) leads
  have through := walk_through rooted.through_start .enter (List.not_mem_nil (a := []))
  rw [List.append_nil, walked] at through
  simpa [walk] using through

theorem start_plain {root : Path} (rooted : Rooted d folder root place) :
    '/' ∉ (searchStart folder root).name := by
  have last : ∀ names : List Text, (∀ n ∈ names, '/' ∉ n) → '/' ∉ names.getLast?.getD [] := by
    intro names plain
    cases h : names.getLast? with
    | none => simp
    | some n => exact plain n (List.mem_of_getLast? h)
  apply last
  unfold searchStart
  split
  · exact fun n hn => (rooted.whole n hn).2.1
  · rw [rooted.plainPlace_root]
    exact fun n hn => (rooted.tree.proper_of_mem rooted.isFolder hn).1.noSlash

theorem cutEnd_subset (t : Text) (n : Nat) : cutEnd t n ⊆ t := by
  unfold cutEnd
  split
  · exact List.nil_subset t
  · exact List.take_subset _ t

theorem patternNames_plain {pattern : Text} {ns : List Text} (h : patternNames pattern = .ok ns) :
    ∀ n ∈ ns, '/' ∉ n := by
  unfold patternNames at h
  dsimp only at h
  split at h
  · cases h
  · cases h
    intro n hn
    split at hn
    · rcases List.mem_append.mp hn with hn | hn
      · exact (Path.whole_of_names hn).2.1
      · simp [List.mem_singleton.mp hn]
    · exact (Path.whole_of_names hn).2.1

theorem keeps_matchesBelow (t : d.Tree) (p : Path) (pattern : Text) :
    Keeps (Standing d folder) (matchesBelow p pattern) fun ps => ∀ q ∈ ps, Along p q := by
  refine keeps_require.bind fun ns hns => (keeps_isFolder p).bind fun b _ => ?_
  split
  · refine keeps_select t (fun n hn => ?_) p
    rcases List.mem_cons.mp hn with rfl | hn
    · decide
    · exact patternNames_plain hns n hn
  · exact .nothing

theorem keeps_matchesBelow_name {root : Path} (rooted : Rooted d folder root place) {suffix : Text}
    {x : Char} {rest : Text} (dotted : suffix = '.' :: x :: rest) (plain : '/' ∉ suffix) :
    Keeps (Standing d folder) (matchesBelow (searchStart folder root) ('*' :: suffix)) fun ps =>
      ∀ q ∈ ps, ∃ dir n, q = (searchStart folder root).descend (dir ++ [n]) ∧ '/' ∉ n ∧
        d.get? (place ++ dir) = some .folder := by
  refine keeps_require.bind fun ns hns => (keeps_isFolder _).bind fun b _ => ?_
  have one : ns = ['*' :: suffix] := by
    have last : ('*' :: suffix).getLast? ≠ some '/' := fun h => by
      have mem := List.mem_of_getLast? h
      simp [plain] at mem
    unfold patternNames at hns
    dsimp only at hns
    rw [names_star plain, if_neg last] at hns
    split at hns
    · cases hns
    · cases hns
      rfl
  subst one
  split
  · unfold select
    simp only [show anyFolders.isEmpty = false from rfl, Bool.false_eq_true, if_false, if_true]
    refine (keeps_foldersFrom rooted.tree _).bind fun ps each => ?_
    have magic : Glob.hasMagic ('*' :: suffix) = true := by simp [Glob.hasMagic]
    have notAny : '*' :: suffix ≠ anyFolders := by simp [dotted, anyFolders]
    refine (Keeps.mapM (R := fun found => ∀ q ∈ found, ∃ dir n,
      q = (searchStart folder root).descend (dir ++ [n]) ∧ '/' ∉ n ∧
        d.get? (place ++ dir) = some .folder) ps fun p hp => ?_).bind
      fun found all => .pure fun q hq => ?_
    · obtain ⟨dir, at_, rfl, _, leads, inFolder⟩ := each p hp
      refine (keeps_select_name rooted.tree magic notAny _).weaken fun found all q hq => ?_
      obtain ⟨n, noSlash, rfl⟩ := all q hq
      refine ⟨dir, n, child_descend _ _ _, noSlash, ?_⟩
      rw [start_leads rooted leads] at inFolder
      rcases inFolder with rfl | found
      · simpa using rooted.isFolder
      · exact found
    · have mem : q ∈ found.flatten := by
        split at hq
        · exact List.mem_eraseDups.mp hq
        · exact hq
      obtain ⟨part, inside, here⟩ := List.mem_flatten.mp mem
      exact all part inside q here
  · exact .nothing

end Matching

end Workspace

end SchedulingNoise
