import SchedulingNoise.Proofs.Places

namespace SchedulingNoise.Disk

def guide (d : Disk) (p : Place) : Option Node :=
  match d.get? p with
  | some .folder => some .folder
  | some (.link t) => some (.link t)
  | _ => none

structure OwnName (n : Text) : Prop where
  nonempty : n ≠ []
  notSelf : n ≠ selfName
  notParent : n ≠ parentName

theorem name_cases (n : Text) : (n = selfName ∨ n = []) ∨ n = parentName ∨ OwnName n := by
  by_cases dot : n = selfName ∨ n = []
  · exact .inl dot
  · by_cases up : n = parentName
    · exact .inr (.inl up)
    · exact .inr (.inr ⟨fun eq => dot (.inr eq), fun eq => dot (.inl eq), up⟩)

def barrier (d : Disk) (p : Place) : Errno := if d.get? p = none then .notFound else .notDirectory

theorem walk_dot {n : Text} (d : Disk) (ending : Ending) (cur : Place) (rest : List Text)
    (dot : n = selfName ∨ n = []) : d.walk ending cur (n :: rest) = d.walk ending cur rest := by
  rw [walk, if_pos (by simpa using dot)]

theorem walk_up (d : Disk) (ending : Ending) (cur : Place) (rest : List Text) :
    d.walk ending cur (parentName :: rest) = d.walk ending cur.dropLast rest := by
  rw [walk, if_neg (by decide), if_pos rfl]

theorem walk_own {n : Text} (d : Disk) (ending : Ending) (cur : Place) (rest : List Text)
    (own : OwnName n) : d.walk ending cur (n :: rest) =
      if ending = .make && rest = [[]] then .stuck .isDirectory
      else if maxNameBytes < Utf8.size n then .stuck .nameTooLong
      else match d.guide (cur ++ [n]) with
        | some .folder => d.walk ending (cur ++ [n]) rest
        | some (.link t) =>
          if rest.isEmpty && ending = .stay then .here (cur ++ [n])
          else .jump (linkStart cur t) (linkNames t ++ rest)
        | _ => if rest.isEmpty then .here (cur ++ [n]) else .stuck (d.barrier (cur ++ [n])) := by
  obtain ⟨nonempty, notSelf, notParent⟩ := own
  rw [walk, if_neg (by simp [nonempty, notSelf]), if_neg notParent]
  unfold guide barrier
  cases d.get? (cur ++ [n]) with
  | none => rfl
  | some x => cases x <;> rfl

/-- Two disks with the same folders and links. -/
def Ways (d d' : Disk) : Prop := ∀ p, d'.guide p = d.guide p

namespace Ways

variable {d d' d'' : Disk}

theorem refl (d : Disk) : Ways d d := fun _ => rfl

theorem symm (h : Ways d d') : Ways d' d := fun p => (h p).symm

theorem trans (h : Ways d d') (h' : Ways d' d'') : Ways d d'' := fun p => (h' p).trans (h p)

theorem put {p : Place} (below : p ≠ []) (plain : d.guide p = none) (bs : Bytes) :
    Ways d (d.put p (.file bs)) := by
  intro q
  unfold guide
  rw [get?_put below]
  by_cases same : q = p
  · rw [if_pos same, same]
    exact plain.symm
  · rw [if_neg same]

theorem erase {p : Place} (below : p ≠ []) (plain : d.guide p = none) : Ways d (d.erase p) := by
  intro q
  unfold guide
  rw [get?_erase below]
  by_cases same : q = p
  · rw [if_pos same, same]
    exact plain.symm
  · rw [if_neg same]

theorem walk (h : Ways d d') (ending : Ending) (cur : Place) (names : List Text)
    (on : ∀ e, d.walk ending cur names ≠ .stuck e) :
    d'.walk ending cur names = d.walk ending cur names := by
  induction names generalizing cur with
  | nil => rfl
  | cons n rest ih =>
    obtain dot | rfl | own := name_cases n
    · rw [walk_dot d' _ _ _ dot, walk_dot d _ _ _ dot]
      rw [walk_dot d _ _ _ dot] at on
      exact ih cur on
    · rw [walk_up, walk_up]
      rw [walk_up] at on
      exact ih _ on
    · rw [walk_own d' _ _ _ own, walk_own d _ _ _ own, h]
      rw [walk_own d _ _ _ own] at on
      split
      · rfl
      · rename_i make
        rw [if_neg make] at on
        split
        · rfl
        · rename_i short
          rw [if_neg short] at on
          split
          · rename_i folder
            rw [folder] at on
            exact ih _ on
          · rfl
          · rename_i noFolder noLink
            split
            · rfl
            · rename_i more
              exfalso
              refine on (d.barrier (cur ++ [n])) ?_
              rw [if_neg more]
              split
              · rename_i folder
                exact absurd folder noFolder
              · rename_i link
                exact absurd link (noLink _)
              · rfl

theorem walkLinks (h : Ways d d') {ending : Ending} {links : Nat} {cur p : Place}
    {names : List Text} (leads : d.walkLinks ending links cur names = .ok p) :
    d'.walkLinks ending links cur names = .ok p := by
  fun_induction Disk.walkLinks d ending links cur names with
  | case1 links cur names q here =>
    rw [Disk.walkLinks, h.walk _ _ _ (by simp [here]), here]
    exact leads
  | case2 => cases leads
  | case3 => cases leads
  | case4 cur names q todo jumped links ih =>
    rw [Disk.walkLinks, h.walk _ _ _ (by simp [jumped]), jumped]
    exact ih leads

theorem locate (h : Ways d d') {ending : Ending} {folder q : Place} {p : Path}
    (leads : d.locate ending folder p = .ok q) : d'.locate ending folder p = .ok q := by
  unfold Disk.locate at leads ⊢
  split at leads
  · cases leads
  · rename_i short
    rw [if_neg short]
    exact h.walkLinks leads

end Ways

/-- A path that leads to one place for whatever it is asked, or nowhere. -/
def Slot (d : Disk) (folder : Place) (p : Path) (q : Place) : Prop :=
  (∀ ending, d.locate ending folder p = .ok q) ∨ ∀ ending, ∃ e, d.locate ending folder p = .error e

namespace Slot

variable {d : Disk} {folder q : Place} {p : Path}

theorem leads (h : Slot d folder p q) {ending : Ending} {x : Place}
    (found : d.locate ending folder p = .ok x) :
    x = q ∧ ∀ ending, d.locate ending folder p = .ok q := by
  rcases h with leads | lost
  · rw [leads ending] at found
    exact ⟨(Except.ok.inj found).symm, leads⟩
  · obtain ⟨e, none⟩ := lost ending
    rw [none] at found
    cases found

end Slot

def pass (d : Disk) : Place → List Text → Step
  | cur, [] => .here cur
  | cur, n :: rest =>
    if n = selfName || n.isEmpty then d.pass cur rest
    else if n = parentName then d.pass cur.dropLast rest
    else if maxNameBytes < Utf8.size n then .stuck .nameTooLong
    else match d.guide (cur ++ [n]) with
      | some .folder => d.pass (cur ++ [n]) rest
      | some (.link t) => .jump (linkStart cur t) (linkNames t ++ rest)
      | _ => .stuck (d.barrier (cur ++ [n]))

def passLinks (d : Disk) : (links : Nat) → Place → List Text → Except Errno Place
  | links, cur, todo =>
    match d.pass cur todo with
    | .here p => .ok p
    | .stuck e => .error e
    | .jump p todo =>
      match links with
      | 0 => .error .tooManyLinks
      | links + 1 => d.passLinks links p todo

variable {d : Disk} {m : Text}

theorem pass_dot {n : Text} (cur : Place) (rest : List Text) (dot : n = selfName ∨ n = []) :
    d.pass cur (n :: rest) = d.pass cur rest := by
  rw [pass, if_pos (by simpa using dot)]

theorem pass_up (cur : Place) (rest : List Text) :
    d.pass cur (parentName :: rest) = d.pass cur.dropLast rest := by
  rw [pass, if_neg (by decide), if_pos rfl]

theorem pass_own {n : Text} (cur : Place) (rest : List Text) (own : OwnName n) :
    d.pass cur (n :: rest) =
      if maxNameBytes < Utf8.size n then .stuck .nameTooLong
      else match d.guide (cur ++ [n]) with
        | some .folder => d.pass (cur ++ [n]) rest
        | some (.link t) => .jump (linkStart cur t) (linkNames t ++ rest)
        | _ => .stuck (d.barrier (cur ++ [n])) := by
  rw [pass, if_neg (by simp [own.nonempty, own.notSelf]), if_neg own.notParent]

theorem walk_snoc (hm : m ≠ []) (ending : Ending) (cur : Place) (names : List Text) :
    d.walk ending cur (names ++ [m]) =
      match d.pass cur names with
      | .here q => d.walk ending q [m]
      | .jump p todo => .jump p (todo ++ [m])
      | .stuck e => .stuck e := by
  induction names generalizing cur with
  | nil => rfl
  | cons n rest ih =>
    have last : rest ++ [m] ≠ [[]] := by
      intro eq
      have same := congrArg List.getLast? eq
      simp [hm] at same
    have notMake : ¬ (ending = .make && rest ++ [m] = [[]]) = true := by
      simp [last]
    rw [List.cons_append]
    obtain dot | rfl | own := name_cases n
    · rw [walk_dot d _ _ _ dot, pass_dot _ _ dot]
      exact ih cur
    · rw [walk_up, pass_up]
      exact ih _
    · rw [walk_own d _ _ _ own, pass_own _ _ own, if_neg notMake]
      by_cases long : maxNameBytes < Utf8.size n
      · rw [if_pos long, if_pos long]
      · rw [if_neg long, if_neg long]
        cases d.guide (cur ++ [n]) with
        | none => simp
        | some x =>
          cases x with
          | folder => exact ih _
          | link t => simp
          | file bs => simp
          | stream bs => simp

theorem walk_last (own : OwnName m) {ending : Ending} {q : Place}
    (plain : ending = .stay ∨ ∀ t, d.guide (q ++ [m]) ≠ some (.link t)) :
    d.walk ending q [m] =
      if maxNameBytes < Utf8.size m then .stuck .nameTooLong else .here (q ++ [m]) := by
  rw [walk_own d _ _ _ own, if_neg (by simp)]
  split
  · rfl
  · split
    · rfl
    · rename_i t link
      rcases plain with rfl | plain
      · rfl
      · exact absurd link (plain t)
    · rfl

/-- Where a path leads is said by its last name and the folder of the others. -/
theorem walkLinks_snoc (own : OwnName m) (ending : Ending) (links : Nat) (cur : Place)
    (names : List Text) :
    (∃ e, d.passLinks links cur names = .error e ∧
      d.walkLinks ending links cur (names ++ [m]) = .error e) ∨
    ∃ q, d.passLinks links cur names = .ok q ∧
      ((ending = .stay ∨ ∀ t, d.guide (q ++ [m]) ≠ some (.link t)) →
        d.walkLinks ending links cur (names ++ [m]) =
          if maxNameBytes < Utf8.size m then .error .nameTooLong else .ok (q ++ [m])) := by
  fun_induction passLinks d links cur names with
  | case1 links cur names q here =>
    refine .inr ⟨q, rfl, fun plain => ?_⟩
    rw [walkLinks, walk_snoc own.nonempty, here]
    dsimp only
    rw [walk_last own plain]
    by_cases long : maxNameBytes < Utf8.size m
    · rw [if_pos long, if_pos long]
    · rw [if_neg long, if_neg long]
  | case2 links cur names e stuck =>
    refine .inl ⟨e, rfl, ?_⟩
    rw [walkLinks, walk_snoc own.nonempty, stuck]
  | case3 cur names p todo jumped =>
    refine .inl ⟨_, rfl, ?_⟩
    rw [walkLinks, walk_snoc own.nonempty, jumped]
  | case4 cur names p todo jumped links ih =>
    have step : d.walkLinks ending (links + 1) cur (names ++ [m]) =
        d.walkLinks ending links p (todo ++ [m]) := by
      rw [walkLinks, walk_snoc own.nonempty, jumped]
    rw [step]
    exact ih

structure PlainName (n : Text) : Prop extends OwnName n where
  noSlash : '/' ∉ n

theorem ProperName.plain {n : Text} (h : ProperName n) : PlainName n :=
  ⟨⟨h.nonempty, h.notSelf, h.notParent⟩, h.noSlash⟩

theorem steps_snoc (anchor : Anchor) (parts : List Text) (plain : PlainName m) :
    (Path.mk anchor (parts ++ [m])).steps = (Path.mk anchor parts).steps ++ [m] := by
  refine Path.steps_descend_whole ⟨anchor, parts⟩ fun n hn => ?_
  rw [List.mem_singleton.mp hn]
  exact ⟨plain.nonempty, plain.noSlash⟩

theorem slot_of_passed {anchor : Anchor} {parts : List Text} {folder place : Place}
    (plain : PlainName m)
    (passed : d.passLinks maxLinks (if (Path.mk anchor parts).isAbsolute then [] else folder)
      (Path.mk anchor parts).steps = .ok place)
    (noLink : ∀ t, d.guide (place ++ [m]) ≠ some (.link t)) :
    Slot d folder ⟨anchor, parts ++ [m]⟩ (place ++ [m]) := by
  have walked : ∀ ending, d.locate ending folder ⟨anchor, parts ++ [m]⟩ =
      if maxPathBytes < Utf8.size (Path.mk anchor (parts ++ [m])).text ∨
        maxNameBytes < Utf8.size m then .error .nameTooLong else .ok (place ++ [m]) := by
    intro ending
    unfold locate
    rw [steps_snoc _ _ plain]
    obtain ⟨e, lost, _⟩ | ⟨q, same, last⟩ := d.walkLinks_snoc plain.toOwnName ending maxLinks
      (if (Path.mk anchor parts).isAbsolute then [] else folder) (Path.mk anchor parts).steps
    · rw [lost] at passed
      cases passed
    · cases same.symm.trans passed
      have way := last (.inr noLink)
      by_cases long : maxPathBytes < Utf8.size (Path.mk anchor (parts ++ [m])).text
      · rw [if_pos long, if_pos (.inl long)]
      · rw [if_neg long]
        simp only [long, false_or]
        exact way
  by_cases long : maxPathBytes < Utf8.size (Path.mk anchor (parts ++ [m])).text ∨
      maxNameBytes < Utf8.size m
  · exact .inr fun ending => ⟨_, (walked ending).trans (if_pos long)⟩
  · exact .inl fun ending => (walked ending).trans (if_neg long)

theorem slot_beside {anchor : Anchor} {parts : List Text} {n : Text} {folder x : Place}
    (plain : PlainName n) (leads : d.locate .stay folder ⟨anchor, parts ++ [n]⟩ = .ok x) :
    ∃ place, x = place ++ [n] ∧ ∀ m, PlainName m →
      (∀ t, d.guide (place ++ [m]) ≠ some (.link t)) →
        Slot d folder ⟨anchor, parts ++ [m]⟩ (place ++ [m]) := by
  unfold locate at leads
  split at leads
  · cases leads
  · rw [steps_snoc _ _ plain] at leads
    obtain ⟨e, _, lost⟩ | ⟨place, passed, last⟩ := d.walkLinks_snoc plain.toOwnName .stay maxLinks
      (if (Path.mk anchor (parts ++ [n])).isAbsolute then [] else folder)
      (Path.mk anchor parts).steps
    · rw [lost] at leads
      cases leads
    · rw [last (.inl rfl)] at leads
      split at leads
      · cases leads
      · cases leads
        exact ⟨place, rfl, fun m plain' noLink => slot_of_passed plain' passed noLink⟩

/-- What leads on at each place is a folder: nothing stands in a file, and the working folder is
one. -/
structure Grounded (d : Disk) (folder : Place) : Prop where
  here : d.get? folder = some .folder
  above : ∀ p n x, d.get? (p ++ [n]) = some x → d.get? p = some .folder

def Step.Ends (d : Disk) (P : Place → Prop) : Step → Prop
  | .here q => P q
  | .jump p _ => d.get? p = some .folder
  | .stuck _ => True

namespace Grounded

variable {folder : Place}

theorem start (g : d.Grounded folder) (p : Path) :
    d.get? (if p.isAbsolute then [] else folder) = some .folder := by
  split
  · rfl
  · exact g.here

theorem up (g : d.Grounded folder) {cur : Place} (isFolder : d.get? cur = some .folder) :
    d.get? cur.dropLast = some .folder := by
  rcases List.eq_nil_or_concat cur with rfl | ⟨p, n, rfl⟩
  · exact isFolder
  · rw [List.concat_eq_append] at isFolder ⊢
    rw [List.dropLast_concat]
    exact g.above p n _ isFolder

theorem linkStart {cur : Place} (isFolder : d.get? cur = some .folder) (t : Text) :
    d.get? (linkStart cur t) = some .folder := by
  unfold Disk.linkStart
  split
  · rfl
  · exact isFolder

theorem folder_of_guide {p : Place} (h : d.guide p = some .folder) : d.get? p = some .folder := by
  unfold guide at h
  split at h
  · assumption
  · cases h
  · cases h

theorem pass (g : d.Grounded folder) (names : List Text) {cur : Place}
    (isFolder : d.get? cur = some .folder) :
    (d.pass cur names).Ends d (d.get? · = some .folder) := by
  induction names generalizing cur with
  | nil => exact isFolder
  | cons n rest ih =>
    obtain dot | rfl | own := name_cases n
    · rw [pass_dot _ _ dot]
      exact ih isFolder
    · rw [pass_up]
      exact ih (g.up isFolder)
    · rw [pass_own _ _ own]
      split
      · exact True.intro
      · split
        · rename_i seen
          exact ih (folder_of_guide seen)
        · exact linkStart isFolder _
        · exact True.intro

theorem passLinks (g : d.Grounded folder) {links : Nat} {cur q : Place} {names : List Text}
    (isFolder : d.get? cur = some .folder) (passed : d.passLinks links cur names = .ok q) :
    d.get? q = some .folder := by
  fun_induction Disk.passLinks d links cur names with
  | case1 links cur names p here =>
    have now := g.pass names isFolder
    rw [here] at now
    cases passed
    exact now
  | case2 => cases passed
  | case3 => cases passed
  | case4 cur names p todo jumped links ih =>
    have now := g.pass names isFolder
    rw [jumped] at now
    exact ih now passed

theorem walk (g : d.Grounded folder) {ending : Ending} (follows : ending ≠ .stay)
    (names : List Text) {cur : Place} (isFolder : d.get? cur = some .folder) :
    (d.walk ending cur names).Ends d fun q => ∀ t, d.guide q ≠ some (.link t) := by
  induction names generalizing cur with
  | nil =>
    intro t link
    rw [guide, isFolder] at link
    cases link
  | cons n rest ih =>
    obtain dot | rfl | own := name_cases n
    · rw [walk_dot d _ _ _ dot]
      exact ih isFolder
    · rw [walk_up]
      exact ih (g.up isFolder)
    · rw [walk_own d _ _ _ own]
      split
      · exact True.intro
      · split
        · exact True.intro
        · split
          · rename_i seen
            exact ih (folder_of_guide seen)
          · rw [if_neg (by simp [follows])]
            exact linkStart isFolder _
          · rename_i noLink
            split
            · exact fun t link => noLink t link
            · exact True.intro

theorem walkLinks (g : d.Grounded folder) {ending : Ending} (follows : ending ≠ .stay)
    {links : Nat} {cur q : Place} {names : List Text} (isFolder : d.get? cur = some .folder)
    (leads : d.walkLinks ending links cur names = .ok q) (t : Text) :
    d.guide q ≠ some (.link t) := by
  fun_induction Disk.walkLinks d ending links cur names with
  | case1 links cur names p here =>
    have now := g.walk follows names isFolder
    rw [here] at now
    cases leads
    exact now t
  | case2 => cases leads
  | case3 => cases leads
  | case4 cur names p todo jumped links ih =>
    have now := g.walk follows names isFolder
    rw [jumped] at now
    exact ih now leads

theorem locate (g : d.Grounded folder) {ending : Ending} (follows : ending ≠ .stay) {p : Path}
    {q : Place} (leads : d.locate ending folder p = .ok q) (t : Text) :
    d.guide q ≠ some (.link t) := by
  unfold Disk.locate at leads
  split at leads
  · cases leads
  · exact g.walkLinks follows (g.start p) leads t

end Grounded

theorem walkLinks_self (ending : Ending) (links : Nat) (cur : Place) (names : List Text) :
    d.walkLinks ending links cur (names ++ [selfName]) = d.passLinks links cur names := by
  have nonempty : selfName ≠ [] := by decide
  fun_induction passLinks d links cur names with
  | case1 links cur names q here =>
    rw [walkLinks, walk_snoc nonempty, here]
    rfl
  | case2 links cur names e stuck => rw [walkLinks, walk_snoc nonempty, stuck]
  | case3 cur names p todo jumped => rw [walkLinks, walk_snoc nonempty, jumped]
  | case4 cur names p todo jumped links ih =>
    rw [walkLinks, walk_snoc nonempty, jumped]
    exact ih

theorem Grounded.folder_of_self {folder : Place} (g : d.Grounded folder) {p : Path}
    {names : List Text} (self : p.steps = names ++ [selfName]) {ending : Ending} {q : Place}
    (leads : d.locate ending folder p = .ok q) :
    d.get? q = some .folder ∧ ∀ ending, d.locate ending folder p = .ok q := by
  unfold Disk.locate at leads ⊢
  rw [self] at leads ⊢
  split at leads
  · cases leads
  · rename_i short
    rw [walkLinks_self] at leads
    refine ⟨g.passLinks (g.start p) leads, fun ending => ?_⟩
    rw [if_neg short, walkLinks_self]
    exact leads

end SchedulingNoise.Disk
