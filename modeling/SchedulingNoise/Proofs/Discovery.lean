import SchedulingNoise.Config.Check
import SchedulingNoise.Proofs.History
import SchedulingNoise.Proofs.Matching
import SchedulingNoise.Proofs.Stores

/-! Sources and backups under any configuration that is accepted. Extensions and the suffix are
checked one by one, so a backup may be named like a source; where that cannot be, no search mixes
the two, and reverting what was never backed up changes nothing. -/
namespace SchedulingNoise
open Disk

namespace Members

theorem get?_set (ms : Members) (name : RawText) (v : Json) (key : Text) :
    get? (set ms name v) key = if name = .ofText key then some v else get? ms key := by
  unfold get?
  induction ms with
  | nil => by_cases h : name = .ofText key <;> simp [set, h]
  | cons m rest ih =>
    unfold set
    by_cases here : m.1 = name
    · by_cases h : name = .ofText key
      · simp [here, h]
      · simp [here, h]
    · rw [if_neg here]
      by_cases h : name = .ofText key
      · have other : ¬ m.1 = .ofText key := fun eq => here (eq.trans h.symm)
        simpa [h, other] using ih
      · by_cases found : m.1 = .ofText key
        · simp [h, found]
        · simpa [h, found] using ih

theorem get?_update {new : Members} (distinct : (new.map (·.1)).Nodup) (old : Members)
    (key : Text) :
    get? (update old new) key = (get? new key).or (get? old key) := by
  induction new generalizing old with
  | nil => rfl
  | cons m rest ih =>
    rw [List.map_cons, List.nodup_cons] at distinct
    have step : update old (m :: rest) = update (set old m.1 m.2) rest := rfl
    rw [step, ih distinct.2, get?_set]
    by_cases here : m.1 = .ofText key
    · have none : get? rest key = none := by
        unfold get?
        rw [Option.map_eq_none_iff, List.find?_eq_none]
        intro m' hm' same
        rw [decide_eq_true_eq] at same
        exact distinct.1 (here.trans same.symm ▸ List.mem_map_of_mem hm')
      have first : get? (m :: rest) key = some m.2 := by simp [get?, here]
      rw [if_pos here, none, first]
      rfl
    · have later : get? (m :: rest) key = get? rest key := by simp [get?, here]
      rw [if_neg here, later]

end Members

namespace Config

def NamesSource (c : Config) (n : Text) : Prop :=
  ∃ extensions, c.extensions = .ok extensions ∧ Text.lower (Path.suffixOf n) ∈ extensions

def NamesBackup (c : Config) (n : Text) : Prop :=
  ∃ suffix, c.suffix = .ok suffix ∧ suffix.toText <:+ n

/-- The suffix of backups does not end with an extension of sources. Any other name would do in
place of the underscore. -/
def Apart (c : Config) : Prop :=
  ∀ suffix, c.suffix = .ok suffix → ¬ c.NamesSource ('_' :: suffix.toText)

/-- The defaults, updated with an object that nothing is wrong with. -/
def Accepted (c : Config) : Prop :=
  ∃ ms : Members, (ms.map (·.1)).Nodup ∧ complaints (.object ms) = [] ∧ c = default.update ms

def Dotted (c : Config) : Prop :=
  ∃ suffix x rest, c.suffix = .ok suffix ∧ suffix.toText = '.' :: x :: rest

theorem Accepted.dotted {c : Config} (accepted : c.Accepted) : c.Dotted := by
  obtain ⟨ms, distinct, sound, rfl⟩ := accepted
  have checked : checkSuffix ms = [] := by
    simp only [complaints, List.append_eq_nil_iff] at sound
    exact sound.1.2
  unfold Dotted Config.suffix Config.get Config.get? update
  rw [Members.get?_update distinct]
  unfold checkSuffix at checked
  split at checked
  · rename_i absent
    rw [absent]
    exact ⟨_, 'c', "ontender".toList, rfl, rfl⟩
  · rename_i x rest found
    rw [found]
    exact ⟨_, x.toChar, rest.map CodePoint.toChar, rfl, rfl⟩
  · cases checked

theorem Apart.not_source {c : Config} (apart : c.Apart) (dotted : c.Dotted) {suffix : RawText}
    (h : c.suffix = .ok suffix) {n : Text} (hn : n ≠ []) :
    ¬ c.NamesSource (n ++ suffix.toText) := by
  rintro ⟨extensions, known, mem⟩
  obtain ⟨suffix', x, rest, given, eq⟩ := dotted
  rw [h] at given
  cases given
  rw [Path.suffixOf_append hn (eq ▸ List.mem_cons_self)] at mem
  exact apart suffix h ⟨extensions, known, mem⟩

end Config

theorem Path.withName_eq_ok {p q : Path} {n : Text} (h : p.withName n = .ok q) :
    q = ⟨p.anchor, p.parts.dropLast ++ [n]⟩ ∧ p.name ≠ [] ∧ (names n).length = 1 ∧
      n.getLast? ≠ some '/' := by
  unfold withName at h
  split at h
  · cases h
  · rename_i named
    split at h
    · cases h
    · rename_i fits
      cases h
      simp only [Bool.or_eq_true, decide_eq_true_eq, not_or, ne_eq, not_not] at fits
      exact ⟨rfl, by simpa using named, fits.2, fits.1.2⟩

theorem Path.name_withName {p q : Path} {n : Text} (h : p.withName n = .ok q) : q.name = n := by
  rw [(Path.withName_eq_ok h).1]
  simp [Path.name]

theorem backupPath_eq_ok {c : Config} {p saved : Path} (h : Workspace.backupPath c p = .ok saved) :
    ∃ suffix, c.suffix = .ok suffix ∧ p.withName (p.name ++ suffix.toText) = .ok saved := by
  obtain ⟨suffix, given, named⟩ := bind_eq_ok.mp h
  exact ⟨suffix, given, named⟩

theorem not_source_of_backupPath {c : Config} (apart : c.Apart) (dotted : c.Dotted) {p saved : Path}
    (h : Workspace.backupPath c p = .ok saved) : ¬ c.NamesSource saved.name := by
  obtain ⟨suffix, given, named⟩ := backupPath_eq_ok h
  rw [Path.name_withName named]
  exact apart.not_source dotted given (Path.withName_eq_ok named).2.1

namespace Workspace

variable {d : Disk} {folder place : Place} {c : Config}

theorem keeps_findSources_named (root : Path) :
    Keeps (Standing d folder) (findSources c (some root)) fun found =>
      ∀ p ∈ found, c.NamesSource p.name := by
  refine (keeps_searchRoot root).bind fun r _ => ?_
  cases r with
  | none => exact .nothing
  | some start =>
    refine keeps_require.bind fun extensions given => (keeps_isFile start).bind fun b _ => ?_
    have named : ∀ p, hasExtension extensions p = true → c.NamesSource p.name := fun p h =>
      ⟨extensions, given, by simpa [hasExtension, Path.suffix] using h⟩
    cases b with
    | true =>
      refine .pure fun p hp => ?_
      split at hp
      · rename_i ext
        exact List.mem_singleton.mp hp ▸ named start ext
      · cases hp
    | false =>
      refine keeps_get.bind fun w hw => (keeps_ask _ _).bind fun at_ _ => ?_
      refine (keeps_distinct [] _).bind fun found all => (keeps_note _).bind fun _ _ => .pure ?_
      exact fun p hp => named p (List.mem_filter.mp (all p hp)).2

section Restoring

def Lost (d : Disk) (folder : Place) (p : Path) : Prop := ∀ bs, d.node folder p ≠ .ok (.file bs)

theorem keeps_readBytes_lost {p : Path} (t : d.Tree) (lost : Lost d folder p) :
    Keeps (Standing d folder) (readBytes p) fun _ => False := by
  refine (keeps_ask p Disk.bytes).weaken fun bs h => ?_
  obtain ⟨n, found, read⟩ := bind_eq_ok.mp h
  have plain : n = .folder ∨ ∃ bs, n = .file bs := by
    obtain ⟨place, _, there⟩ := bind_eq_ok.mp found
    cases h : d.get? place with
    | none => simp [h] at there
    | some x =>
      rw [h] at there
      cases there
      exact t.node h
  rcases plain with rfl | ⟨bs, rfl⟩
  · cases read
  · exact lost bs found

theorem keeps_sameThing (p q : Path) : Keeps (Standing d folder) (sameThing p q) fun _ => True := by
  refine (keeps_requireSpelled p).bind fun _ _ => (keeps_requireSpelled q).bind fun _ _ => ?_
  refine keeps_get.bind fun w _ => ?_
  split <;> exact .pure True.intro

theorem keeps_copyFile_lost {p : Path} (t : d.Tree) (lost : Lost d folder p) (target : Path) :
    Keeps (Standing d folder) (copyFile p target) fun _ => False := by
  refine (keeps_attempt (keeps_isFolder target)).bind fun r _ => ?_
  refine (keeps_sameThing p _).bind fun same _ => ?_
  cases same with
  | true => exact .fail _ _
  | false => exact (keeps_readBytes_lost t lost).bind nofun

theorem keeps_copy_lost {p : Path} (t : d.Tree) (lost : Lost d folder p) (target : Path)
    (tries : Nat) (delay : Quantity) :
    Keeps (Standing d folder) (copy p target tries delay) fun b => b = false := by
  have once : ∀ expected, Keeps (Standing d folder) (copyOnce p target expected)
      fun b => b = false := fun _ => (keeps_copyFile_lost t lost target).bind nofun
  have each : ∀ expected left, Keeps (Standing d folder)
      (copyTries p target expected tries delay left) fun b => b = false := by
    intro expected left
    induction left with
    | zero => exact .pure rfl
    | succ left ih =>
      refine (keeps_orOnRefusal (once expected) fun f =>
        (keeps_note _).bind fun _ _ => .pure rfl).bind fun b hb => ?_
      cases hb
      dsimp only
      simp only [Bool.false_eq_true, if_false]
      split
      · exact ih
      · exact (keeps_pause delay).bind fun _ _ => ih
  have sized : Keeps (Standing d folder) (some <$> size p) fun _ => True := by
    rw [map_eq_pure_bind]
    exact (keeps_size p).bind fun _ _ => .pure True.intro
  refine (keeps_orOnRefusal sized fun f => (keeps_note _).bind fun _ _ =>
    .pure True.intro).bind fun expected _ => ?_
  cases expected with
  | none => exact .pure rfl
  | some n => exact each n tries

theorem keeps_restore_lost {p : Path} (t : d.Tree)
    (lost : ∀ saved, backupPath c p = .ok saved → Lost d folder saved) :
    Keeps (Standing d folder) (restore c p) fun b => b = false := by
  refine keeps_require.bind fun saved given => (keeps_exists? saved).bind fun b _ => ?_
  cases b with
  | false => exact (keeps_note _).bind fun _ _ => .pure rfl
  | true =>
    refine (keeps_copy_lost t (lost saved given) p _ _).bind fun copied none => ?_
    cases none
    exact .fail _ _

end Restoring

section Backups

theorem lost_of_self (t : d.Tree) {p : Path} (absolute : p.isAbsolute = true) {ns : List Text}
    (ends : p.steps = ns ++ [selfName]) : Lost d folder p := by
  intro bs file
  obtain ⟨at_, leads, found⟩ := node_eq_ok file
  have walked := walk_of_locate t absolute leads
  rw [ends] at walked
  rw [t.folder_of_walk_self rfl walked] at found
  cases found

theorem lost_below {root : Path} (rooted : Rooted d folder root place) {dir : List Text} {n : Text}
    (inFolder : d.get? (place ++ dir) = some .folder) (whole : n ≠ [] ∧ '/' ∉ n)
    (notSelf : n ≠ selfName) (notParent : n ≠ parentName)
    (free : ∀ bs, d.get? (place ++ dir ++ [n]) ≠ some (.file bs)) :
    Lost d folder ((searchStart folder root).descend (dir ++ [n])) := by
  have t := rooted.tree
  have names : ∀ m ∈ dir ++ [n], m ≠ [] ∧ '/' ∉ m := by
    intro m hm
    rcases List.mem_append.mp hm with hm | hm
    · have proper := (t.proper_of_mem inFolder (List.mem_append_right place hm)).1
      exact ⟨proper.nonempty, proper.noSlash⟩
    · exact List.mem_singleton.mp hm ▸ whole
  have real : ([] : Text) ∉ dir ++ [n] := fun mem => (names [] mem).1 rfl
  intro bs file
  obtain ⟨at_, leads, found⟩ := node_eq_ok file
  have absolute : ((searchStart folder root).descend (dir ++ [n])).isAbsolute = true :=
    Rooted.isAbsolute_start folder root
  have walked := walk_of_locate t absolute leads
  rw [Path.steps_descend_whole _ names, walk_through rooted.through_start _ real,
    walk_through (t.through_below inFolder) _ fun mem => real (List.mem_append_right dir mem),
    t.walk_name _ _ whole.1 notSelf notParent] at walked
  split at walked
  · cases walked
    exact free bs found
  · cases walked

/-- A name with a slash in it that passes for one name ends with a dot. -/
theorem steps_of_slash {n a b : Text} (eq : n = a ++ '/' :: b) (plain : '/' ∉ a) (nonempty : a ≠ [])
    (notSelf : a ≠ selfName) (single : (Path.names n).length = 1) (last : n.getLast? ≠ some '/') :
    ∃ ns, (Text.splitOn ['/'] n).filter (!·.isEmpty) = ns ++ [selfName] := by
  have absent : ¬ ['/'] <:+: a := fun h => plain (h.subset (List.mem_singleton_self _))
  have pieces : Text.splitOn ['/'] n = a :: Text.splitOn ['/'] b := by
    have cut := (Text.Separates.char '/').splitOn_append_sep absent b
    rwa [List.append_assoc, List.singleton_append, ← eq] at cut
  have dots : ∀ m ∈ Text.splitOn ['/'] b, m = [] ∨ m = selfName := by
    have kept : a ≠ ['.'] := notSelf
    rw [Path.names, pieces, List.filter_cons_of_pos (by simp [nonempty, kept]), List.length_cons,
      Nat.add_eq_right, List.length_eq_zero_iff, List.filter_eq_nil_iff] at single
    intro m hm
    have out := single m hm
    simp only [Bool.and_eq_true, Bool.not_eq_true', List.isEmpty_eq_false_iff, ne_eq,
      decide_eq_true_eq, not_and, not_not] at out
    by_cases h : m = []
    · exact .inl h
    · exact .inr (out h)
  obtain ⟨front, m, whole⟩ := (List.eq_nil_or_concat _).resolve_left (Text.splitOn_ne_nil ['/'] b)
  rw [List.concat_eq_append] at whole
  -- The last piece is not empty, or the name would end with a slash.
  have ends : m ≠ [] := by
    rintro rfl
    apply last
    have join : Text.join ['/'] (Text.splitOn ['/'] b) = b := Text.join_splitOn (by simp) b
    rw [whole] at join
    rw [eq, ← join]
    by_cases none : front = []
    · simp [none, Text.join, List.intercalate]
    · rw [Text.join_append_singleton _ none, List.append_nil, ← List.cons_append,
        ← List.append_assoc, List.getLast?_concat]
  have dot : m = selfName := (dots m (by simp [whole])).resolve_left ends
  refine ⟨(a :: front).filter (!·.isEmpty), ?_⟩
  rw [pieces, whole, dot, ← List.cons_append, List.filter_append]
  rfl

theorem steps_of_slashed {p saved : Path} {suffix : Text} (plain : '/' ∉ p.name)
    (slash : '/' ∈ suffix) (own : ∀ a b, suffix = a ++ '/' :: b → p.name ++ a ≠ selfName)
    (h : p.withName (p.name ++ suffix) = .ok saved) : ∃ ns, saved.steps = ns ++ [selfName] := by
  obtain ⟨eq, nonempty, single, last⟩ := Path.withName_eq_ok h
  obtain ⟨a, b, cut, before⟩ := List.eq_append_cons_of_mem slash
  have whole : p.name ++ suffix = (p.name ++ a) ++ '/' :: b := by rw [cut, List.append_assoc]
  obtain ⟨ns, ends⟩ := steps_of_slash whole (by simp [plain, before]) (by simp [nonempty])
    (own a b cut) single last
  refine ⟨p.parent.steps ++ ns, ?_⟩
  rw [eq, List.append_assoc, ← ends]
  simp [Path.steps, Path.parent]

theorem lost_of_slash (t : d.Tree) {p saved : Path} (absolute : p.isAbsolute = true)
    (plain : '/' ∉ p.name) {suffix rest : Text} {x : Char}
    (dotted : suffix = '.' :: x :: rest) (slash : '/' ∈ suffix)
    (h : p.withName (p.name ++ suffix) = .ok saved) : Lost d folder saved := by
  obtain ⟨eq, nonempty, _⟩ := Path.withName_eq_ok h
  have own : ∀ a b, suffix = a ++ '/' :: b → p.name ++ a ≠ selfName := by
    intro a b cut self
    have front : a ≠ [] := fun none => by simp [none, dotted] at cut
    have long := congrArg List.length self
    have := List.length_pos_iff.mpr nonempty
    have := List.length_pos_iff.mpr front
    simp only [List.length_append, selfName, List.length_cons, List.length_nil] at long
    omega
  obtain ⟨ns, steps⟩ := steps_of_slashed plain slash own h
  apply lost_of_self t _ steps
  rw [eq]
  exact absolute

section Lost

variable {root : Path} {suffix : RawText} {x : Char} {rest : Text}
  (rooted : Rooted d folder root place) (given : c.suffix = .ok suffix)
  (dotted : suffix.toText = '.' :: x :: rest)
  (free : ∀ dir n bs, n ≠ [] → d.get? (place ++ dir ++ [n ++ suffix.toText]) ≠ some (.file bs))
include rooted given dotted free

theorem keeps_matchesBelow_lost :
    Keeps (Standing d folder) (matchesBelow (searchStart folder root) ('*' :: suffix.toText))
      fun ps => ∀ b ∈ ps, ∀ p, b.withName (cutEnd b.name suffix.toText.length) = .ok p →
        ∀ saved, backupPath c p = .ok saved → Lost d folder saved := by
  have named : ∀ (p saved : Path), backupPath c p = .ok saved →
      p.withName (p.name ++ suffix.toText) = .ok saved := by
    intro p saved h
    obtain ⟨suffix', given', named⟩ := backupPath_eq_ok h
    rw [given] at given'
    cases given'
    exact named
  -- With a slash in the suffix the pattern has several names, and a backup is never where its
  -- path leads; without one the backups are names in the folders below the root.
  by_cases slash : '/' ∈ suffix.toText
  · refine (keeps_matchesBelow rooted.tree _ _).weaken fun ps along b hb p renamed saved h => ?_
    have absolute : p.isAbsolute = true := by
      rw [(Path.withName_eq_ok renamed).1]
      have start := Rooted.isAbsolute_start folder root
      unfold Path.isAbsolute at start ⊢
      rw [(along b hb).anchor]
      exact start
    have plain : '/' ∉ p.name := by
      rw [Path.name_withName renamed]
      exact fun mem => (along b hb).name (start_plain rooted) (cutEnd_subset _ _ mem)
    exact lost_of_slash rooted.tree absolute plain dotted slash (named p saved h)
  · refine (keeps_matchesBelow_name rooted dotted slash).weaken
      fun ps below b hb p renamed saved h => ?_
    obtain ⟨dir, n, rfl, plain, inFolder⟩ := below b hb
    have renamed' := (Path.withName_eq_ok renamed).1
    obtain ⟨eq, nonempty, _⟩ := Path.withName_eq_ok (named p saved h)
    have name := Path.name_withName renamed
    rw [name_descend] at name renamed'
    have saved_eq :
        saved = (searchStart folder root).descend (dir ++ [p.name ++ suffix.toText]) := by
      rw [eq, name, renamed']
      simp [Path.descend, ← List.append_assoc]
    have long : 2 < (p.name ++ suffix.toText).length := by
      have := List.length_pos_iff.mpr nonempty
      rw [List.length_append, dotted]
      simp only [List.length_cons]
      omega
    have noSlash : '/' ∉ p.name ++ suffix.toText := by
      rw [List.mem_append, not_or]
      exact ⟨fun mem => plain (cutEnd_subset _ _ (name ▸ mem)), slash⟩
    rw [saved_eq]
    refine lost_below rooted inFolder ⟨by simp [nonempty], noSlash⟩ (fun self => ?_) (fun up => ?_)
      fun bs => free dir p.name bs nonempty
    · rw [self] at long
      exact absurd long (by decide)
    · rw [up] at long
      exact absurd long (by decide)

theorem keeps_findBackedUp_lost :
    Keeps (Standing d folder) (findBackedUp c (some root)) fun paths => ∀ p ∈ paths, ∀ saved,
      backupPath c p = .ok saved → Lost d folder saved := by
  refine (keeps_searchRoot root).bind fun r hr => ?_
  cases r with
  | none => exact .nothing
  | some start =>
    have start_eq := (hr start rfl).trans (searchStart_eq rooted)
    subst start_eq
    refine (keeps_isFile _).bind fun b hb => ?_
    cases b with
    | true =>
      obtain ⟨x, found, noFolder⟩ := hb rfl
      obtain ⟨at_, leads, there⟩ := bind_eq_ok.mp found
      rw [start_leads rooted leads, rooted.isFolder] at there
      cases there
      exact absurd rfl noFolder
    | false =>
      refine keeps_require.bind fun suffix' given' => ?_
      rw [given] at given'
      cases given'
      refine (keeps_matchesBelow_lost rooted given dotted free).bind fun ps lost => ?_
      refine (Keeps.filterM ps fun b _ => (keeps_isFile b).trivial).bind fun backups inside => ?_
      refine keeps_require.bind fun sources renamed => .pure fun p hp => ?_
      have mem := (sortBy_perm Path.le sources).mem_iff.mp hp
      obtain ⟨b, hb, made⟩ := exists_of_mem_right (mapM_eq_ok.mp renamed) mem
      exact lost b (inside b hb) p made

end Lost

end Backups

end Workspace

namespace Run

variable {d : Disk} {folder place : Place} {root : Path} {s : RunSettings}

theorem keeps_revertFile_lost {p : Path} (t : d.Tree)
    (lost : ∀ saved, Workspace.backupPath s.config p = .ok saved → Workspace.Lost d folder saved) :
    Keeps (Standing d folder) (revertFile s p) fun _ => True := by
  refine (keeps_attempt (keeps_inWorkspace (Workspace.keeps_restore_lost t lost))).bind
    fun r _ => ?_
  split
  · exact (keeps_count _).bind fun _ _ => (keeps_emit _).bind fun _ _ => .pure True.intro
  · exact .pure True.intro
  · exact (keeps_note _).bind fun _ _ => (keeps_emit _).bind fun _ _ =>
      (keeps_count _).bind fun _ _ => .pure True.intro
  · exact .fail _ _

theorem keeps_revertAll_lost {paths : List Path} (t : d.Tree) (lost : ∀ p ∈ paths, ∀ saved,
      Workspace.backupPath s.config p = .ok saved → Workspace.Lost d folder saved) :
    Keeps (Standing d folder) (revertAll s paths) fun _ => True := by
  induction paths with
  | nil => exact .pure True.intro
  | cons p rest ih =>
    refine (keeps_revertFile_lost t (lost p List.mem_cons_self)).bind fun done _ => ?_
    exact (ih fun q hq => lost q (List.mem_cons_of_mem p hq)).bind fun _ _ => .pure True.intro

end Run

/-- Under a configuration that is accepted and keeps the two apart, no backup of a source is found
as a source, and no source is the backup of a file that is found to have one; and reverting a tree
where only sources may be named like backups changes nothing. -/
theorem sources_apart_from_backups {c : Config} (accepted : c.Accepted) (apart : c.Apart)
    {w : Workspace} (calm : w.mishaps = []) (root : Path) :
    (∀ found w', Workspace.findSources c (some root) w = .ok found w' →
      (∀ s ∈ found, ∀ saved, Workspace.backupPath c s = .ok saved → saved ∉ found) ∧
      ∀ paths w'', Workspace.findBackedUp c (some root) w = .ok paths w'' →
        ∀ s ∈ found, ∀ p ∈ paths, Workspace.backupPath c p ≠ .ok s) ∧
    ∀ (place : Place) (settings : RunSettings) (session : Session),
      Rooted w.disk w.folder root place → settings.config = c → session.emitter.file = none →
      (∀ dir n bs, w.disk.get? (place ++ dir ++ [n]) = some (.file bs) →
        c.NamesBackup n → c.NamesSource n) →
      (stateAfter (Run.revert settings root) ⟨w, session⟩).workspace.disk = w.disk := by
  have standing : Workspace.Standing w.disk w.folder w := ⟨rfl, rfl, calm⟩
  have dotted := accepted.dotted
  constructor
  · intro found w' searched
    have named := Workspace.keeps_findSources_named (c := c) root w standing
    rw [searched] at named
    constructor
    · intro s hs saved h mem
      exact not_source_of_backupPath apart dotted h (named.2 saved mem)
    · intro paths w'' _ s hs p hp h
      exact not_source_of_backupPath apart dotted h (named.2 s hs)
  · rintro place settings session rooted rfl events onlySources
    have searched : Keeps (Workspace.Standing w.disk w.folder)
        (Workspace.findBackedUp settings.config (some root)) fun paths => ∀ p ∈ paths, ∀ saved,
          Workspace.backupPath settings.config p = .ok saved →
            Workspace.Lost w.disk w.folder saved := by
      obtain ⟨suffix, x, rest, given, eq⟩ := accepted.dotted
      refine Workspace.keeps_findBackedUp_lost rooted given eq fun dir n bs hn file => ?_
      exact apart.not_source dotted given hn
        (onlySources dir _ bs file ⟨suffix, given, List.suffix_append n suffix.toText⟩)
    have kept : Keeps (Run.Standing w.disk w.folder) (Run.revert settings root) fun _ => True :=
      (Run.keeps_inWorkspace searched).bind fun paths lost =>
        Run.keeps_revertAll_lost rooted.tree lost
    exact (kept.stateAfter (s := ⟨w, session⟩) ⟨standing, events⟩).1.1

section Witness

def bakConfig : Config := Config.default.update [Json.named Config.suffixKey (.text ".bak".toList)]

theorem bakConfig_accepted : bakConfig.Accepted :=
  ⟨[Json.named Config.suffixKey (.text ".bak".toList)], by simp, rfl, rfl⟩

theorem bakConfig_extensions : bakConfig.extensions = .ok [".java".toList] := by decide +kernel

theorem bakConfig_apart : bakConfig.Apart := by
  intro suffix given
  cases given
  rintro ⟨extensions, known, mem⟩
  rw [bakConfig_extensions] at known
  cases known
  revert mem
  decide

theorem smallTree_searched : bakConfig.Accepted ∧ bakConfig.Apart ∧
    (Workspace.findSources bakConfig (some (.ofText "/w".toList))).run' smallSituation.workspace =
      some [.ofText "/w/A.java".toList] ∧
    (∀ found w', Workspace.findSources bakConfig (some (.ofText "/w".toList))
        smallSituation.workspace = .ok found w' →
      ∀ s ∈ found, ∀ saved, Workspace.backupPath bakConfig s = .ok saved → saved ∉ found) ∧
    (stateAfter (Run.revert { config := bakConfig } (.ofText "/w".toList))
      smallSituation).workspace.disk = smallTree := by
  have whole := sources_apart_from_backups bakConfig_accepted bakConfig_apart
    (w := smallSituation.workspace) rfl (.ofText "/w".toList)
  refine ⟨bakConfig_accepted, bakConfig_apart, by decide +kernel,
    fun found w' searched => (whole.1 found w' searched).1, ?_⟩
  refine whole.2 ["w".toList] _ _ smallTree_site.toRooted rfl rfl fun dir n bs file _ => ?_
  rw [List.append_assoc] at file
  rcases smallTree_places file with eq | eq
  · simp at eq
  · obtain ⟨_, same⟩ := List.append_inj' (show dir ++ [n] = [] ++ ["A.java".toList] from eq) rfl
    cases same
    exact ⟨_, bakConfig_extensions, by decide⟩

end Witness

def javaConfig : Config :=
  Config.default.update [Json.named Config.suffixKey (.text ".java".toList)]

theorem javaConfig_backup_found : javaConfig.Accepted ∧
    (do
      let saved ← Workspace.backUp javaConfig (.ofText "/w/A.java".toList)
      let found ← Workspace.findSources javaConfig (some (.ofText "/w".toList))
      pure (decide (saved ∈ found)) : Act Bool).run' smallSituation.workspace = some true :=
  ⟨⟨[Json.named Config.suffixKey (.text ".java".toList)], by simp, rfl, rfl⟩, by decide +kernel⟩

end SchedulingNoise
