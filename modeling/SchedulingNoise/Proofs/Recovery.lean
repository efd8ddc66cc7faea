import SchedulingNoise.Proofs.Discovery
import SchedulingNoise.Proofs.Restoring

/-! Reverting a tree. The files that have a backup are found in the order of their paths, so each
comes before its backup, and a revert gives all of them back what their backups held. -/
namespace SchedulingNoise
open Disk

namespace Workspace

variable {w : Workspace} {place : Place} {root : Path} {c : Config} {raw : RawText}
  {d : Disk} {start : Path} {suffix : Text} {x y : Recovery}

def Recovery.Due (d : Disk) (start : Path) (place : Place) (suffix : Text) (x : Recovery) : Prop :=
  ∃ dir n, Saved d place suffix dir n x.bytes ∧ x.path = start.descend (dir ++ [n]) ∧
    x.source = place ++ dir ++ [n] ∧ x.backup = place ++ dir ++ [n ++ suffix]

theorem exists_due {paths : List Path} (all : ∀ p ∈ paths, ∃ dir n bs,
      Saved d place suffix dir n bs ∧ p = start.descend (dir ++ [n])) :
    ∃ xs : List Recovery, xs.map (·.path) = paths ∧ ∀ x ∈ xs, x.Due d start place suffix := by
  induction paths with
  | nil => exact ⟨[], rfl, nofun⟩
  | cons p rest ih =>
    obtain ⟨dir, n, bs, saved, rfl⟩ := all p List.mem_cons_self
    obtain ⟨xs, rfl, each⟩ := ih fun q hq => all q (List.mem_cons_of_mem _ hq)
    refine ⟨⟨start.descend (dir ++ [n]), place ++ dir ++ [n], place ++ dir ++ [n ++ suffix], bs⟩ ::
      xs, rfl, fun x hx => ?_⟩
    rcases List.mem_cons.mp hx with rfl | hx
    · exact ⟨dir, n, saved, rfl, rfl, rfl⟩
    · exact each x hx

namespace Recovery.Due

theorem before (longer : suffix ≠ []) (hx : x.Due d start place suffix)
    (hy : y.Due d start place suffix) (le : x.path.le y.path) (other : x.path ≠ y.path) :
    x.Before y := by
  obtain ⟨dir, n, _, path, source, backup⟩ := hx
  obtain ⟨dir', n', _, path', source', backup'⟩ := hy
  rw [path, path'] at le other
  refine ⟨fun eq => ?_, fun eq => ?_, fun eq => ?_⟩
  · rw [source, source'] at eq
    obtain ⟨rfl, rfl⟩ := place_inj eq
    exact other rfl
  · rw [source, backup'] at eq
    obtain ⟨rfl, rfl⟩ := place_inj eq
    exact Path.not_le_extended start dir n' longer le
  · rw [backup, backup'] at eq
    obtain ⟨rfl, same⟩ := place_inj eq
    cases List.append_cancel_right same
    exact other rfl

end Recovery.Due

theorem spot_of_reached (t : w.disk.Tree) {p : Path} {S : Place} (reached : Reached w p S) :
    Spot w p S := by
  refine ⟨fun _ => .inl reached.leads, guide_ne_link fun t' link => ?_⟩
  rcases t.node link with folder | ⟨bs, file⟩
  · cases folder
  · cases file

theorem reached_name (base : w.disk.Base start place) {dir : List Text} {n : Text}
    (inFolder : w.disk.get? (place ++ dir) = some .folder) (proper : ProperName n)
    (fits : Fits start dir n) :
    Reached w (start.descend (dir ++ [n])) (place ++ dir ++ [n]) where
  spelled := Path.spelled_descend base.absolute base.spelled (base.proper_name inFolder proper)
  leads ending := by rw [base.locate_name ending w.folder inFolder proper, if_pos fits]

theorem Recovery.Due.ready (given : c.suffix = .ok raw)
    (reach : Reach w.disk w.folder root place)
    (due : x.Due w.disk (searchStart w.folder root) place raw.toText)
    (longer : raw.toText ≠ [])
    (free : ∀ dir n bs, Saved w.disk place raw.toText dir n bs → n ≠ [] ∧ n ≠ selfName ∧
      n ≠ parentName ∧ w.disk.get? (place ++ dir ++ [n]) ≠ some .folder) : x.Ready c w := by
  obtain ⟨dir, n, saved, path, source, backup⟩ := due
  obtain ⟨inFolder, whole, size⟩ := reach.base.tree.above saved
  obtain ⟨nonempty, notSelf, notParent, notFolder⟩ := free dir n x.bytes saved
  have short := reach.short (dir ++ [n ++ raw.toText]) _ (by rw [← List.append_assoc]; exact saved)
  have fits : Fits (searchStart w.folder root) dir (n ++ raw.toText) := ⟨short, size⟩
  have proper : ProperName n := ⟨nonempty, notSelf, notParent,
    fun mem => whole.noSlash (List.mem_append_left _ mem),
    fun mem => whole.noNull (List.mem_append_left _ mem)⟩
  have there := reached_name reach.base inFolder proper (fits.of_extended reach.base.absolute)
  have atBackup := reached_name reach.base inFolder whole fits
  have named : backupPath c x.path =
      .ok ((searchStart w.folder root).descend (dir ++ [n ++ raw.toText])) := by
    unfold backupPath
    rw [given, path, name_descend]
    exact withName_eq _ dir nonempty whole
  rw [← path, ← source] at there
  rw [← backup] at atBackup
  refine ⟨⟨_, named, atBackup, spot_of_reached reach.base.tree atBackup⟩, there,
    spot_of_reached reach.base.tree there, fun _ folder => ?_, fun eq => ?_⟩
  · obtain ⟨at_, leads, found⟩ := node_eq_ok folder
    rw [there.leads .enter] at leads
    cases leads
    rw [source] at found
    exact notFolder found
  · rw [backup, source] at eq
    exact longer (List.append_right_eq_self.mp (place_inj eq).2)

end Workspace

section Statement

open Workspace (Recovery)

/-- The events go to no file, or to one that is neither a backup nor has one and whose path has no
null character. -/
def EventsElsewhere (w : Workspace) (place : Place) (suffix : Text) (file : Option Path) : Prop :=
  ∀ p, file = some p → Char.ofNat 0 ∉ p.text ∧ ∀ q, w.disk.locate .make w.folder p = .ok q →
    ∀ dir n bs, Saved w.disk place suffix dir n bs →
      q ≠ place ++ dir ++ [n] ∧ q ≠ place ++ dir ++ [n ++ suffix]

/-- Every file that had a backup holds what the backup held, and the backups are gone, except for
those that had a backup themselves. -/
structure PutBack (d : Disk) (place : Place) (suffix : Text) (d' : Disk) : Prop where
  sources : ∀ dir n bs, Saved d place suffix dir n bs →
    d'.get? (place ++ dir ++ [n]) = some (.file bs)
  backups : ∀ dir n bs, Saved d place suffix dir n bs →
    (∀ bs', ¬ Saved d place suffix dir (n ++ suffix) bs') →
      d'.get? (place ++ dir ++ [n ++ suffix]) = none

variable {w : Workspace} {place : Place} {root start : Path} {suffix : Text} {xs : List Recovery}
  {file : Option Path}

theorem exists_due_of_saved (due : ∀ x ∈ xs, x.Due w.disk start place suffix)
    (all : ∀ dir n bs, Saved w.disk place suffix dir n bs →
      start.descend (dir ++ [n]) ∈ xs.map (·.path)) {dir : List Text} {n : Text} {bs : Bytes}
    (saved : Saved w.disk place suffix dir n bs) :
    ∃ x ∈ xs, x.source = place ++ dir ++ [n] ∧ x.backup = place ++ dir ++ [n ++ suffix] ∧
      x.bytes = bs := by
  obtain ⟨x, hx, path⟩ := List.mem_map.mp (all dir n bs saved)
  obtain ⟨dir', n', saved', path', source, backup⟩ := due x hx
  obtain ⟨rfl, rfl⟩ := descend_inj (path.symm.trans path')
  refine ⟨x, hx, source, backup, ?_⟩
  unfold Saved at saved saved'
  rw [saved] at saved'
  cases saved'
  rfl

theorem putBack_of_stores (due : ∀ x ∈ xs, x.Due w.disk start place suffix)
    (all : ∀ dir n bs, Saved w.disk place suffix dir n bs →
      start.descend (dir ++ [n]) ∈ xs.map (·.path)) {w' : Workspace}
    (stores : Workspace.Stores w (Recovery.settled xs) w') :
    PutBack w.disk place suffix w'.disk := by
  constructor
  · intro dir n bs saved
    obtain ⟨x, hx, source, _, rfl⟩ := exists_due_of_saved due all saved
    have back := stores.files _ (Recovery.mem_settled_source hx)
    rw [source] at back
    exact back
  · intro dir n bs saved own
    obtain ⟨x, hx, _, backup, _⟩ := exists_due_of_saved due all saved
    have gone := stores.files _ (Recovery.mem_settled_backup hx fun y hy eq => by
      obtain ⟨dir', n', saved', _, source', _⟩ := due y hy
      rw [source', backup] at eq
      obtain ⟨rfl, rfl⟩ := place_inj eq
      exact own _ saved')
    rw [backup] at gone
    exact gone

theorem elsewhere_of_due (t : w.disk.Tree) (due : ∀ x ∈ xs, x.Due w.disk start place suffix)
    (events : EventsElsewhere w place suffix file) {kept : Workspace.Contents}
    (aside : ∀ p, file = some p → ∀ q, w.disk.locate .make w.folder p = .ok q →
      ∀ f ∈ kept, f.1 ≠ q) : Run.Elsewhere w xs kept file := by
  intro p given
  obtain ⟨spelled, other⟩ := events p given
  refine ⟨spelled, fun q leads => ⟨guide_ne_link fun t' link => ?_, aside p given q leads⟩,
    fun q leads x hx => ?_⟩
  · rcases t.node link with folder | ⟨bs, file⟩
    · cases folder
    · cases file
  · obtain ⟨dir, n, saved, _, source, backup⟩ := due x hx
    obtain ⟨notSource, notBackup⟩ := other q leads dir n _ saved
    rw [source, backup]
    exact ⟨notSource.symm, notBackup.symm⟩

theorem ordered_of_due (longer : suffix ≠ []) (due : ∀ x ∈ xs, x.Due w.disk start place suffix)
    (sorted : (xs.map (·.path)).Pairwise (Path.le · ·)) (once : (xs.map (·.path)).Nodup) :
    xs.Pairwise Recovery.Before :=
  ((List.pairwise_map.mp sorted).and (List.pairwise_map.mp once)).imp_of_mem
    fun hx hy h => (due _ hx).before longer (due _ hy) h.1 h.2

section Reverting

variable {s : RunSettings} {session : Session} {w' : Workspace} {raw : RawText}
  (found : Workspace.findBackedUp s.config (some root) w = .ok (xs.map (·.path)) w')
  (same : Workspace.Same w w') (t : w.disk.Tree)
  (due : ∀ x ∈ xs, x.Due w.disk start place suffix) (ready : ∀ x ∈ xs, x.Ready s.config w)
  (ordered : xs.Pairwise Recovery.Before)
  (events : EventsElsewhere w place suffix session.emitter.file)
include found same t due ready ordered events

theorem revert_keeping (kept : Workspace.Contents)
    (holds : ∀ f ∈ kept, w.disk.get? f.1 = f.2.map Node.file)
    (apart : ∀ f ∈ kept, ∀ dir n bs, Saved w.disk place suffix dir n bs →
      f.1 ≠ place ++ dir ++ [n] ∧ f.1 ≠ place ++ dir ++ [n ++ suffix])
    (aside : ∀ p, session.emitter.file = some p → ∀ q,
      w.disk.locate .make w.folder p = .ok q → ∀ f ∈ kept, f.1 ≠ q) :
    (w.mishaps = [] → ∃ r, Run.revert s root ⟨w, session⟩ = .ok xs.length r) ∧
    ∀ r, Run.revert s root ⟨w, session⟩ = .ok xs.length r →
      Workspace.Stores w (Recovery.settled xs ++ kept) r.workspace := by
  refine Run.revert_ready found same ready ordered (fun f hf x hx => ?_)
    (elsewhere_of_due t due events aside) fun f hf => ?_
  · obtain ⟨dir, n, saved, _, source, backup⟩ := due x hx
    rw [source, backup]
    exact apart f hf dir n _ saved
  · rcases List.mem_append.mp hf with hf | hf
    · obtain ⟨x, hx, rfl⟩ := List.mem_map.mp hf
      obtain ⟨dir, n, saved, _, _, backup⟩ := due x hx
      rw [backup]
      exact saved
    · exact holds f hf

theorem revert_others {r : Run} (ended : Run.revert s root ⟨w, session⟩ = .ok xs.length r)
    {q : Place} (aside : ∀ p, session.emitter.file = some p →
      w.disk.locate .make w.folder p ≠ .ok q)
    (apart : ∀ dir n bs, Saved w.disk place suffix dir n bs →
      q ≠ place ++ dir ++ [n] ∧ q ≠ place ++ dir ++ [n ++ suffix]) :
    r.workspace.disk.get? q = w.disk.get? q := by
  have watched : ∀ now, w.disk.get? q = Option.map Node.file now →
      r.workspace.disk.get? q = Option.map Node.file now := by
    intro now holds
    have stores := (revert_keeping found same t due ready ordered events [(q, now)]
      (by simpa using holds) (by simpa using apart) fun p given place leads f hf => by
        cases List.mem_singleton.mp hf
        rintro rfl
        exact aside p given leads).2 r ended
    exact stores.files (q, now) (by simp)
  cases there : w.disk.get? q with
  | none => exact watched none there
  | some x =>
    rcases t.node there with rfl | ⟨bs, rfl⟩
    · -- A folder is seen on the ways through the disk, and these are as they were.
      have stores := (revert_keeping found same t due ready ordered events []
        (by simp) (by simp) (by simp)).2 r ended
      have guided : w.disk.guide q = some .folder := by
        unfold guide
        rw [there]
      exact Grounded.folder_of_guide ((stores.ways q).trans guided)
    · exact watched (some bs) there

end Reverting

/-- With an accepted suffix that stands for itself in a pattern, the files below a root that have a
backup are found, all of them, once each and in order; only a file that is named by the suffix
alone, or by a dot and the suffix, stops the search. Where the search answers, none of those files
is a folder and no step of a copy is refused for good, a revert puts all of them back and changes
nothing else. -/
theorem backups_found_and_put_back {c : Config} (accepted : c.Accepted) {raw : RawText}
    (given : c.suffix = .ok raw) (plain : '/' ∉ raw.toText) (literal : Glob.Literal raw.toText)
    {w : Workspace} {root : Path} {place : Place} (expanse : Expanse w.disk w.folder root place) :
    ((∃ dir n bs, (n = [] ∨ n = selfName) ∧ Saved w.disk place raw.toText dir n bs) →
      ∃ n w', (n = [] ∨ n = selfName) ∧
        Workspace.findBackedUp c (some root) w = .error (.invalidName n) w') ∧
    ((∀ dir n bs, Saved w.disk place raw.toText dir n bs → n ≠ [] ∧ n ≠ selfName) →
      ∃ paths w', Workspace.findBackedUp c (some root) w = .ok paths w' ∧
        paths.Pairwise (Path.le · ·) ∧ paths.Nodup ∧
        (∀ p, p ∈ paths ↔ ∃ dir n bs, Saved w.disk place raw.toText dir n bs ∧
          p = (searchStart w.folder root).descend (dir ++ [n])) ∧
        ∀ (settings : RunSettings) (session : Session), settings.config = c →
          EventsElsewhere w place raw.toText session.emitter.file →
          (∀ dir n bs, Saved w.disk place raw.toText dir n bs →
            n ≠ parentName ∧ w.disk.get? (place ++ dir ++ [n]) ≠ some .folder) →
          (w.mishaps = [] → ∃ r, Run.revert settings root ⟨w, session⟩ = .ok paths.length r) ∧
          ∀ r, Run.revert settings root ⟨w, session⟩ = .ok paths.length r →
            PutBack w.disk place raw.toText r.workspace.disk ∧
            ∀ q, (∀ p, session.emitter.file = some p →
                w.disk.locate .make w.folder p ≠ .ok q) →
              (∀ dir n bs, Saved w.disk place raw.toText dir n bs →
                q ≠ place ++ dir ++ [n] ∧ q ≠ place ++ dir ++ [n ++ raw.toText]) →
              r.workspace.disk.get? q = w.disk.get? q) := by
  have reach := expanse.reach
  have longer : raw.toText ≠ [] := by
    obtain ⟨suffix, x, rest, known, dotted⟩ := accepted.dotted
    cases given.symm.trans known
    rw [dotted]
    exact nofun
  constructor
  · rintro ⟨dir, n, bs, nameless, saved⟩
    obtain ⟨m, w', out, refused, _⟩ :=
      findBackedUp_refused given longer plain literal reach (Workspace.Same.refl w) saved nameless
    exact ⟨m, w', out, refused⟩
  · intro named
    obtain ⟨paths, w', found, same, sorted, once, mem⟩ :=
      findBackedUp_found given longer plain literal reach (Workspace.Same.refl w) named
    refine ⟨paths, w', found, sorted, once, mem, fun settings session config events free => ?_⟩
    subst config
    obtain ⟨xs, rfl, due⟩ := Workspace.exists_due fun p hp => (mem p).mp hp
    have ready : ∀ x ∈ xs, x.Ready settings.config w := fun x hx =>
      (due x hx).ready given reach longer fun dir n bs saved =>
        ⟨(named dir n bs saved).1, (named dir n bs saved).2, free dir n bs saved⟩
    have ordered := ordered_of_due longer due sorted once
    have whole := revert_keeping found same reach.base.tree due ready ordered events []
      (by simp) (by simp) (by simp)
    rw [List.length_map]
    refine ⟨whole.1, fun r ended => ⟨?_, fun q aside apart => ?_⟩⟩
    · have stores := whole.2 r ended
      rw [List.append_nil] at stores
      exact putBack_of_stores due
        (fun dir n bs saved => (mem _).mpr ⟨dir, n, bs, saved, rfl⟩) stores
    · exact revert_others found same reach.base.tree due ready ordered events ended aside apart

/-- A source, its backup and a backup of that. The first try to copy is refused. -/
def chainTree : Disk where
  entries := [(["w".toList], .folder), (["w".toList, "A.java".toList], .file [1]),
    (["w".toList, "A.java.contender".toList], .file [2]),
    (["w".toList, "A.java.contender.contender".toList], .file [3])]

def chainSituation : Run where
  workspace :=
    { disk := chainTree, folder := [], clock := ⟨"20260101".toList, 0⟩, epoch := 0
      mishaps := [.refused .busy (some [0])] }
  session := { generator := .script [] }

theorem chainTree_tree : chainTree.Tree := by decide +kernel

theorem chainTree_places {below : List Text} {x : Node}
    (h : chainTree.get? (["w".toList] ++ below) = some x) :
    (below = [] ∧ x = .folder) ∨ (below = ["A.java".toList] ∧ x = .file [1]) ∨
      (below = ["A.java.contender".toList] ∧ x = .file [2]) ∨
      (below = ["A.java.contender.contender".toList] ∧ x = .file [3]) := by
  have mem := Tree.mem_of_get? (by simp) h
  simpa only [chainTree, List.mem_cons, Prod.mk.injEq, List.singleton_append, List.cons.injEq,
    List.not_mem_nil, or_false, true_and] using mem

theorem chainTree_expanse : Expanse chainTree [] (.ofText "/w".toList) ["w".toList] := by
  refine ⟨⟨chainTree_tree, ⟨_, rfl⟩, by decide, rfl⟩, by decide, fun below x found => ?_⟩
  rcases chainTree_places found with ⟨rfl, _⟩ | ⟨rfl, _⟩ | ⟨rfl, _⟩ | ⟨rfl, _⟩ <;> decide

theorem chainTree_saved {dir : List Text} {n : Text} {bs : Bytes}
    (saved : Saved chainTree ["w".toList] Workspace.backupEnding dir n bs) :
    dir = [] ∧ (n = "A.java".toList ∨ n = "A.java.contender".toList) := by
  unfold Saved at saved
  rw [List.append_assoc] at saved
  have cut : ∀ m : Text, dir ++ [n ++ Workspace.backupEnding] = [m] →
      dir = [] ∧ n ++ Workspace.backupEnding = m := by
    intro m eq
    obtain ⟨none, one⟩ := List.append_inj' (eq.trans (List.nil_append [m]).symm) rfl
    exact ⟨none, List.singleton_inj.mp one⟩
  have name : ∀ m : Text, n ++ Workspace.backupEnding = m →
      n = Workspace.cutEnd m Workspace.backupEnding.length := by
    intro m eq
    rw [← eq]
    exact (cutEnd_append n (by decide)).symm
  rcases chainTree_places saved with ⟨eq, _⟩ | ⟨eq, _⟩ | ⟨eq, _⟩ | ⟨eq, _⟩
  · simp at eq
  · have long := congrArg List.length (cut _ eq).2
    have more : Workspace.backupEnding.length = 10 := by decide
    have few : "A.java".toList.length = 6 := by decide
    rw [List.length_append] at long
    omega
  · exact ⟨(cut _ eq).1, .inl (name _ (cut _ eq).2)⟩
  · exact ⟨(cut _ eq).1, .inr (name _ (cut _ eq).2)⟩

theorem chainTree_put_back :
    Expanse chainTree [] (.ofText "/w".toList) ["w".toList] ∧
    ∃ paths w' r, Workspace.findBackedUp .default (some (.ofText "/w".toList))
        chainSituation.workspace = .ok paths w' ∧
      paths = [.ofText "/w/A.java".toList, .ofText "/w/A.java.contender".toList] ∧
      Run.revert { config := .default } (.ofText "/w".toList) chainSituation = .ok 2 r ∧
      r.workspace.disk.get? ["w".toList, "A.java".toList] = some (.file [2]) ∧
      r.workspace.disk.get? ["w".toList, "A.java.contender".toList] = some (.file [3]) ∧
      r.workspace.disk.get? ["w".toList, "A.java.contender.contender".toList] = none := by
  have accepted : Config.default.Accepted := ⟨[], by simp, rfl, rfl⟩
  have given : Config.default.suffix = .ok (.ofText Workspace.backupEnding) :=
    Workspace.default_suffix
  have only : ∀ dir n bs, Saved chainTree ["w".toList] Workspace.backupEnding dir n bs →
      (n ≠ [] ∧ n ≠ selfName) ∧ n ≠ parentName ∧
        chainTree.get? (["w".toList] ++ dir ++ [n]) ≠ some .folder := by
    intro dir n bs saved
    obtain ⟨rfl, rfl | rfl⟩ := chainTree_saved saved
    · exact ⟨⟨by decide, by decide⟩, by decide, by decide⟩
    · exact ⟨⟨by decide, by decide⟩, by decide, by decide⟩
  obtain ⟨paths, w', found, _, _, _, reverts⟩ := (backups_found_and_put_back accepted given
    (by decide) (by decide) (w := chainSituation.workspace) chainTree_expanse).2
    fun dir n bs saved => (only dir n bs saved).1
  have listed : paths = [.ofText "/w/A.java".toList, .ofText "/w/A.java.contender".toList] := by
    have run : (Workspace.findBackedUp .default (some (.ofText "/w".toList))).run'
        chainSituation.workspace =
          some [.ofText "/w/A.java".toList, .ofText "/w/A.java.contender".toList] := by
      decide +kernel
    unfold EStateM.run' EStateM.run at run
    rw [found] at run
    exact Option.some.inj run
  have restores := (reverts { config := .default } chainSituation.session rfl nofun
    fun dir n bs saved => (only dir n bs saved).2).2
  have ended : (match Run.revert { config := .default } (.ofText "/w".toList) chainSituation with
      | .ok k _ => decide (k = 2)
      | .error _ _ => false) = true := by decide +kernel
  cases result : Run.revert { config := .default } (.ofText "/w".toList) chainSituation with
  | error f r =>
    rw [result] at ended
    cases ended
  | ok k r =>
    rw [result] at ended
    cases of_decide_eq_true ended
    rw [listed] at restores
    obtain ⟨put, _⟩ := restores r result
    refine ⟨chainTree_expanse, paths, w', r, found, listed, rfl, ?_, ?_, ?_⟩
    · exact put.sources [] "A.java".toList [2] rfl
    · exact put.sources [] "A.java.contender".toList [3] rfl
    · refine put.backups [] "A.java.contender".toList [3] rfl fun bs saved => ?_
      obtain ⟨_, eq | eq⟩ := chainTree_saved saved
      · exact absurd eq (by decide)
      · exact absurd eq (by decide)

def bracketConfig : Config :=
  Config.default.update [Json.named Config.suffixKey (.text ".[b]".toList)]

def loneSituation : Workspace where
  disk := ⟨[(["w".toList], .folder), (["w".toList, "A.java".toList], .file [1]),
    (["w".toList, "A.java.contender".toList], .file [2]),
    (["w".toList, "A.java.[b]".toList], .file [3]), (["w".toList, ".contender".toList], .file [4])]⟩
  folder := []
  clock := ⟨"20260101".toList, 0⟩
  epoch := 0

/-- One file stops the search for all backups, and with brackets in the suffix none is found. -/
theorem loneSituation_unfound :
    (Config.default.Accepted ∧
      (Workspace.hasBackup .default (.ofText "/w/A.java".toList)).run' loneSituation = some true ∧
      (match Workspace.findBackedUp .default (some (.ofText "/w".toList)) loneSituation with
        | .error (.invalidName n) _ => n.isEmpty
        | _ => false) = true) ∧
    bracketConfig.Accepted ∧
      (Workspace.hasBackup bracketConfig (.ofText "/w/A.java".toList)).run' loneSituation =
        some true ∧
      (Workspace.findBackedUp bracketConfig (some (.ofText "/w".toList))).run' loneSituation =
        some [] :=
  ⟨⟨⟨[], by simp, rfl, rfl⟩, by decide +kernel, by decide +kernel⟩,
    ⟨[Json.named Config.suffixKey (.text ".[b]".toList)], by simp, rfl, rfl⟩, by decide +kernel,
    by decide +kernel⟩

end Statement

end SchedulingNoise
