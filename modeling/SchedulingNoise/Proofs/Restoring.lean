import SchedulingNoise.Proofs.Telling

namespace SchedulingNoise
open Disk

namespace Workspace

variable {w₀ w : Workspace} {fs : Contents} {p q : Path} {S B : Place} {b : Bytes} {c : Config}

section Calm

theorem Stores.notFolder (h : Stores w₀ fs w) (there : Reached w₀ p S)
    (notFolder : NoFolder w₀ p) : w.disk.get? S ≠ some .folder := by
  intro folder
  have node : w.disk.node w.folder p = .ok .folder := by
    unfold Disk.node
    rw [h.leads there]
    simp only [bind, Except.bind, folder]
    rfl
  rw [h.folder] at node
  exact notFolder there.spelled (h.ways.node_folder node)

theorem Stores.isFolder_eq (h : Stores w₀ fs w) (there : Reached w₀ p S)
    (notFolder : NoFolder w₀ p) : isFolder p w = .ok false w := by
  have free := h.notFolder there notFolder
  have seen : w.disk.node w.folder p = (w.disk.get? S).elim (.error .notFound) .ok := by
    unfold Disk.node
    rw [h.leads there]
    simp only [bind, Except.bind]
    cases w.disk.get? S <;> rfl
  unfold isFolder
  cases found : w.disk.get? S with
  | none =>
    rw [found] at seen
    rw [bind_ok (node?_of_node there.spelled seen)]
    rfl
  | some x =>
    rw [found] at seen free
    rw [bind_ok (node?_of_node there.spelled seen)]
    have other : ¬ some x = some Node.folder := free
    simp only [decide_eq_false other]
    rfl

variable (calm : w.mishaps = []) (stores : Stores w₀ fs w) (file : (B, some b) ∈ fs)
  (saved : Reached w₀ q B) (there : Reached w₀ p S) (notFolder : NoFolder w₀ p) (other : B ≠ S)
include calm stores file saved there notFolder other

theorem copyFile_calm :
    copyFile q p w = .ok () { w with disk := w.disk.put S (.file b) } := by
  have free := stores.notFolder there notFolder
  have apart : sameThing q p w = .ok false w := by
    unfold sameThing
    rw [bind_ok (requireSpelled_eq saved.spelled), bind_ok (requireSpelled_eq there.spelled),
      bind_ok (get_eq w), stores.leads saved, stores.leads there]
    simp only [decide_eq_false other, Bool.false_and]
    rfl
  have written : w.disk.write w.folder p b = .ok (w.disk.put S (.file b)) := by
    unfold Disk.write
    rw [stores.leads there]
    simp only [bind, Except.bind]
    rfl
  have made : writeBytes p b w = .ok () { w with disk := w.disk.put S (.file b) } := by
    rw [writeBytes_eq calm, change_eq there.spelled, written]
  unfold copyFile
  rw [bind_ok (attempt_ok (stores.isFolder_eq there notFolder))]
  dsimp only
  rw [bind_ok apart]
  simp only [Bool.false_eq_true, if_false]
  rw [bind_ok (stores.readBytes_eq saved file)]
  unfold writeCopy
  rw [bind_ok (attempt_ok made)]
  rfl

theorem copy_calm (source : Spot w₀ p S) (apart : ∀ f ∈ fs, f.1 ≠ S) :
    (copy q p : Act Bool) w = .ok true { w with disk := w.disk.put S (.file b) } ∧
      Stores w₀ ((S, some b) :: fs) { w with disk := w.disk.put S (.file b) } := by
  have after := stores.put apart (stores.notFolder there notFolder) source.noLink b
  have sized : (some <$> size q : Act (Option Nat)) w = .ok (some b.length) w := by
    rw [map_eq_pure_bind, bind_ok (stores.size_eq saved file)]
    rfl
  have once : copyOnce q p b.length w = .ok true { w with disk := w.disk.put S (.file b) } := by
    unfold copyOnce
    rw [bind_ok (copyFile_calm calm stores file saved there notFolder other),
      bind_ok (after.size_eq there List.mem_cons_self)]
    simp only [if_true]
    rfl
  refine ⟨?_, after⟩
  unfold copy
  rw [bind_ok (orOnRefusal_ok sized _)]
  dsimp only
  unfold copyTries
  rw [bind_ok (orOnRefusal_ok once _)]
  rfl

end Calm

theorem restore_calm (calm : w.mishaps = []) (stores : Stores w₀ ((B, some b) :: fs) w)
    (given : backupPath c p = .ok q) (saved : Reached w₀ q B) (spot : Spot w₀ q B)
    (there : Reached w₀ p S) (source : Spot w₀ p S) (notFolder : NoFolder w₀ p) (other : B ≠ S)
    (apart : ∀ f ∈ fs, f.1 ≠ S ∧ f.1 ≠ B) :
    ∃ w', restore c p w = .ok true w' ∧ Stores w₀ ((B, none) :: (S, some b) :: fs) w' ∧
      w'.mishaps = [] := by
  have away : ∀ f ∈ (B, some b) :: fs, f.1 ≠ S := by
    intro f hf
    rcases List.mem_cons.mp hf with rfl | hf
    · exact other
    · exact (apart f hf).1
  have away' : ∀ f ∈ (S, some b) :: fs, f.1 ≠ B := by
    intro f hf
    rcases List.mem_cons.mp hf with rfl | hf
    · exact other.symm
    · exact (apart f hf).2
  obtain ⟨copied, after⟩ := copy_calm calm stores List.mem_cons_self saved there notFolder other
    source away
  have file : (w.disk.put S (.file b)).get? B = some (.file b) := after.files (B, some b) (by simp)
  have removed : unlink q { w with disk := w.disk.put S (.file b) } =
      .ok () { w with disk := (w.disk.put S (.file b)).erase B } := by
    have erased : (w.disk.put S (.file b)).unlink w.folder q =
        .ok ((w.disk.put S (.file b)).erase B) := by
      unfold Disk.unlink
      have leads := after.leads saved .stay
      dsimp only at leads
      rw [leads]
      simp only [bind, Except.bind, file]
      rfl
    rw [unlink_eq (by exact calm), change_eq saved.spelled]
    simp only [erased]
  have fewer : Stores w₀ ((S, some b) :: fs) { w with disk := w.disk.put S (.file b) } :=
    after.mono (by simp)
  have gone := fewer.erase away' (not_folder_of_file file) spot.noLink
  obtain ⟨w', noted, kept⟩ := note_then ⟨.info, s!"Reverted {p}"⟩ true
    (show Facing w₀ ((B, none) :: (S, some b) :: fs) [] _ from ⟨gone, calm⟩)
  refine ⟨w', ?_, kept⟩
  unfold restore
  rw [given, bind_ok (require_ok q w),
    bind_ok (exists?_of_node saved.spelled (stores.node_eq saved List.mem_cons_self))]
  simp only [Bool.not_true, Bool.false_eq_true, if_false]
  rw [bind_ok copied]
  simp only [if_true]
  rw [bind_ok removed]
  exact noted

def Quiet (w₀ : Workspace) (fs : Contents) (w : Workspace) : Prop :=
  Stores w₀ fs w ∧ (w₀.mishaps = [] → w.mishaps = [])

instance : Steady (Quiet w₀ fs) where
  same h same := ⟨Steady.same h.1 same, fun calm => same.mishaps.trans (h.2 calm)⟩

theorem Quiet.mono {fs' : Contents} (h : Quiet w₀ fs w) (fewer : fs' ⊆ fs) : Quiet w₀ fs' w :=
  ⟨h.1.mono fewer, h.2⟩

theorem Unheard.quiet {file : Option Path} (aside : ∀ p, file = some p → Aside w₀ fs p) :
    Unheard file (Quiet w₀ fs) :=
  .of_facing aside (fun _ h => h.1) fun _ _ hw h => ⟨h.1, fun calm => h.2.trans (hw.2 calm)⟩

/-- A file and what it is to get back. -/
structure Recovery where
  path : Path
  source : Place
  backup : Place
  bytes : Bytes

namespace Recovery

variable {x y : Recovery} {xs : List Recovery}

structure Ready (c : Config) (w₀ : Workspace) (x : Recovery) : Prop where
  saved : ∃ q, backupPath c x.path = .ok q ∧ Reached w₀ q x.backup ∧ Spot w₀ q x.backup
  there : Reached w₀ x.path x.source
  atSource : Spot w₀ x.path x.source
  notFolder : NoFolder w₀ x.path
  other : x.backup ≠ x.source

/-- One file can be put back before another one. -/
structure Before (x y : Recovery) : Prop where
  sources : x.source ≠ y.source
  kept : x.source ≠ y.backup
  backups : x.backup ≠ y.backup

def owed (xs : List Recovery) : Contents := xs.map fun x => (x.backup, some x.bytes)

/-- Where its backup was there is nothing, unless a later file takes that place. -/
def vacated (x : Recovery) (later : List Recovery) : Contents :=
  if later.any fun y => y.source = x.backup then [] else [(x.backup, none)]

def settled : List Recovery → Contents
  | [] => []
  | x :: later => (x.source, some x.bytes) :: (x.vacated later ++ settled later)

theorem mem_vacated {f : Place × Option Bytes} (mem : f ∈ x.vacated xs) :
    f = (x.backup, none) ∧ ∀ y ∈ xs, y.source ≠ x.backup := by
  unfold vacated at mem
  split at mem
  · cases mem
  · rename_i none
    simp only [List.any_eq_true, decide_eq_true_eq, not_exists, not_and] at none
    exact ⟨List.mem_singleton.mp mem, none⟩

theorem mem_settled_source (mem : x ∈ xs) : (x.source, some x.bytes) ∈ settled xs := by
  induction xs with
  | nil => cases mem
  | cons y rest ih =>
    rcases List.mem_cons.mp mem with rfl | mem
    · exact List.mem_cons_self
    · exact List.mem_cons_of_mem _ (List.mem_append_right _ (ih mem))

theorem mem_settled_backup (mem : x ∈ xs) (own : ∀ y ∈ xs, y.source ≠ x.backup) :
    (x.backup, none) ∈ settled xs := by
  induction xs with
  | nil => cases mem
  | cons y rest ih =>
    apply List.mem_cons_of_mem
    apply List.mem_append.mpr
    rcases List.mem_cons.mp mem with rfl | mem
    · have none : (rest.any fun y => y.source = x.backup) = false := by
        simpa using fun y hy => own y (List.mem_cons_of_mem _ hy)
      simp [vacated, none]
    · exact .inr (ih mem fun z hz => own z (List.mem_cons_of_mem y hz))

theorem leads_restore (ready : x.Ready c w₀)
    (apart : ∀ f ∈ fs, f.1 ≠ x.source ∧ f.1 ≠ x.backup) :
    Leads (Quiet w₀ ((x.backup, some x.bytes) :: fs)) (restore c x.path)
      (fun done w => done = true ∧ Quiet w₀ ((x.backup, none) :: (x.source, some x.bytes) :: fs) w)
      (fun _ => w₀.mishaps ≠ []) := by
  obtain ⟨q, given, saved, spot⟩ := ready.saved
  intro w hw
  by_cases calm : w₀.mishaps = []
  · obtain ⟨w', restored, after, quiet⟩ := restore_calm (hw.2 calm) hw.1 given saved spot
      ready.there ready.atSource ready.notFolder ready.other apart
    rw [restored]
    exact ⟨rfl, after, fun _ => quiet⟩
  · refine Leads.weaken (Workspace.leads_restore given saved spot ready.atSource ready.notFolder
      ready.other apart) (fun done v h => ?_) (fun _ _ => calm) w hw.1
    exact ⟨h.1, h.2, fun h => absurd h calm⟩

end Recovery

end Workspace

namespace Run
open Workspace (Quiet Contents Recovery Aside)

variable {s : RunSettings} {file : Option Path} {w₀ : Workspace} {x : Recovery}
  {xs : List Recovery} {fs kept : Contents}

/-- The events go to no file, or to one that is none of those to be put back or kept and whose path
has no null character. -/
def Elsewhere (w₀ : Workspace) (xs : List Recovery) (kept : Contents) (file : Option Path) : Prop :=
  ∀ p, file = some p → Char.ofNat 0 ∉ p.text ∧ Aside w₀ kept p ∧
    ∀ place, w₀.disk.locate .make w₀.folder p = .ok place →
      ∀ x ∈ xs, x.source ≠ place ∧ x.backup ≠ place

theorem Elsewhere.first (h : Elsewhere w₀ (x :: xs) kept file) :
    Elsewhere w₀ [x] (Recovery.owed xs ++ kept) file := by
  intro p given
  obtain ⟨spelled, aside, other⟩ := h p given
  refine ⟨spelled, fun place leads => ⟨(aside place leads).1, fun f hf => ?_⟩,
    fun place leads y hy => ?_⟩
  · rcases List.mem_append.mp hf with hf | hf
    · obtain ⟨y, hy, rfl⟩ := List.mem_map.mp hf
      exact (other place leads y (List.mem_cons_of_mem x hy)).2
    · exact (aside place leads).2 f hf
  · rw [List.mem_singleton.mp hy]
    exact other place leads x List.mem_cons_self

theorem Elsewhere.later (h : Elsewhere w₀ (x :: xs) kept file) :
    Elsewhere w₀ xs ((x.source, some x.bytes) :: (x.vacated xs ++ kept)) file := by
  intro p given
  obtain ⟨spelled, aside, other⟩ := h p given
  refine ⟨spelled, fun place leads => ⟨(aside place leads).1, fun f hf => ?_⟩,
    fun place leads y hy => other place leads y (List.mem_cons_of_mem x hy)⟩
  obtain ⟨notSource, notBackup⟩ := other place leads x List.mem_cons_self
  rcases List.mem_cons.mp hf with rfl | hf
  · exact notSource
  · rcases List.mem_append.mp hf with hf | hf
    · rw [(Recovery.mem_vacated hf).1]
      exact notBackup
    · exact (aside place leads).2 f hf

theorem leads_revertFile_ready (ready : x.Ready s.config w₀)
    (apart : ∀ f ∈ fs, f.1 ≠ x.source ∧ f.1 ≠ x.backup) (elsewhere : Elsewhere w₀ [x] fs file) :
    Leads (Holds (Quiet w₀ ((x.backup, some x.bytes) :: fs)) file) (revertFile s x.path)
      (fun done r => if done then
        Holds (Quiet w₀ ((x.backup, none) :: (x.source, some x.bytes) :: fs)) file r
        else w₀.mishaps ≠ [])
      (fun _ => w₀.mishaps ≠ []) := by
  have aside : ∀ p, file = some p →
      Aside w₀ ((x.backup, none) :: (x.source, some x.bytes) :: fs) p := by
    intro p given place leads
    obtain ⟨_, aside, other⟩ := elsewhere p given
    obtain ⟨noLink, others⟩ := aside place leads
    obtain ⟨notSource, notBackup⟩ := other place leads x List.mem_cons_self
    refine ⟨noLink, fun f hf => ?_⟩
    rcases List.mem_cons.mp hf with rfl | hf
    · exact notBackup
    · rcases List.mem_cons.mp hf with rfl | hf
      · exact notSource
      · exact others f hf
  have := Workspace.Unheard.quiet aside
  have told : Ends (Holds (Quiet w₀ ((x.backup, none) :: (x.source, some x.bytes) :: fs)) file)
      (emit (.fileReverted (.ofPath x.path)))
      (fun _ => Holds (Quiet w₀ ((x.backup, none) :: (x.source, some x.bytes) :: fs)) file)
      fun _ _ => w₀.mishaps ≠ [] := by
    refine (ends_emit _).weaken (fun _ _ h => h) fun e r h => ?_
    obtain ⟨⟨_, untold⟩, _⟩ := h
    rcases untold with ⟨f, refused⟩ | ⟨p, given, unspelled⟩
    · cases refused
    · exact absurd unspelled (elsewhere p given).1
  unfold revertFile
  refine (leads_attempt (leads_inWorkspace (Workspace.Recovery.leads_restore ready apart))).bind
    fun outcome => ?_
  cases outcome with
  | ok done =>
    rintro r ⟨⟨rfl, quiet⟩, events⟩
    dsimp only
    rw [bind_ok (show count _ r = .ok () _ from rfl)]
    exact Leads.bind told (fun _ r hr => hr) _ ⟨quiet, events⟩
  | error f =>
    rintro r ⟨unlucky, _⟩
    -- Whatever the fault is, the file does not count as put back.
    refine Leads.weaken (show Keeps (fun _ => True) _ fun done => done = false from ?_)
      (fun done _ h => by simpa [h.2] using unlucky) (fun _ _ => unlucky) r True.intro
    cases f with
    | restore saved source =>
      exact (Keeps.anything _).bind fun _ _ => (Keeps.anything _).bind fun _ _ =>
        (Keeps.anything _).bind fun _ _ => .pure rfl
    | _ => exact .fail _ _

theorem revertAll_le (s : RunSettings) (paths : List Path) :
    Leads (fun _ => True) (revertAll s paths) (fun k _ => k ≤ paths.length) fun _ => True := by
  induction paths with
  | nil => exact fun _ _ => Nat.le_refl 0
  | cons p rest ih =>
    refine Leads.bind (Leads.weaken (Keeps.anything _) (fun _ _ h => h.1) fun _ h => h)
      fun done => ?_
    refine Leads.bind ih fun others r le => ?_
    show (if done then others + 1 else others) ≤ rest.length + 1
    split <;> omega

/-- Files are put back one after the other. What is not met stays. -/
theorem leads_revertAll (kept : Contents) (ready : ∀ x ∈ xs, x.Ready s.config w₀)
    (ordered : xs.Pairwise Recovery.Before)
    (apart : ∀ f ∈ kept, ∀ x ∈ xs, f.1 ≠ x.source ∧ f.1 ≠ x.backup)
    (elsewhere : Elsewhere w₀ xs kept file) :
    Leads (Holds (Quiet w₀ (Recovery.owed xs ++ kept)) file) (revertAll s (xs.map (·.path)))
      (fun k r => (w₀.mishaps = [] → k = xs.length) ∧
        (k = xs.length → Holds (Quiet w₀ (Recovery.settled xs ++ kept)) file r))
      (fun _ => w₀.mishaps ≠ []) := by
  induction xs generalizing kept with
  | nil => exact fun r hr => ⟨fun _ => rfl, fun _ => hr⟩
  | cons x rest ih =>
    obtain ⟨first, others⟩ := List.pairwise_cons.mp ordered
    have away : ∀ f ∈ Recovery.owed rest ++ kept, f.1 ≠ x.source ∧ f.1 ≠ x.backup := by
      intro f hf
      rcases List.mem_append.mp hf with hf | hf
      · obtain ⟨y, hy, rfl⟩ := List.mem_map.mp hf
        exact ⟨(first y hy).kept.symm, (first y hy).backups.symm⟩
      · exact apart f hf x List.mem_cons_self
    refine Leads.bind (leads_revertFile_ready (ready x List.mem_cons_self) away elsewhere.first)
      fun done => ?_
    cases done with
    | false =>
      -- The file was not put back, so not all are.
      intro r unlucky
      refine Leads.bind ((revertAll_le s _).weaken (fun _ _ h => h) fun _ _ => unlucky)
        (fun k r le => ?_) r True.intro
      rw [List.length_map] at le
      exact ⟨fun calm => absurd calm unlucky, fun all => absurd all (Nat.ne_of_lt
        (Nat.lt_succ_of_le le))⟩
    | true =>
      -- The file is kept from now on, and so is the place of its backup if it stays empty.
      have later := ih ((x.source, some x.bytes) :: (x.vacated rest ++ kept))
        (fun y hy => ready y (List.mem_cons_of_mem x hy)) others (fun f hf y hy => ?_)
        elsewhere.later
      · refine Leads.bind (later.before fun r hr => ⟨hr.1.mono fun f hf => ?_, hr.2⟩)
          fun k r h => ⟨fun calm => congrArg (· + 1) (h.1 calm), fun all => ?_⟩
        · simp only [List.mem_append, List.mem_cons] at hf
          rcases hf with hf | rfl | hf | hf
          · exact .tail _ (.tail _ (List.mem_append_left _ hf))
          · exact .tail _ (.head _)
          · rw [(Recovery.mem_vacated hf).1]
            exact .head _
          · exact .tail _ (.tail _ (List.mem_append_right _ hf))
        · have held := h.2 (Nat.succ.inj all)
          refine ⟨held.1.mono fun f hf => ?_, held.2⟩
          simp only [Recovery.settled, List.mem_append, List.mem_cons] at hf ⊢
          tauto
      · rcases List.mem_cons.mp hf with rfl | hf
        · exact ⟨(first y hy).sources, (first y hy).kept⟩
        · rcases List.mem_append.mp hf with hf | hf
          · obtain ⟨rfl, free⟩ := Recovery.mem_vacated hf
            exact ⟨(free y hy).symm, (first y hy).backups⟩
          · exact apart f hf y (List.mem_cons_of_mem x hy)

theorem revert_ready {root : Path} {w w' : Workspace} {session : Session}
    (found : Workspace.findBackedUp s.config (some root) w = .ok (xs.map (·.path)) w')
    (same : Workspace.Same w w') (ready : ∀ x ∈ xs, x.Ready s.config w)
    (ordered : xs.Pairwise Recovery.Before)
    (apart : ∀ f ∈ kept, ∀ x ∈ xs, f.1 ≠ x.source ∧ f.1 ≠ x.backup)
    (elsewhere : Elsewhere w xs kept session.emitter.file)
    (held : ∀ f ∈ Recovery.owed xs ++ kept, w.disk.get? f.1 = f.2.map Node.file) :
    (w.mishaps = [] → ∃ r, revert s root ⟨w, session⟩ = .ok xs.length r) ∧
    ∀ r, revert s root ⟨w, session⟩ = .ok xs.length r →
      Workspace.Stores w (Recovery.settled xs ++ kept) r.workspace := by
  have begins : revert s root ⟨w, session⟩ = revertAll s (xs.map (·.path)) ⟨w', session⟩ := by
    have searched : inWorkspace (Workspace.findBackedUp s.config (some root)) ⟨w, session⟩ =
        .ok (xs.map (·.path)) ⟨w', session⟩ := by
      unfold inWorkspace
      simp only [found]
    unfold revert
    rw [bind_ok searched]
  have start : Quiet w (Recovery.owed xs ++ kept) w :=
    ⟨⟨rfl, rfl, .refl _, held⟩, fun calm => calm⟩
  have run := leads_revertAll kept ready ordered apart elsewhere ⟨w', session⟩
    ⟨Workspace.Steady.same start same, rfl⟩
  rw [begins]
  constructor
  · intro calm
    cases ended : revertAll s (xs.map (·.path)) ⟨w', session⟩ with
    | error f r =>
      rw [ended] at run
      exact absurd calm run
    | ok k r =>
      rw [ended] at run
      exact ⟨r, by rw [run.1 calm]⟩
  · intro r ended
    rw [ended] at run
    exact (run.2 rfl).1.1

end Run

end SchedulingNoise
