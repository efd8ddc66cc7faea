import SchedulingNoise.Proofs.Accounting
import SchedulingNoise.Proofs.Discovery
import SchedulingNoise.Proofs.Telling

/-! A file is instrumented while the disk refuses some of the steps. Whichever they are, the bytes
of the original stay in the source or in its backup, and a failure is counted. -/
namespace SchedulingNoise
open Disk

namespace Workspace

variable {w₀ : Workspace} {fs : Contents} {p : Path}

def Reads (p : Path) (bs : Bytes) (w : Workspace) : Prop := readBytes p w = .ok bs w

def Held (p : Path) (w : Workspace) : Prop :=
  ∃ w', (waitForRelease p : Act Bool) w = .ok false w'

/-- A source and its backup with all that is near them. Events go to neither of the two. -/
structure Scene (c : Config) (file : Option Path) (w₀ : Workspace) (source saved : Path)
    (S B : Place) : Prop where
  backup : backupPath c source = .ok saved
  there : Reached w₀ source S
  atSource : Spot w₀ source S
  notFolder : NoFolder w₀ source
  atBackup : Spot w₀ saved B
  noBackupFolder : NoFolder w₀ saved
  other : S ≠ B
  trial : ∃ R, Spot w₀ (source.parent.child trialName) R ∧ S ≠ R
  temporary : ∃ T, (∀ temp, source.withName (temporaryName source.name w₀.epoch) = .ok temp →
    Spot w₀ temp T) ∧ T ≠ S ∧ B ≠ T
  grounded : w₀.disk.Grounded w₀.folder
  aside : ∀ p, file = some p → ∀ place, w₀.disk.locate .make w₀.folder p = .ok place →
    S ≠ place ∧ B ≠ place

/-- The bytes are in the source or in the backup. -/
def Preserved (w₀ : Workspace) (saved : Path) (S B : Place) (b : Bytes) (w : Workspace) : Prop :=
  Stores w₀ [(S, some b)] w ∨ Stores w₀ [(B, some b)] w ∧ Reached w₀ saved B

namespace Scene

variable {c : Config} {file : Option Path} {source saved : Path} {S B : Place} {b : Bytes}

theorem unheard (h : Scene c file w₀ source saved S B) (among : ∀ f ∈ fs, f.1 = S ∨ f.1 = B) :
    Unheard file (Stores w₀ fs) := by
  refine .stores fun p given place leads => ⟨h.grounded.locate (by decide) leads, fun f hf => ?_⟩
  obtain ⟨notSource, notBackup⟩ := h.aside p given place leads
  rcases among f hf with eq | eq
  · rw [eq]
    exact notSource
  · rw [eq]
    exact notBackup

theorem unheard_removed (h : Scene c file w₀ source saved S B) {gone : Contents}
    (vacancy : Vacancy w₀ saved B gone) (met : Option Mishap) :
    Unheard file (Removed w₀ gone [(S, some b)] met) := by
  refine .or (h.unheard fun f hf => ?_) (.given (h.unheard (by simp)) _)
  rcases List.mem_append.mp hf with hf | hf
  · exact .inr (by rw [(vacancy.only f hf).1])
  · exact .inl (by rw [List.mem_singleton.mp hf])

theorem unheard_preserved (h : Scene c file w₀ source saved S B) :
    Unheard file (Preserved w₀ saved S B b) :=
  .or (h.unheard (by simp)) (.given (h.unheard (by simp)) _)

end Scene

end Workspace

namespace Run

section Safety

open Workspace (Stores Facing Vacancy Removed Reached Preserved Scene Contents)

variable {s : RunSettings} {file : Option Path} {w₀ : Workspace} {source saved : Path}
  {S B : Place} {b : Bytes} {gone : Contents} {ms : List Mishap}

theorem safe_backUpFile (scene : Scene s.config file w₀ source saved S B)
    (vacancy : Vacancy w₀ saved B gone) :
    Leads (Holds (Facing w₀ (gone ++ [(S, some b)]) ms) file) (backUpFile s source)
      (fun made r => match made with
        | some target => target = saved ∧ Holds (Stores w₀ [(B, some b), (S, some b)]) file r ∧
          Reached w₀ saved B
        | none => Holds (Removed w₀ gone [(S, some b)] ms[3]?) file r)
      (Holds (Removed w₀ gone [(S, some b)] ms[3]?) file) := by
  obtain ⟨R, trial, free⟩ := scene.trial
  have made : Leads (Holds (Facing w₀ (gone ++ [(S, some b)]) ms) file)
      (inWorkspace (Workspace.backUp s.config source)) _
      (Holds (Removed w₀ gone [(S, some b)] ms[3]?) file) :=
    leads_inWorkspace (Workspace.leads_backUp scene.backup scene.there scene.atBackup
      scene.noBackupFolder scene.other vacancy trial free)
  refine (leads_attempt made).bind fun outcome => ?_
  cases outcome with
  | ok target => exact fun r hr => ⟨hr.1.1, ⟨hr.1.2.1, hr.2⟩, hr.1.2.2⟩
  | error f =>
    have := scene.unheard_removed (b := b) vacancy ms[3]?
    have quiet : ∀ cause : BackupFault,
        Keeps (Holds (Removed w₀ gone [(S, some b)] ms[3]?) file) (do
          let saved ← require (Workspace.backupPath s.config source)
          note ⟨.error, (Report.backupFailed source saved cause.message).text⟩
          emit (.backupFailed (.ofPath source) (.text cause.message.toList))
          countError
          pure (none : Option Path)) fun saved => saved = none := fun cause =>
      keeps_require.bind fun _ _ => (holds_note _).bind fun _ _ => (holds_emit _).bind fun _ _ =>
        (holds_count _).bind fun _ _ => .pure rfl
    cases f with
    | backup cause =>
      exact Leads.weaken (quiet cause) (fun saved r h => by rw [h.2]; exact h.1) fun _ h => h
    | _ => exact fun r hr => hr

theorem safe_write (scene : Scene s.config file w₀ source saved S B) (text : Text)
    (failure : String) :
    Leads (Holds (Stores w₀ [(B, some b)]) file) (write source text failure)
      (fun done => Holds (fun w => Stores w₀ [(B, some b)] w ∧
        (done = true → Stores w₀ [(S, some (Utf8.encode text)), (B, some b)] w)) file)
      (Holds (Stores w₀ [(B, some b)]) file) := by
  obtain ⟨T, named, fresh, apart⟩ := scene.temporary
  have written : Leads (Holds (Stores w₀ [(B, some b)]) file)
      (inWorkspace (Workspace.writeText source text)) _ (Holds (Stores w₀ [(B, some b)]) file) :=
    leads_inWorkspace (Workspace.leads_writeText scene.atSource named
      ⟨fresh, apart, scene.other.symm⟩ text)
  refine (leads_attempt written).bind fun outcome => ?_
  cases outcome with
  | ok x => exact fun r hr => ⟨⟨hr.1.tail, fun _ => hr.1⟩, hr.2⟩
  | error f =>
    have told : Leads (Holds (Stores w₀ [(B, some b)]) file) (do
        note ⟨.error, s!"{failure} {source}: {f.message}"⟩
        countError
        pure false) (fun done => Holds (fun w => Stores w₀ [(B, some b)] w ∧
          (done = true → Stores w₀ [(S, some (Utf8.encode text)), (B, some b)] w)) file)
        (Holds (Stores w₀ [(B, some b)]) file) :=
      (holds_note _).leads (fun _ h => h) fun _ _ => (holds_count _).leads (fun _ h => h)
        fun _ _ r hr => ⟨⟨hr.1, nofun⟩, hr.2⟩
    dsimp only
    split
    · exact told
    · exact fun r hr => hr

theorem safe_revertFile (scene : Scene s.config file w₀ source saved S B)
    (reached : Reached w₀ saved B) :
    Leads (Holds (Stores w₀ [(B, some b)]) file) (revertFile s source)
      (fun _ => Holds (Preserved w₀ saved S B b) file) (Holds (Preserved w₀ saved S B b) file) := by
  have safe : ∀ w, Stores w₀ [(S, some b)] w ∨ Stores w₀ [(B, some b)] w →
      Preserved w₀ saved S B b w := fun w h => h.imp_right fun h => ⟨h, reached⟩
  have restored : Leads (Holds (Stores w₀ [(B, some b)]) file)
      (inWorkspace (Workspace.restore s.config source))
      (fun _ => Holds (Preserved w₀ saved S B b) file)
      (Holds (Preserved w₀ saved S B b) file) :=
    (leads_inWorkspace (Workspace.leads_restore scene.backup reached scene.atBackup scene.atSource
      scene.notFolder scene.other.symm (by simp))).weaken
      (fun _ _ h => ⟨safe _ (.inl h.1.2.tail), h.2⟩) fun _ h => ⟨safe _ h.1, h.2⟩
  have := scene.unheard_preserved (b := b)
  have attempted : Leads (Holds (Stores w₀ [(B, some b)]) file)
      (attempt (inWorkspace (Workspace.restore s.config source)))
      (fun _ => Holds (Preserved w₀ saved S B b) file)
      (Holds (Preserved w₀ saved S B b) file) :=
    (leads_attempt restored).weaken (fun outcome _ h => by cases outcome <;> exact h) fun _ h => h
  refine attempted.bind fun outcome => ?_
  have quiet : ∀ {a : RunAct Bool}, Keeps (Holds (Preserved w₀ saved S B b) file) a
      (fun _ => True) → Leads (Holds (Preserved w₀ saved S B b) file) a
        (fun _ => Holds (Preserved w₀ saved S B b) file) (Holds (Preserved w₀ saved S B b) file) :=
    fun h => Leads.weaken h (fun _ _ h => h.1) fun _ h => h
  split
  · exact quiet ((holds_count _).bind fun _ _ => (holds_emit _).bind fun _ _ => .pure True.intro)
  · exact fun r hr => hr
  · exact quiet ((holds_note _).bind fun _ _ => (holds_emit _).bind fun _ _ =>
      (holds_count _).bind fun _ _ => .pure True.intro)
  · exact fun r hr => hr

def Instrumented (c : Choice) (file : Option Path) (w₀ : Workspace) (saved : Path) (S B : Place)
    (b : Bytes) (done : Bool) (r : Run) : Prop :=
  match done with
  | true => Reached w₀ saved B ∧ ∃ text, c.survey.instrument c.points = .ok text ∧
    Holds (Stores w₀ [(S, some (Utf8.encode text)), (B, some b)]) file r
  | false => Holds (Preserved w₀ saved S B b) file r

theorem safe_behindBackup {c : Choice}
    (scene : Scene s.config file w₀ c.survey.unit.path saved S B) (reached : Reached w₀ saved B)
    (backedUp : Event) (failure : String) :
    Leads (Holds (Stores w₀ [(B, some b)]) file) (do
      emit backedUp
      let text ← noisyText c
      if ← write c.survey.unit.path text failure then
        let points := c.points.length
        count fun st =>
          { st with instrumented := st.instrumented + 1, injected := st.injected + points }
        emit (.fileInstrumented (.ofPath c.survey.unit.path) (.int points))
        pure true
      else
        let _ ← revertFile s c.survey.unit.path
        pure false)
      (Instrumented c file w₀ saved S B b) (Holds (Preserved w₀ saved S B b) file) := by
  have safe : ∀ r, Holds (Stores w₀ [(B, some b)]) file r →
      Holds (Preserved w₀ saved S B b) file r := fun r h => ⟨.inr ⟨h.1, reached⟩, h.2⟩
  have : Workspace.Unheard file (Stores w₀ [(B, some b)]) := scene.unheard (by simp)
  refine (holds_emit backedUp).leads safe fun _ _ => ?_
  have noisy : Keeps (Holds (Stores w₀ [(B, some b)]) file) (noisyText c) fun text =>
      c.survey.instrument c.points = .ok text :=
    (holds_inWorkspace (Workspace.keeps_noteAll _)).bind fun _ _ => keeps_require
  refine noisy.leads safe fun text given => ?_
  refine ((safe_write scene text failure).weaken (fun _ _ h => h) safe).bind fun done => ?_
  cases done with
  | true =>
    have : Workspace.Unheard file (Stores w₀ [(S, some (Utf8.encode text)), (B, some b)]) :=
      scene.unheard (by simp)
    have safe' : ∀ r, Holds (Stores w₀ [(S, some (Utf8.encode text)), (B, some b)]) file r →
        Holds (Preserved w₀ saved S B b) file r := fun r h => safe r ⟨h.1.tail, h.2⟩
    simp only [if_true]
    refine Leads.before (I := Holds (Stores w₀ [(S, some (Utf8.encode text)), (B, some b)]) file)
      ?_ fun r h => ⟨h.1.2 True.intro, h.2⟩
    exact (holds_count _).leads safe' fun _ _ => (holds_emit _).leads safe' fun _ _ r h =>
      ⟨reached, text, given, h⟩
  | false =>
    simp only [Bool.false_eq_true, if_false]
    exact ((safe_revertFile scene reached).before fun r h => ⟨h.1.1, h.2⟩).bind fun _ r h => h

theorem safe_instrumentFile {c : Choice}
    (scene : Scene s.config file w₀ c.survey.unit.path saved S B)
    (vacancy : Vacancy w₀ saved B gone) :
    Leads (Holds (Facing w₀ (gone ++ [(S, some b)]) ms) file) (instrumentFile s c)
      (Instrumented c file w₀ saved S B b) (Holds (Preserved w₀ saved S B b) file) := by
  have start : ∀ r, Holds (Facing w₀ (gone ++ [(S, some b)]) ms) file r →
      Holds (Stores w₀ [(S, some b)]) file r := fun r h =>
    ⟨h.1.1.mono (List.subset_append_right _ _), h.2⟩
  have safe : ∀ r, Holds (Stores w₀ [(S, some b)]) file r →
      Holds (Preserved w₀ saved S B b) file r := fun r h => ⟨.inl h.1, h.2⟩
  have left : ∀ r, Holds (Removed w₀ gone [(S, some b)] ms[3]?) file r →
      Holds (Preserved w₀ saved S B b) file r := fun r h => safe r
    ⟨h.1.elim (fun h => h.mono (List.subset_append_right _ _)) fun h => h.1, h.2⟩
  have : Workspace.Unheard file (Stores w₀ [(S, some b)]) := scene.unheard (by simp)
  unfold instrumentFile
  refine (holds_inWorkspace (Workspace.keeps_waitForRelease _ _ _)).leads
    (fun r h => safe r (start r h)) fun free _ => ?_
  split
  · refine Leads.before ?_ start
    exact (holds_skip _ _).leads safe fun _ _ r h => safe r h
  · refine ((safe_backUpFile scene vacancy).weaken (fun _ _ h => h) left).bind fun made => ?_
    cases made with
    | none => exact left
    | some target =>
      rintro r ⟨rfl, hr, reached⟩
      exact safe_behindBackup scene reached _ _ r ⟨hr.1.mono (by simp), hr.2⟩

end Safety

section Errors

variable {k : Nat} {s : RunSettings}

def Erred (k : Nat) (s : Stats) (_ : Emitter) : Prop := k ≤ s.errors

theorem erred_emit (e : Event) : Keeps (Booked (Erred k)) (emit e) fun _ => True := by
  have kept : Keeps (Booked (Erred k)) (modify (fun r : Run =>
      { r with session := { r.session with emitter := r.session.emitter.keep e } }) : RunAct PUnit)
      fun _ => True := .change fun r hr => hr
  exact kept.bind fun _ _ r hr => books_inWorkspace _ r hr

theorem erred_count {f : Stats → Stats} (more : ∀ s, s.errors ≤ (f s).errors) :
    Keeps (Booked (Erred k)) (count f) fun _ => True :=
  .change fun r hr => Nat.le_trans hr (more r.session.stats)

theorem erred_countError {E : Run → Prop} :
    Leads (Booked (Erred k)) countError (fun _ => Booked (Erred (k + 1))) E :=
  books_count fun _ _ h => Nat.succ_le_succ h

theorem erred_backUpFile (path : Path) :
    Leads (Booked (Erred k)) (backUpFile s path)
      (fun made => Booked (Erred (if made.isNone then k + 1 else k))) fun _ => True := by
  refine (keeps_attempt (books_inWorkspace _)).leads (fun _ _ => True.intro) fun outcome _ => ?_
  split
  · exact fun r hr => hr
  · refine keeps_require.leads (fun _ _ => True.intro) fun _ _ => ?_
    refine (books_note _).leads (fun _ _ => True.intro) fun _ _ => ?_
    refine (erred_emit _).leads (fun _ _ => True.intro) fun _ _ => ?_
    exact erred_countError.bind fun _ r hr => hr
  · exact fun r _ => True.intro

theorem erred_write (path : Path) (text : Text) (failure : String) :
    Leads (Booked (Erred k)) (write path text failure)
      (fun done => Booked (Erred (if done then k else k + 1))) fun _ => True := by
  refine (keeps_attempt (books_inWorkspace _)).leads (fun _ _ => True.intro) fun outcome _ => ?_
  split
  · exact fun r hr => hr
  · split
    · refine (books_note _).leads (fun _ _ => True.intro) fun _ _ => ?_
      exact erred_countError.bind fun _ r hr => hr
    · exact fun r _ => True.intro

theorem erred_revertFile (path : Path) :
    Keeps (Booked (Erred k)) (revertFile s path) fun _ => True := by
  refine (keeps_attempt (books_inWorkspace _)).bind fun outcome _ => ?_
  split
  · refine (erred_count ?_).bind fun _ _ => (erred_emit _).bind fun _ _ => .pure True.intro
    exact fun s => Nat.le_refl s.errors
  · exact .pure True.intro
  · refine (books_note _).bind fun _ _ => (erred_emit _).bind fun _ _ => ?_
    refine (erred_count ?_).bind fun _ _ => .pure True.intro
    exact fun s => Nat.le_succ s.errors
  · exact .fail _ _

theorem erred_instrumentFile (c : Choice) :
    Leads (fun r => Booked (Erred k) r ∧ ¬ Workspace.Held c.survey.unit.path r.workspace)
      (instrumentFile s c) (fun done r => done = false → Booked (Erred (k + 1)) r)
      fun _ => True := by
  have waited : Leads
      (fun r => Booked (Erred k) r ∧ ¬ Workspace.Held c.survey.unit.path r.workspace)
      (inWorkspace (Workspace.waitForRelease c.survey.unit.path))
      (fun free r => Booked (Erred k) r ∧ free = true) fun _ => True := by
    rintro r ⟨hr, free⟩
    unfold inWorkspace
    cases eq : (Workspace.waitForRelease c.survey.unit.path : Act Bool) r.workspace with
    | error f w => exact True.intro
    | ok b w =>
      refine ⟨hr, ?_⟩
      cases b with
      | true => rfl
      | false => exact absurd ⟨w, eq⟩ free
  refine waited.bind fun free r hr => ?_
  obtain ⟨hr, rfl⟩ := hr
  simp only [Bool.not_true, Bool.false_eq_true, if_false]
  refine ((erred_backUpFile _).bind fun made => ?_) r hr
  cases made with
  | none => exact fun r hr _ => hr
  | some target =>
    refine (erred_emit _).leads (fun _ _ => True.intro) fun _ _ => ?_
    refine ((books_noteAll _).bind fun _ _ => keeps_require).leads (fun _ _ => True.intro)
      fun text _ => ?_
    refine (erred_write _ text _).bind fun done => ?_
    cases done with
    | true =>
      simp only [if_true]
      refine (erred_count ?_).leads (fun _ _ => True.intro) fun _ _ => ?_
      · exact fun s => Nat.le_refl s.errors
      · exact (erred_emit _).leads (fun _ _ => True.intro) fun _ _ r _ => nofun
    | false =>
      simp only [Bool.false_eq_true, if_false]
      exact (erred_revertFile _).leads (fun _ _ => True.intro) fun _ _ r hr _ => hr

end Errors

section Statement

/-- A source that holds `b` in a folder, where its backup is to be made. None of the names that are
used there is a link, the source is not the file of a trial, its backup is not the temporary file,
and the events go to neither of the two. -/
structure Ready (c : Config) (path saved : Path) (place : Place) (b : Bytes) (r : Run) : Prop where
  grounded : r.workspace.disk.Grounded r.workspace.folder
  proper : ProperName path.name
  spelled : Char.ofNat 0 ∉ path.text
  leads : r.workspace.disk.locate .stay r.workspace.folder path = .ok (place ++ [path.name])
  file : r.workspace.disk.get? (place ++ [path.name]) = some (.file b)
  backup : Workspace.backupPath c path = .ok saved
  unsaved : ∀ w, Workspace.hasBackup c path r.workspace ≠ .ok true w
  noLinks : ∀ m ∈ [saved.name, Workspace.trialName,
    Workspace.temporaryName path.name r.workspace.epoch], ∀ t,
      r.workspace.disk.get? (place ++ [m]) ≠ some (.link t)
  notTrial : path.name ≠ Workspace.trialName
  notTemporary : saved.name ≠ Workspace.temporaryName path.name r.workspace.epoch
  aside : ∀ p, r.session.emitter.file = some p → ∀ q,
    r.workspace.disk.locate .make r.workspace.folder p = .ok q →
      place ++ [path.name] ≠ q ∧ place ++ [saved.name] ≠ q

namespace Ready

open Workspace

variable {c : Config} {path saved : Path} {place : Place} {b : Bytes} {r : Run}

theorem path_eq (h : Ready c path saved place b r) :
    path = ⟨path.anchor, path.parts.dropLast ++ [path.name]⟩ := by
  have named := h.proper.nonempty
  cases path with
  | mk anchor parts =>
    rcases List.eq_nil_or_concat parts with rfl | ⟨front, last, rfl⟩
    · exact absurd rfl named
    · simp [Path.name]

theorem spot (h : Ready c path saved place b r) {m : Text} (plain : PlainName m)
    (noLink : ∀ t, r.workspace.disk.get? (place ++ [m]) ≠ some (.link t)) :
    Spot r.workspace ⟨path.anchor, path.parts.dropLast ++ [m]⟩ (place ++ [m]) := by
  have leads := h.leads
  rw [h.path_eq] at leads
  obtain ⟨place', eq, slots⟩ := slot_beside h.proper.plain leads
  have same : place = place' := (List.append_inj' eq rfl).1
  rw [← same] at slots
  exact ⟨fun _ => slots m plain (guide_ne_link noLink), guide_ne_link noLink⟩

theorem atSource (h : Ready c path saved place b r) :
    Spot r.workspace path (place ++ [path.name]) := by
  have spot := h.spot h.proper.plain fun t link => by
    rw [h.file] at link
    cases link
  rwa [← h.path_eq] at spot

theorem there (h : Ready c path saved place b r) :
    Reached r.workspace path (place ++ [path.name]) :=
  ⟨h.spelled, ((h.atSource.slot h.spelled).leads h.leads).2⟩

theorem notFolder (h : Ready c path saved place b r) : NoFolder r.workspace path := by
  intro _ folder
  obtain ⟨at_, leads, found⟩ := node_eq_ok folder
  rw [h.there.leads .enter] at leads
  cases leads
  rw [h.file] at found
  cases found

theorem hasBackup_eq (h : Ready c path saved place b r) (w : Workspace) :
    hasBackup c path w = exists? saved w := by
  unfold hasBackup
  rw [h.backup, bind_ok (require_ok saved w)]

theorem unfound (h : Ready c path saved place b r) : Unfound saved r.workspace := by
  intro w found
  rw [← h.hasBackup_eq] at found
  exact h.unsaved w found

theorem own_append (h : Ready c path saved place b r) (more : Text) :
    OwnName (path.name ++ more) := by
  have proper := h.proper
  cases name : path.name with
  | nil => exact absurd name proper.nonempty
  | cons x rest =>
    rw [name] at proper
    refine ⟨nofun, fun self => ?_, fun parent => ?_⟩
    · injection self with dot none
      have : rest = [] := (List.append_eq_nil_iff.mp none).1
      exact proper.notSelf (by rw [this, dot]; rfl)
    · injection parent with dot one
      rcases List.append_eq_singleton_iff.mp one with ⟨none, _⟩ | ⟨last, _⟩
      · exact proper.notSelf (by rw [none, dot]; rfl)
      · exact proper.notParent (by rw [last, dot]; rfl)

theorem atBackup (h : Ready c path saved place b r) :
    Spot r.workspace saved (place ++ [saved.name]) := by
  obtain ⟨suffix, _, named⟩ := backupPath_eq_ok h.backup
  have name := Path.name_withName named
  have noLink := h.noLinks saved.name (by simp)
  by_cases slash : '/' ∈ suffix.toText
  · -- The path ends with a dot, and it would lead to a folder.
    obtain ⟨ns, steps⟩ := steps_of_slashed h.proper.noSlash slash
      (fun a _ _ => (h.own_append a).notSelf) named
    refine ⟨fun spelled => .inr fun ending => ?_, guide_ne_link noLink⟩
    cases leads : r.workspace.disk.locate ending r.workspace.folder saved with
    | error e => exact ⟨e, rfl⟩
    | ok q =>
      obtain ⟨folder, every⟩ := h.grounded.folder_of_self steps leads
      have there : r.workspace.disk.node r.workspace.folder saved = .ok .folder := by
        unfold Disk.node
        rw [every]
        simp only [bind, Except.bind, folder]
        rfl
      exact absurd there (unfound_iff.mp h.unfound spelled _)
  · have plain : PlainName saved.name := by
      rw [name]
      refine ⟨h.own_append _, fun mem => ?_⟩
      rcases List.mem_append.mp mem with mem | mem
      · exact h.proper.noSlash mem
      · exact slash mem
    have spot := h.spot plain noLink
    have eq := (Path.withName_eq_ok named).1
    rw [← name] at eq
    rwa [← eq] at spot

theorem other (h : Ready c path saved place b r) : path.name ≠ saved.name := by
  intro same
  obtain ⟨suffix, _, named⟩ := backupPath_eq_ok h.backup
  have eq : saved = path := by
    rw [(Path.withName_eq_ok named).1, ← Path.name_withName named, ← same]
    exact h.path_eq.symm
  have found : r.workspace.disk.node r.workspace.folder saved = .ok (.file b) := by
    unfold Disk.node
    rw [eq, h.there.leads .enter]
    simp only [bind, Except.bind, h.file]
    rfl
  refine absurd found (unfound_iff.mp h.unfound ?_ _)
  rw [eq]
  exact h.spelled

theorem scene (h : Ready c path saved place b r) :
    Scene c r.session.emitter.file r.workspace path saved (place ++ [path.name])
      (place ++ [saved.name]) where
  backup := h.backup
  there := h.there
  atSource := h.atSource
  notFolder := h.notFolder
  atBackup := h.atBackup
  noBackupFolder := fun spelled => unfound_iff.mp h.unfound spelled _
  other := fun eq => h.other (List.singleton_inj.mp (List.append_cancel_left eq))
  trial := by
    refine ⟨place ++ [trialName], h.spot proper_trialName.plain (h.noLinks _ (by simp)),
      fun eq => ?_⟩
    exact h.notTrial (List.singleton_inj.mp (List.append_cancel_left eq))
  temporary := by
    have plain := (proper_temporary h.proper r.workspace.epoch).plain
    refine ⟨place ++ [temporaryName path.name r.workspace.epoch], fun temp named => ?_,
      fun eq => ?_, fun eq => ?_⟩
    · rw [(Path.withName_eq_ok named).1]
      exact h.spot plain (h.noLinks _ (by simp))
    · exact temporary_ne _ _ (List.singleton_inj.mp (List.append_cancel_left eq))
    · exact h.notTemporary (List.singleton_inj.mp (List.append_cancel_left eq))
  grounded := h.grounded
  aside := h.aside

theorem start (h : Ready c path saved place b r) {gone : Contents}
    (vacancy : Vacancy r.workspace saved (place ++ [saved.name]) gone) :
    Holds (Facing r.workspace (gone ++ [(place ++ [path.name], some b)]) r.workspace.mishaps)
      r.session.emitter.file r := by
  have stores : Stores r.workspace [(place ++ [path.name], some b)] r.workspace :=
    ⟨rfl, rfl, .refl _, by simpa using h.file⟩
  exact ⟨⟨vacancy.of_unfound stores h.unfound, rfl⟩, rfl⟩

theorem reads_of_preserved (h : Ready c path saved place b r) {w : Workspace}
    (kept : Preserved r.workspace saved (place ++ [path.name]) (place ++ [saved.name]) b w) :
    Reads path b w ∨ Reads saved b w := by
  rcases kept with source | ⟨backup, reached⟩
  · exact .inl (source.readBytes_eq h.there List.mem_cons_self)
  · exact .inr (backup.readBytes_eq reached List.mem_cons_self)

end Ready

/-- Whatever the disk refuses, and whatever a refused step leaves behind: a file that was
instrumented has its new text and its bytes in the backup, and otherwise the bytes are in the source
or in the backup. A file that was not instrumented is counted as an error, unless it is held open;
and if its backup could not be made, nothing more is done, and no backup is left unless its removal,
the fourth step that may be refused, was. -/
theorem bytes_kept_under_mishaps {s : RunSettings} {c : Choice} {saved : Path} {place : Place}
    {b : Bytes} {r : Run} (ready : Ready s.config c.survey.unit.path saved place b r) :
    (match instrumentFile s c r with
      | .ok true r' => Workspace.Reads saved b r'.workspace ∧ ∃ text,
        c.survey.instrument c.points = .ok text ∧
          Workspace.Reads c.survey.unit.path (Utf8.encode text) r'.workspace
      | .ok false r' => (Workspace.Reads c.survey.unit.path b r'.workspace ∨
          Workspace.Reads saved b r'.workspace) ∧
        (r.session.stats.errors < r'.session.stats.errors ∨
          Workspace.Held c.survey.unit.path r.workspace)
      | .error _ r' => Workspace.Reads c.survey.unit.path b r'.workspace ∨
        Workspace.Reads saved b r'.workspace) ∧
    ∀ w r', (Workspace.waitForRelease c.survey.unit.path : Act Bool) r.workspace = .ok true w →
      backUpFile s c.survey.unit.path { r with workspace := w } = .ok none r' →
        instrumentFile s c r = .ok false r' ∧
        Workspace.Reads c.survey.unit.path b r'.workspace ∧
        r.session.stats.errors < r'.session.stats.errors ∧
        ((∀ w', Workspace.hasBackup s.config c.survey.unit.path r'.workspace ≠ .ok true w') ∨
          ∃ e left, r.workspace.mishaps[3]? = some (.refused e left)) := by
  obtain ⟨gone, vacancy⟩ := Workspace.exists_vacancy r.workspace saved (place ++ [saved.name])
  have start := ready.start vacancy
  constructor
  · have outcome := safe_instrumentFile ready.scene vacancy r start
    have counted := erred_instrumentFile (k := r.session.stats.errors) (s := s) c r
    cases ended : instrumentFile s c r with
    | error f r' =>
      rw [ended] at outcome
      exact ready.reads_of_preserved outcome.1
    | ok done r' =>
      rw [ended] at outcome counted
      cases done with
      | true =>
        obtain ⟨reached, text, given, kept⟩ := outcome
        exact ⟨kept.1.readBytes_eq reached (by simp), text, given,
          kept.1.readBytes_eq ready.there (by simp)⟩
      | false =>
        refine ⟨ready.reads_of_preserved outcome.1, ?_⟩
        by_cases held : Workspace.Held c.survey.unit.path r.workspace
        · exact .inr held
        · exact .inl (counted ⟨Nat.le_refl _, held⟩ rfl)
  · intro w r' released failed
    have waited := Workspace.keeps_waitForRelease c.survey.unit.path 3 Workspace.releaseDelay
      r.workspace start.1
    rw [released] at waited
    have outcome := safe_backUpFile ready.scene vacancy { r with workspace := w } ⟨waited.1, rfl⟩
    have counted := erred_backUpFile (k := r.session.stats.errors) (s := s) c.survey.unit.path
      { r with workspace := w } (Nat.le_refl _)
    rw [failed] at outcome counted
    have free : inWorkspace (Workspace.waitForRelease c.survey.unit.path) r =
        .ok true { r with workspace := w } := by
      unfold inWorkspace
      simp only [released]
    refine ⟨?_, ?_, counted, ?_⟩
    · unfold instrumentFile
      rw [bind_ok free]
      simp only [Bool.not_true, Bool.false_eq_true, if_false]
      rw [bind_ok failed]
      rfl
    · rcases outcome.1 with cleared | left
      · exact cleared.readBytes_eq ready.there (by simp)
      · exact left.1.readBytes_eq ready.there (by simp)
    · rcases outcome.1 with cleared | left
      · refine .inl fun w' found => ?_
        rw [ready.hasBackup_eq] at found
        exact vacancy.unfound ready.scene.atBackup cleared w' found
      · exact .inr left.2

/-- The second copy is made, the new text is refused, and none of the copies back is whole. -/
def refusedRun : Run :=
  { smallSituation with
    workspace := { smallSituation.workspace with
      mishaps := [.refused .busy (some [0]), .none, .refused .busy none, .refused .busy (some [1]),
        .refused .busy (some [2]), .refused .busy (some [3])] } }

def refusedText : Text := "class A \x7b\n  void f() \x7b lock.lock(); \x7d\n\x7d\n".toList

def refusedChoice : Choice where
  survey :=
    { unit := .ofText (.ofText "/w/A.java".toList) refusedText
      catalogue := .default
      points := [] }
  points := [⟨1, 0, .mutualExclusion, ".lock(".toList, some ⟨.int 50, .sleep (.int 5) (.int 5)⟩⟩]

theorem refusedRun_ready : Ready .default refusedChoice.survey.unit.path
    (.ofText "/w/A.java.contender".toList) ["w".toList] (Utf8.encode refusedText) refusedRun where
  grounded := ⟨rfl, fun p n x found => (smallTree_tree.above found).1⟩
  proper := ⟨by decide, by decide, by decide, by decide, by decide⟩
  spelled := by decide
  leads := by decide +kernel
  file := by decide +kernel
  backup := by decide +kernel
  unsaved := by
    have none : Workspace.hasBackup .default refusedChoice.survey.unit.path refusedRun.workspace =
      .ok false refusedRun.workspace := rfl
    intro w found
    rw [none] at found
    cases found
  noLinks := by
    intro m _ t link
    rcases smallTree_tree.node link with folder | ⟨bs, file⟩
    · cases folder
    · cases file
  notTrial := by decide
  notTemporary := by decide +kernel
  aside := nofun

theorem refusedRun_ends : (match instrumentFile { config := .default } refusedChoice refusedRun with
    | .ok false r' =>
      decide (r'.workspace.disk.get? ["w".toList, "A.java".toList] = some (.file [3]))
    | _ => false) = true := by
  decide +kernel

theorem refusedRun_kept : ∃ r', instrumentFile { config := .default } refusedChoice refusedRun =
      .ok false r' ∧
    r'.workspace.disk.get? ["w".toList, "A.java".toList] = some (.file [3]) ∧
    (Workspace.Reads refusedChoice.survey.unit.path (Utf8.encode refusedText) r'.workspace ∨
      Workspace.Reads (.ofText "/w/A.java.contender".toList) (Utf8.encode refusedText)
        r'.workspace) := by
  have kept := bytes_kept_under_mishaps (s := { config := .default }) refusedRun_ready
  have ended := refusedRun_ends
  cases result : instrumentFile { config := .default } refusedChoice refusedRun with
  | error f r' =>
    rw [result] at ended
    cases ended
  | ok done r' =>
    rw [result] at kept ended
    cases done with
    | true => cases ended
    | false => exact ⟨r', rfl, of_decide_eq_true ended, kept.1.1⟩

def stampConfig : Config :=
  Config.default.update [Json.named Config.suffixKey (.text ".tmp__1700000000".toList)]

def stampRun : Run where
  workspace :=
    { disk := ⟨[(["w".toList], .folder), (["w".toList, ".tmp_".toList],
        .file (Utf8.encode refusedText))]⟩
      folder := []
      clock := ⟨"20260101".toList, 0⟩
      epoch := 1700000000 }
  session := { generator := .script [] }

def stampChoice : Choice where
  survey :=
    { unit := .ofText (.ofText "/w/.tmp_".toList) refusedText
      catalogue := .default
      points := [] }
  points := refusedChoice.points

/-- The backup is made, overwritten with the new text, and moved over the source. -/
theorem stampRun_lost : stampConfig.Accepted ∧
    (match Workspace.hasBackup stampConfig (.ofText "/w/.tmp_".toList) stampRun.workspace with
      | .ok saved _ => saved
      | .error _ _ => true) = false ∧
    (match instrumentFile { config := stampConfig } stampChoice stampRun with
      | .ok true r' =>
        decide (r'.workspace.disk.get? ["w".toList, ".tmp_.tmp__1700000000".toList] = none ∧
          r'.workspace.disk.get? ["w".toList, ".tmp_".toList] ≠
            some (.file (Utf8.encode refusedText)))
      | _ => false) = true :=
  ⟨⟨[Json.named Config.suffixKey (.text ".tmp__1700000000".toList)], by simp, rfl, rfl⟩,
    by decide +kernel, by decide +kernel⟩

end Statement

end Run

end SchedulingNoise
