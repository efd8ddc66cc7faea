import SchedulingNoise.Proofs.Scanning
import SchedulingNoise.Proofs.Searching

namespace SchedulingNoise
open Disk
open Workspace (backupEnding)

theorem Emitter.publish_eq (m : Emitter) (e : Event) :
    m.publish e =
      (if m.logged then Workspace.require e.logRecord >>= Workspace.note else pure ()) >>=
        fun _ => m.file.elim (pure ()) (m.writeRecord e) := by
  unfold publish
  cases m.logged <;> cases m.file <;> cases e.logRecord <;> rfl

namespace Run

def Holds (P : Workspace → Prop) (file : Option Path) (r : Run) : Prop :=
  P r.workspace ∧ r.session.emitter.file = file

section Parts

variable {P : Workspace → Prop} {file : Option Path}

theorem ends_inWorkspace {a : Act α} {Q : α → Workspace → Prop} {E : Fault → Workspace → Prop}
    (h : Ends P a Q E) :
    Ends (Holds P file) (inWorkspace a) (fun x => Holds (Q x) file) fun e => Holds (E e) file := by
  intro r hr
  have now := h r.workspace hr.1
  unfold inWorkspace
  cases eq : a r.workspace with
  | ok x w =>
    rw [eq] at now
    exact ⟨now, hr.2⟩
  | error f w =>
    rw [eq] at now
    exact ⟨now, hr.2⟩

theorem leads_inWorkspace {a : Act α} {Q : α → Workspace → Prop} {E : Workspace → Prop}
    (h : Leads P a Q E) :
    Leads (Holds P file) (inWorkspace a) (fun x => Holds (Q x) file) (Holds E file) :=
  ends_inWorkspace (E := fun _ => E) h

theorem holds_inWorkspace {a : Act α} {R : α → Prop} (h : Keeps P a R) :
    Keeps (Holds P file) (inWorkspace a) R :=
  (leads_inWorkspace h).weaken (fun _ _ h => ⟨⟨h.1.1, h.2⟩, h.1.2⟩) fun _ h => h

theorem leads_attempt {I E E' : Run → Prop} {a : RunAct α} {Q : α → Run → Prop}
    (h : Leads I a Q E) : Leads I (attempt a) (fun x r => match x with
      | .ok y => Q y r
      | .error _ => E r) E' := by
  intro r hr
  have now := h r hr
  unfold attempt
  cases eq : a r with
  | ok x r' =>
    rw [eq] at now
    exact now
  | error f r' =>
    rw [eq] at now
    exact now

theorem keeps_attempt {I : Run → Prop} {a : RunAct α} {R : α → Prop} (h : Keeps I a R) :
    Keeps I (attempt a) fun _ => True := by
  refine (leads_attempt h).weaken (fun x r now => ⟨?_, True.intro⟩) fun _ h => h
  cases x with
  | ok y => exact now.1
  | error f => exact now

theorem keeps_require {I : Run → Prop} {e : Except Fault α} :
    Keeps I (require e) fun x => e = .ok x := by
  cases e with
  | ok x => exact .pure rfl
  | error f => exact .fail f _

end Parts

def Standing (d : Disk) (folder : Place) (r : Run) : Prop :=
  Workspace.Standing d folder r.workspace ∧ r.session.emitter.file = none

section Quiet

variable {d : Disk} {folder : Place}

theorem keeps_inWorkspace {a : Act α} {R : α → Prop} (h : Keeps (Workspace.Standing d folder) a R) :
    Keeps (Standing d folder) (inWorkspace a) R :=
  holds_inWorkspace h

theorem keeps_note (record : LogRecord) : Keeps (Standing d folder) (note record) fun _ => True :=
  keeps_inWorkspace (Workspace.keeps_note record)

theorem keeps_noteAll (records : List LogRecord) :
    Keeps (Standing d folder) (noteAll records) fun _ => True :=
  keeps_inWorkspace (Workspace.keeps_noteAll records)

theorem keeps_count (f : Stats → Stats) : Keeps (Standing d folder) (count f) fun _ => True :=
  .change fun _ hr => hr

theorem keeps_emit (e : Event) : Keeps (Standing d folder) (emit e) fun _ => True := by
  have kept : Keeps (Standing d folder) (modify (fun r : Run =>
      { r with session := { r.session with emitter := r.session.emitter.keep e } }) : RunAct PUnit)
      fun _ => True := .change fun r hr => hr
  refine kept.bind fun _ _ => ?_
  have publishes : ∀ m : Emitter, m.file = none →
      Keeps (Workspace.Standing d folder) (m.publish e) fun _ => True := by
    intro m none
    unfold Emitter.publish
    rw [none]
    dsimp only
    split
    · exact Workspace.keeps_require.bind fun _ _ => (Workspace.keeps_note _).bind fun _ _ =>
        .pure True.intro
    · exact .pure True.intro
  intro r hr
  exact keeps_inWorkspace (publishes r.session.emitter hr.2) r hr

theorem keeps_onProgress (a : ProgressAct Unit) :
    Keeps (Standing d folder) (onProgress a) fun _ => True := by
  intro r hr
  unfold onProgress
  cases a r.session.progress with
  | ok x p => exact ⟨hr, True.intro⟩
  | error f p => exact hr

theorem keeps_drawing (a : Draws α) : Keeps (Standing d folder) (drawing a) fun _ => True := by
  intro r hr
  unfold drawing
  cases a r.session.generator with
  | ok x g => exact ⟨hr, True.intro⟩
  | error f g => exact hr

theorem keeps_skip (path : Path) (reason : String) :
    Keeps (Standing d folder) (skip path reason) fun _ => True :=
  (keeps_count _).bind fun _ _ => keeps_emit _

theorem keeps_hasBackup {I : Workspace → Prop} (c : Config) (path : Path) :
    Keeps I (Workspace.hasBackup c path) fun _ => True :=
  Workspace.keeps_require.bind fun _ _ => Workspace.keeps_exists? _

theorem path_ofText (path : Path) (text : Text) (scope : Scope) :
    (SourceUnit.ofText path text scope).path = path := by
  unfold SourceUnit.ofText
  dsimp only
  split <;> rfl

theorem keeps_load (s : RunSettings) (paths : List Path) :
    Keeps (Standing d folder) (load s paths) fun found => ∀ u ∈ found.1, u.path ∈ paths := by
  induction paths with
  | nil => exact .pure fun u hu => by cases hu
  | cons path rest ih =>
    have more : ∀ found : List SourceUnit × List SkippedFile, (∀ u ∈ found.1, u.path ∈ rest) →
        ∀ u ∈ found.1, u.path ∈ path :: rest :=
      fun found all u hu => List.mem_cons_of_mem path (all u hu)
    refine (keeps_inWorkspace (keeps_hasBackup s.config path)).bind fun saved _ => ?_
    split
    · exact (keeps_skip path _).bind fun _ _ => ih.bind fun found all => .pure (more found all)
    · refine (keeps_inWorkspace (Workspace.keeps_readText path _)).bind fun text _ => ?_
      split
      · exact (keeps_note _).bind fun _ _ => (keeps_skip path _).bind fun _ _ =>
          ih.bind fun found all => .pure (more found all)
      · refine ih.bind fun found all => .pure fun u hu => ?_
        rcases List.mem_cons.mp hu with rfl | hu
        · exact List.mem_cons.mpr (.inl (path_ofText path _ s.scope))
        · exact more found all u hu

theorem keeps_scan (b : Batch) :
    Keeps (Standing d folder) (scan b) fun surveys => ∀ s ∈ surveys, s.unit ∈ b.units := by
  refine (keeps_note _).bind fun _ _ => .mapM _ fun u hu => ?_
  refine (keeps_noteAll _).bind fun _ _ => keeps_require.bind fun s hs => ?_
  refine (keeps_count _).bind fun _ _ => (keeps_emit _).bind fun _ _ => .pure ?_
  rw [(Survey.of_ofUnit hs).1]
  exact hu

theorem keeps_choose (s : RunSettings) (survey : Survey) :
    Keeps (Standing d folder) (choose s survey) fun c => c.survey = survey := by
  unfold choose
  split
  · exact ((keeps_drawing _).bind fun _ _ => (keeps_note _).bind fun _ _ => .pure True.intro).bind
      fun _ _ => .pure rfl
  · exact .pure rfl

theorem keeps_projectRoot {I : Workspace → Prop} (root : Path) :
    Keeps I (projectRoot root) fun _ => True := by
  refine (Workspace.keeps_isFolder root).bind fun b _ => ?_
  split <;> exact .pure True.intro

theorem keeps_prepare {d₀ : Disk} {place : Place} {root : Path} (site : Site d₀ folder root place)
    (c : Custody d₀ (searchStart folder root) place d) {s : RunSettings}
    (default : s.config = .default) :
    Keeps (Standing d folder) (prepare s root) fun p => ∀ choice ∈ p.choices, ∃ dir n,
      choice.survey.unit.path = (searchStart folder root).descend (dir ++ [n]) ∧
        IsSource d₀ place dir n := by
  unfold prepare
  rw [default]
  refine (keeps_inWorkspace (keeps_projectRoot root)).bind fun project _ => ?_
  refine (keeps_inWorkspace (keeps_findSources site c)).bind fun paths sources => ?_
  refine (keeps_load s paths).bind fun found loaded => ?_
  refine (keeps_scan ⟨found.1, some project⟩).bind fun surveys scanned => ?_
  have chosen : Keeps (Standing d folder) (surveys.mapM (choose s)) fun choices =>
      ∀ choice ∈ choices, choice.survey ∈ surveys :=
    .mapM surveys fun survey mem => (keeps_choose s survey).weaken fun choice eq => eq ▸ mem
  refine chosen.bind fun choices all => .pure fun choice mem => ?_
  obtain ⟨dir, n, eq, source⟩ := sources _ (loaded _ (scanned _ (all choice mem)))
  exact ⟨dir, n, eq, c.source source⟩

end Quiet

def OnDisk (P : Disk → Prop) (folder : Place) (r : Run) : Prop := ∃ d, P d ∧ Standing d folder r

theorem keeps_onDisk {P : Disk → Prop} {folder : Place} {a : RunAct α} {R : α → Prop}
    (h : ∀ d, P d → Keeps (Standing d folder) a R) : Keeps (OnDisk P folder) a R := by
  rintro r ⟨d, hd, standing⟩
  have now := h d hd r standing
  cases eq : a r with
  | ok x r' =>
    rw [eq] at now
    exact ⟨⟨d, hd, now.1⟩, now.2⟩
  | error f r' =>
    rw [eq] at now
    exact ⟨d, hd, now⟩

section Files

variable {d₀ : Disk} {folder place : Place} {start : Path} {dir : List Text} {n : Text}
  {s : RunSettings}

abbrev Safe (d₀ : Disk) (folder : Place) (start : Path) (place : Place) : Run → Prop :=
  OnDisk (Custody d₀ start place) folder

/-- The originals are in custody, and this file has a backup. -/
abbrev SafeWith (d₀ : Disk) (folder : Place) (start : Path) (place : Place) (dir : List Text)
    (n : Text) : Run → Prop :=
  OnDisk (fun d => Custody d₀ start place d ∧ Held d place dir n) folder

theorem SafeWith.safe {r : Run} (h : SafeWith d₀ folder start place dir n r) :
    Safe d₀ folder start place r := by
  obtain ⟨d, ⟨c, _⟩, standing⟩ := h
  exact ⟨d, c, standing⟩

theorem named_source {d : Disk} (c : Custody d₀ start place d) (fresh : Fresh d₀ place)
    (source : IsSource d₀ place dir n) {w : Workspace} (standing : Workspace.Standing d folder w) :
    Workspace.Named d start place folder dir n w := by
  obtain ⟨now, here, _⟩ := c.present fresh source
  obtain ⟨inFolder, proper, _⟩ := c.base.tree.above here
  exact ⟨c.base, standing, inFolder, proper⟩

theorem leads_backUp (fresh : Fresh d₀ place) (source : IsSource d₀ place dir n) :
    Leads (Safe d₀ folder start place)
      (inWorkspace (Workspace.backUp .default (start.descend (dir ++ [n]))))
      (fun _ => SafeWith d₀ folder start place dir n) (Safe d₀ folder start place) := by
  rintro r ⟨d, c, standing⟩
  obtain ⟨now, here, _⟩ := c.present fresh source
  have named := named_source c fresh source standing.1
  unfold inWorkspace
  rcases Workspace.backUp_outcome named here (fun _ => c.noTrial fresh) with
    ⟨f, w, failed, after⟩ | ⟨w, done, fits, absent, after⟩
  · rw [failed]
    exact ⟨d, c, after, standing.2⟩
  · rw [done]
    exact ⟨_, c.backedUp fresh source fits absent here, after, standing.2⟩

theorem leads_backUpFile (default : s.config = .default) (fresh : Fresh d₀ place)
    (source : IsSource d₀ place dir n) :
    Leads (Safe d₀ folder start place) (backUpFile s (start.descend (dir ++ [n])))
      (fun saved r => match saved with
        | some _ => SafeWith d₀ folder start place dir n r
        | none => Safe d₀ folder start place r) (Safe d₀ folder start place) := by
  unfold backUpFile
  rw [default]
  refine (leads_attempt (leads_backUp fresh source)).bind fun outcome => ?_
  cases outcome with
  | ok saved => exact fun r hr => hr
  | error f =>
    have quiet : ∀ cause : BackupFault, Keeps (Safe d₀ folder start place) (do
        let saved ← require (Workspace.backupPath .default (start.descend (dir ++ [n])))
        note ⟨.error, (Report.backupFailed (start.descend (dir ++ [n])) saved cause.message).text⟩
        emit (.backupFailed (.ofPath (start.descend (dir ++ [n]))) (.text cause.message.toList))
        countError
        pure (none : Option Path)) fun saved => saved = none := fun cause =>
      keeps_require.bind fun _ _ => (keeps_onDisk fun _ _ => keeps_note _).bind fun _ _ =>
        (keeps_onDisk fun _ _ => keeps_emit _).bind fun _ _ =>
          (keeps_onDisk fun _ _ => keeps_count _).bind fun _ _ => .pure rfl
    cases f with
    | backup cause =>
      exact Leads.weaken (quiet cause) (fun saved r h => by rw [h.2]; exact h.1) fun _ h => h
    | _ => exact fun r hr => hr

theorem keeps_write (fresh : Fresh d₀ place) (source : IsSource d₀ place dir n) (text : Text)
    (failure : String) :
    Keeps (SafeWith d₀ folder start place dir n) (write (start.descend (dir ++ [n])) text failure)
      fun _ => True := by
  have written : Keeps (SafeWith d₀ folder start place dir n)
      (inWorkspace (Workspace.writeText (start.descend (dir ++ [n])) text)) fun _ => True := by
    rintro r ⟨d, ⟨c, held⟩, standing⟩
    obtain ⟨now, here, _⟩ := c.present fresh source
    have named := named_source c fresh source standing.1
    obtain ⟨bs, saved⟩ := held
    have fits := (c.kept dir n bs source saved).2.2.2.of_extended c.base.absolute
    unfold inWorkspace
    rcases Workspace.writeText_outcome named fits here
      (fun _ => c.noTemporary fresh source _) text with ⟨f, w, failed, after⟩ | ⟨w, done, after⟩
    · rw [failed]
      exact ⟨d, ⟨c, bs, saved⟩, after, standing.2⟩
    · rw [done]
      exact ⟨⟨_, c.rewritten fresh source ⟨bs, saved⟩ _, after, standing.2⟩, True.intro⟩
  unfold write
  refine (keeps_attempt written).bind fun outcome _ => ?_
  split
  · exact .pure True.intro
  · split
    · exact (keeps_onDisk fun _ _ => keeps_note _).bind fun _ _ =>
        (keeps_onDisk fun _ _ => keeps_count _).bind fun _ _ => .pure True.intro
    · exact .fail _ _

theorem emit_reverted {d : Disk} (path : Path) {r : Run} (standing : Standing d folder r) :
    ∃ r', emit (.fileReverted (.ofPath path)) r = .ok () r' ∧ Standing d folder r' := by
  have publishes : ∀ m : Emitter, m.file = none → ∃ w,
      m.publish (.fileReverted (.ofPath path)) r.workspace = .ok () w ∧
        Workspace.Standing d folder w := by
    intro m none
    unfold Emitter.publish
    rw [none]
    cases m.logged with
    | false => exact ⟨r.workspace, rfl, standing.1⟩
    | true => exact Workspace.note_then _ () standing.1
  obtain ⟨w, published, after⟩ :=
    publishes (r.session.emitter.keep (.fileReverted (.ofPath path))) standing.2
  refine ⟨⟨w, { r.session with
    emitter := r.session.emitter.keep (.fileReverted (.ofPath path)) }⟩, ?_, after, standing.2⟩
  show inWorkspace ((r.session.emitter.keep (.fileReverted (.ofPath path))).publish
    (.fileReverted (.ofPath path))) _ = _
  unfold inWorkspace
  simp only [published]

theorem revertFile_held {d : Disk} (default : s.config = .default) (fresh : Fresh d₀ place)
    (source : IsSource d₀ place dir n) (c : Custody d₀ start place d) {bs : Bytes}
    (saved : d.get? (place ++ dir ++ [n ++ backupEnding]) = some (.file bs)) {r : Run}
    (standing : Standing d folder r) :
    ∃ r', revertFile s (start.descend (dir ++ [n])) r = .ok true r' ∧
      Standing ((d.put (place ++ dir ++ [n]) (.file bs)).erase
        (place ++ dir ++ [n ++ backupEnding])) folder r' := by
  obtain ⟨_, _, ⟨now, here⟩, fits⟩ := c.kept dir n bs source saved
  obtain ⟨w, restored, after⟩ :=
    Workspace.restore_eq (named_source c fresh source standing.1) fits saved here
  have step : attempt (inWorkspace (Workspace.restore .default (start.descend (dir ++ [n])))) r =
      .ok (.ok true) { r with workspace := w } := by
    unfold attempt inWorkspace
    rw [restored]
  unfold revertFile
  rw [default]
  obtain ⟨r', emitted, standing'⟩ := emit_reverted (start.descend (dir ++ [n]))
    (show Standing _ folder { r with workspace := w, session := { r.session with
      stats := { r.session.stats with reverted := r.session.stats.reverted + 1 } } } from
      ⟨after, standing.2⟩)
  refine ⟨r', ?_, standing'⟩
  rw [bind_ok step]
  dsimp only
  rw [bind_ok (show count _ _ = .ok () _ from rfl), bind_ok emitted]
  rfl

theorem revertFile_free {d : Disk} (default : s.config = .default) (fresh : Fresh d₀ place)
    (source : IsSource d₀ place dir n) (c : Custody d₀ start place d)
    (fits : Fits start dir (n ++ backupEnding))
    (absent : d.get? (place ++ dir ++ [n ++ backupEnding]) = none) {r : Run}
    (standing : Standing d folder r) :
    ∃ r', revertFile s (start.descend (dir ++ [n])) r = .ok false r' ∧ Standing d folder r' := by
  obtain ⟨w, restored, after⟩ :=
    Workspace.restore_none (named_source c fresh source standing.1) fits absent
  have step : attempt (inWorkspace (Workspace.restore .default (start.descend (dir ++ [n])))) r =
      .ok (.ok false) { r with workspace := w } := by
    unfold attempt inWorkspace
    rw [restored]
  refine ⟨{ r with workspace := w }, ?_, after, standing.2⟩
  unfold revertFile
  rw [default, bind_ok step]
  rfl

theorem leads_revertFile (default : s.config = .default) (fresh : Fresh d₀ place)
    (source : IsSource d₀ place dir n) :
    Leads (SafeWith d₀ folder start place dir n) (revertFile s (start.descend (dir ++ [n])))
      (fun _ => Safe d₀ folder start place) (Safe d₀ folder start place) := by
  rintro r ⟨d, ⟨c, bs, saved⟩, standing⟩
  obtain ⟨r', reverted, standing'⟩ := revertFile_held default fresh source c saved standing
  rw [reverted]
  exact ⟨_, (c.restored fresh source saved).1, standing'⟩

theorem leads_safe {a : RunAct α} {R : α → Prop}
    (h : Keeps (SafeWith d₀ folder start place dir n) a R) :
    Leads (SafeWith d₀ folder start place dir n) a (fun _ => SafeWith d₀ folder start place dir n)
      (Safe d₀ folder start place) :=
  Leads.weaken h (fun _ _ h => h.1) fun _ h => h.safe

theorem keeps_noisyText {I : Disk → Prop} (choice : Choice) :
    Keeps (OnDisk I folder) (noisyText choice) fun _ => True :=
  keeps_onDisk fun _ _ => (keeps_noteAll _).bind fun _ _ => keeps_require.trivial

theorem keeps_instrumentFile (default : s.config = .default) (fresh : Fresh d₀ place)
    {choice : Choice} (at_ : choice.survey.unit.path = start.descend (dir ++ [n]))
    (source : IsSource d₀ place dir n) :
    Keeps (Safe d₀ folder start place) (instrumentFile s choice) fun _ => True := by
  have waits : Keeps (Safe d₀ folder start place)
      (inWorkspace (Workspace.waitForRelease (start.descend (dir ++ [n])))) fun _ => True :=
    keeps_onDisk fun _ _ => keeps_inWorkspace (Workspace.keeps_waitForRelease _ _ _)
  unfold instrumentFile
  rw [at_]
  refine waits.bind fun released _ => ?_
  split
  · exact (keeps_onDisk fun _ _ => keeps_skip _ _).bind fun _ _ => .pure True.intro
  · refine (leads_backUpFile default fresh source).bind fun saved => ?_
    cases saved with
    | none => exact Keeps.pure True.intro
    | some saved =>
      -- From here on the file has a backup, until it may be put back at the end.
      refine (leads_safe (keeps_onDisk fun _ _ => keeps_emit _)).bind fun _ => ?_
      refine (leads_safe (keeps_noisyText choice)).bind fun text => ?_
      refine (leads_safe (keeps_write fresh source text _)).bind fun written => ?_
      split
      · exact Leads.weaken ((keeps_onDisk fun _ _ => keeps_count _).bind fun _ _ =>
          (keeps_onDisk fun _ _ => keeps_emit _).bind fun _ _ => .pure True.intro)
          (fun _ _ h => ⟨SafeWith.safe h.1, h.2⟩) fun _ h => SafeWith.safe h
      · exact (leads_revertFile default fresh source).bind fun _ => Keeps.pure True.intro

theorem keeps_carryOut (default : s.config = .default) (fresh : Fresh d₀ place)
    {choices : List Choice} (sources : ∀ choice ∈ choices, ∃ dir n,
      choice.survey.unit.path = start.descend (dir ++ [n]) ∧ IsSource d₀ place dir n) :
    Keeps (Safe d₀ folder start place) (carryOut s false choices) fun _ => True := by
  refine .forM choices fun choice mem => ?_
  obtain ⟨dir, n, here, source⟩ := sources choice mem
  exact (keeps_instrumentFile default fresh here source).bind fun _ _ =>
    keeps_onDisk fun _ _ => keeps_onProgress _

/-- A run keeps the originals in custody, however it ends. -/
theorem keeps_run {root : Path} (site : Site d₀ folder root place) (default : s.config = .default) :
    Keeps (Safe d₀ folder (searchStart folder root) place) (run s root false) fun _ => True := by
  unfold run
  refine (keeps_onDisk fun _ _ => keeps_emit _).bind fun _ _ => ?_
  refine (keeps_onDisk fun d c => keeps_prepare site c default).bind fun prepared sources => ?_
  split
  · exact .pure True.intro
  · have targets : ∀ choice ∈ prepared.choices.filter fun c => !c.points.isEmpty, ∃ dir n,
        choice.survey.unit.path = (searchStart folder root).descend (dir ++ [n]) ∧
          IsSource d₀ place dir n :=
      fun choice mem => sources choice (List.mem_filter.mp mem).1
    refine (keeps_onDisk fun _ _ => keeps_onProgress _).bind fun _ _ => ?_
    refine (keeps_attempt (keeps_carryOut default site.fresh targets)).bind fun result _ => ?_
    refine (keeps_onDisk fun _ _ => keeps_onProgress _).bind fun _ _ => ?_
    refine keeps_require.bind fun _ _ => ?_
    intro r hr
    exact ((keeps_onDisk fun _ _ => keeps_emit _).bind fun _ _ => .pure True.intro) r hr

theorem revertAll_eq (default : s.config = .default) (fresh : Fresh d₀ place) {paths : List Path}
    {d : Disk} (c : Custody d₀ start place d) {r : Run} (standing : Standing d folder r)
    (all : ∀ q ∈ paths, ∃ dir n, q = start.descend (dir ++ [n]) ∧ IsSource d₀ place dir n ∧
      Fits start dir (n ++ backupEnding) ∧ d₀.get? (place ++ dir ++ [n ++ backupEnding]) = none) :
    ∃ count r' d', revertAll s paths r = .ok count r' ∧ Standing d' folder r' ∧
      Custody d₀ start place d' ∧ ∀ dir n, Held d' place dir n →
        Held d place dir n ∧ start.descend (dir ++ [n]) ∉ paths := by
  induction paths generalizing d r with
  | nil => exact ⟨0, r, d, rfl, standing, c, fun dir n held => ⟨held, by simp⟩⟩
  | cons path rest ih =>
    obtain ⟨dir, n, rfl, source, fits, absent⟩ := all path List.mem_cons_self
    have others := fun q hq => all q (List.mem_cons_of_mem _ hq)
    by_cases held : Held d place dir n
    · obtain ⟨bs, saved⟩ := held
      obtain ⟨r₁, reverted, standing₁⟩ := revertFile_held default fresh source c saved standing
      obtain ⟨c₁, holds⟩ := c.restored fresh source saved
      obtain ⟨count, r', d', done, standing', c', left⟩ := ih c₁ standing₁ others
      refine ⟨count + 1, r', d', ?_, standing', c', fun dir' n' held' => ?_⟩
      · rw [revertAll, bind_ok reverted, bind_ok done]
        rfl
      · obtain ⟨before, notRest⟩ := left dir' n' held'
        obtain ⟨was, other⟩ := (holds dir' n').mp before
        refine ⟨was, fun mem => ?_⟩
        rcases List.mem_cons.mp mem with eq | mem
        · exact other (descend_inj eq)
        · exact notRest mem
    · have none := (c.backup_frame fresh held).trans absent
      obtain ⟨r₁, reverted, standing₁⟩ := revertFile_free default fresh source c fits none standing
      obtain ⟨count, r', d', done, standing', c', left⟩ := ih c standing₁ others
      refine ⟨count, r', d', ?_, standing', c', fun dir' n' held' => ?_⟩
      · rw [revertAll, bind_ok reverted, bind_ok done]
        rfl
      · obtain ⟨was, notRest⟩ := left dir' n' held'
        refine ⟨was, fun mem => ?_⟩
        rcases List.mem_cons.mp mem with eq | mem
        · obtain ⟨rfl, rfl⟩ := descend_inj eq
          exact held was
        · exact notRest mem

/-- Reverting goes through and leaves the disk as it was at first. -/
theorem revert_eq {root : Path} (site : Site d₀ folder root place) (default : s.config = .default)
    {r : Run} (safe : Safe d₀ folder (searchStart folder root) place r) :
    ∃ count r' d', revert s root r = .ok count r' ∧ Standing d' folder r' ∧
      Custody d₀ (searchStart folder root) place d' ∧ ∀ p, d'.get? p = d₀.get? p := by
  obtain ⟨d, c, standing⟩ := safe
  obtain ⟨paths, w, found, after, mem⟩ := findBackedUp_eq site c standing.1
  have step : inWorkspace (Workspace.findBackedUp .default (some root)) r =
      .ok paths { r with workspace := w } := by
    unfold inWorkspace
    rw [found]
  have all : ∀ q ∈ paths, ∃ dir n, q = (searchStart folder root).descend (dir ++ [n]) ∧
      IsSource d₀ place dir n ∧ Fits (searchStart folder root) dir (n ++ backupEnding) ∧
      d₀.get? (place ++ dir ++ [n ++ backupEnding]) = none := by
    intro q hq
    obtain ⟨dir, n, rfl, source, bs, saved⟩ := (mem q).mp hq
    obtain ⟨_, absent, _, fits⟩ := c.kept dir n bs source saved
    exact ⟨dir, n, rfl, source, fits, absent⟩
  obtain ⟨count, r', d', done, standing', c', left⟩ :=
    revertAll_eq (r := { r with workspace := w }) default site.fresh c ⟨after, standing.2⟩ all
  refine ⟨count, r', d', ?_, standing', c', fun p => ?_⟩
  · unfold revert
    rw [default, bind_ok step, done]
  · apply c'.frame
    intro dir n source held
    obtain ⟨was, notFound⟩ := left dir n held
    exact absurd ((mem _).mpr ⟨dir, n, rfl, source, was⟩) notFound

end Files

end Run

end SchedulingNoise
