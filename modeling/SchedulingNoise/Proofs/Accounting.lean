import Mathlib.Algebra.Ring.Int.Defs
import SchedulingNoise.Proofs.History
import SchedulingNoise.Proofs.Matching

/-! What a session counts agrees with the events that it told. A counter and its event are written
one after the other, and whatever the disk does between them, after every call there is one event
for each count. -/
namespace SchedulingNoise

namespace Event

def detail (e : Event) (name : String) : Option Json :=
  match e.context with
  | .object ms => Members.get? ms name.toList
  | _ => none

def points (e : Event) : Int :=
  match e.detail "points" with
  | some (.int n) => n
  | _ => 0

def Telling (e : Event) : Prop := ∃ record, e.logRecord = .ok record

theorem telling_about (e : Event) (ms : Members) : (e.about ms).Telling := ⟨_, rfl⟩

end Event

namespace Emitter

def Spelled (m : Emitter) : Prop := ∀ p, m.file = some p → Char.ofNat 0 ∉ p.text

def failures (m : Emitter) : Nat := m.count .backupFailed + m.count .restoreFailed

def points (m : Emitter) : Int :=
  ((m.query (some .fileInstrumented) none).map Event.points).sum

def EndsWithBackup (events : List Event) (path : Json) : Prop :=
  ∃ b, events.getLast? = some b ∧ b.kind = .fileBackedUp ∧ b.detail "path" = some path

/-- Right before an instrumented file comes the backup of that file. -/
def BackedUp (m : Emitter) : Prop :=
  ∀ before e rest, m.events = before ++ e :: rest → e.kind = .fileInstrumented →
    ∃ path, e.detail "path" = some path ∧ EndsWithBackup before path

theorem count_keep (m : Emitter) (e : Event) (k : EventKind) :
    (m.keep e).count k = m.count k + if e.kind = k then 1 else 0 := by
  simp only [count, query, keep, Option.all_some, Option.all_none, Bool.and_true,
    List.filter_append, List.length_append, List.filter_cons, List.filter_nil, decide_eq_true_eq]
  split <;> rfl

theorem points_keep (m : Emitter) (e : Event) :
    (m.keep e).points = m.points + if e.kind = .fileInstrumented then e.points else 0 := by
  simp only [points, query, keep, Option.all_some, Option.all_none, Bool.and_true,
    List.filter_append, List.map_append, List.sum_append, List.filter_cons, List.filter_nil,
    decide_eq_true_eq]
  split <;> simp

theorem BackedUp.keep {m : Emitter} (h : m.BackedUp) {e : Event}
    (now : e.kind = .fileInstrumented → ∃ path, e.detail "path" = some path ∧
      EndsWithBackup m.events path) : (m.keep e).BackedUp := by
  intro before e' rest eq kind
  rcases List.eq_nil_or_concat rest with rfl | ⟨rest', last, rfl⟩
  · obtain ⟨same, here⟩ := List.append_inj' (show m.events ++ [e] = before ++ [e'] from eq) rfl
    cases here
    rw [← same]
    exact now kind
  · have shorter : m.events ++ [e] = (before ++ e' :: rest') ++ [last] := by
      simpa [Emitter.keep] using eq
    exact h before e' rest' (List.append_inj' shorter rfl).1 kind

end Emitter

/-- What was counted is what was told. -/
structure Agrees (s : Stats) (m : Emitter) : Prop where
  scanned : s.scanned = m.count .fileScanned
  instrumented : s.instrumented = m.count .fileInstrumented
  annotated : s.annotated = m.count .fileAnnotated
  reverted : s.reverted = m.count .fileReverted
  skipped : s.skipped = m.count .fileSkipped
  injected : (s.injected : Int) = m.points
  backedUp : m.BackedUp

/-- What a session keeps whose events go to a file. A failure is told before it is counted, so one
that cannot be told is not counted either. -/
structure Balanced (file : Option Path) (s : Stats) (m : Emitter) : Prop extends Agrees s m where
  file : m.file = file
  errors : m.Spelled → m.failures ≤ s.errors

namespace Balanced

variable {file : Option Path} {s : Stats} {m : Emitter}

theorem start (h : m.events = []) : Balanced m.file {} m := by
  have none : ∀ k, m.count k = 0 := fun k => by simp [Emitter.count, Emitter.query, h]
  refine ⟨⟨(none _).symm, (none _).symm, (none _).symm, (none _).symm, (none _).symm, ?_, ?_⟩,
    rfl, fun _ => ?_⟩
  · simp [Emitter.points, Emitter.query, h]
  · intro before e rest eq
    simp [h] at eq
  · simp [Emitter.failures, none]

theorem withErrors (h : Balanced file s m) {n : Nat} (covers : m.Spelled → m.failures ≤ n) :
    Balanced file { s with errors := n } m :=
  ⟨⟨h.scanned, h.instrumented, h.annotated, h.reverted, h.skipped, h.injected, h.backedUp⟩, h.file,
    covers⟩

theorem moreErrors (h : Balanced file s m) :
    Balanced file { s with errors := s.errors + 1 } m :=
  h.withErrors fun spelled => Nat.le_succ_of_le (h.errors spelled)

theorem ofMoreErrors (h : Balanced file { s with errors := s.errors + 1 } m)
    (lost : ¬ m.Spelled) : Balanced file s m :=
  h.withErrors (n := s.errors) fun spelled => absurd spelled lost

/-- A change of the counters and an event that go together. -/
structure Entry (f : Stats → Stats) (e : Event) (s : Stats) : Prop where
  scanned : (f s).scanned = s.scanned + if e.kind = .fileScanned then 1 else 0
  instrumented : (f s).instrumented = s.instrumented + if e.kind = .fileInstrumented then 1 else 0
  annotated : (f s).annotated = s.annotated + if e.kind = .fileAnnotated then 1 else 0
  reverted : (f s).reverted = s.reverted + if e.kind = .fileReverted then 1 else 0
  skipped : (f s).skipped = s.skipped + if e.kind = .fileSkipped then 1 else 0
  injected : ((f s).injected : Int) =
    s.injected + if e.kind = .fileInstrumented then e.points else 0
  errors : s.errors + (if e.kind = .backupFailed then 1 else 0) +
    (if e.kind = .restoreFailed then 1 else 0) ≤ (f s).errors

theorem entry {f : Stats → Stats} {e : Event} (h : Balanced file s m) (entered : Entry f e s)
    (behind : e.kind = .fileInstrumented → ∃ path, e.detail "path" = some path ∧
      Emitter.EndsWithBackup m.events path) : Balanced file (f s) (m.keep e) where
  scanned := by rw [entered.scanned, Emitter.count_keep, h.scanned]
  instrumented := by rw [entered.instrumented, Emitter.count_keep, h.instrumented]
  annotated := by rw [entered.annotated, Emitter.count_keep, h.annotated]
  reverted := by rw [entered.reverted, Emitter.count_keep, h.reverted]
  skipped := by rw [entered.skipped, Emitter.count_keep, h.skipped]
  injected := by rw [entered.injected, Emitter.points_keep, h.injected]
  backedUp := h.backedUp.keep behind
  file := h.file
  errors := by
    intro spelled
    have before : m.count .backupFailed + m.count .restoreFailed ≤ s.errors := h.errors spelled
    have now := entered.errors
    rw [Emitter.failures, Emitter.count_keep, Emitter.count_keep]
    omega

end Balanced

namespace Run

def Booked (P : Stats → Emitter → Prop) (r : Run) : Prop := P r.session.stats r.session.emitter

def Owed (P : Stats → Emitter → Prop) (f : Stats → Stats) (s : Stats) (m : Emitter) : Prop :=
  ∃ s₀, s = f s₀ ∧ P s₀ m

section Steps

variable {P Q : Stats → Emitter → Prop} {file : Option Path}

theorem books_inWorkspace (a : Act α) : Keeps (Booked P) (inWorkspace a) fun _ => True := by
  intro r hr
  unfold inWorkspace
  cases a r.workspace with
  | ok x w => exact ⟨hr, True.intro⟩
  | error f w => exact hr

theorem books_note (record : LogRecord) : Keeps (Booked P) (note record) fun _ => True :=
  books_inWorkspace _

theorem books_noteAll (records : List LogRecord) :
    Keeps (Booked P) (noteAll records) fun _ => True :=
  books_inWorkspace _

theorem books_onProgress (a : ProgressAct Unit) :
    Keeps (Booked P) (onProgress a) fun _ => True := by
  intro r hr
  unfold onProgress
  cases a r.session.progress with
  | ok x p => exact ⟨hr, True.intro⟩
  | error f p => exact hr

theorem books_drawing (a : Draws α) : Keeps (Booked P) (drawing a) fun _ => True := by
  intro r hr
  unfold drawing
  cases a r.session.generator with
  | ok x g => exact ⟨hr, True.intro⟩
  | error f g => exact hr

theorem books_count {E : Run → Prop} {f : Stats → Stats} (h : ∀ s m, P s m → Q (f s) m) :
    Leads (Booked P) (count f) (fun _ => Booked Q) E :=
  fun _ hr => h _ _ hr

theorem writeRecord_ok (m : Emitter) (e : Event) {p : Path} (spelled : Char.ofNat 0 ∉ p.text)
    (w : Workspace) : ∃ w', m.writeRecord e p w = .ok () w' := by
  unfold Emitter.writeRecord
  rw [bind_ok (Workspace.get_eq w)]
  have changed := Workspace.change_eq (w := w) spelled fun d folder p =>
    d.append folder p (Utf8.encode ((m.stamped e w.clock).line ++ ['\n']))
  split at changed
  · exact ⟨_, Workspace.orOnRefusal_ok changed _⟩
  · exact ⟨_, Workspace.orOnRefusal_os changed _⟩

theorem publish_ok {m : Emitter} (spelled : m.Spelled) {e : Event} (telling : e.Telling)
    (w : Workspace) : ∃ w', m.publish e w = .ok () w' := by
  obtain ⟨record, logged⟩ := telling
  have written : ∀ w, ∃ w', (m.file.elim (pure ()) (m.writeRecord e) : Act Unit) w = .ok () w' := by
    intro w
    cases file : m.file with
    | some p => exact writeRecord_ok m e (spelled p file) w
    | none => exact ⟨w, rfl⟩
  rw [Emitter.publish_eq, logged]
  split
  · rw [bind_ok (show (Workspace.require (.ok record) >>= Workspace.note) w = .ok () _ from rfl)]
    exact written _
  · exact written w

/-- An event is kept before it is told, and only the file of the events can fail it. -/
theorem books_emit {e : Event} (telling : e.Telling) (h : ∀ s m, P s m → Q s (m.keep e)) :
    Leads (Booked P) (emit e) (fun _ => Booked Q)
      (Booked fun s m => Q s m ∧ ¬ m.Spelled) := by
  intro r hr
  have kept := h _ _ hr
  by_cases spelled : (r.session.emitter.keep e).Spelled
  · obtain ⟨w', told⟩ := publish_ok spelled telling r.workspace
    have step : emit e r = .ok ()
        ⟨w', { r.session with emitter := r.session.emitter.keep e }⟩ := by
      show inWorkspace ((r.session.emitter.keep e).publish e) _ = _
      unfold inWorkspace
      simp only [told]
    rw [step]
    exact kept
  · have step : emit e r = inWorkspace ((r.session.emitter.keep e).publish e)
        { r with session := { r.session with emitter := r.session.emitter.keep e } } := rfl
    rw [step]
    unfold inWorkspace
    dsimp only
    cases (r.session.emitter.keep e).publish e r.workspace with
    | ok x w => exact kept
    | error f w => exact ⟨kept, spelled⟩

theorem books_counted (f : Stats → Stats) :
    Leads (Booked P) (count f) (fun _ => Booked (Owed P f)) (Booked (Balanced file)) :=
  books_count fun s _ hs => ⟨s, rfl, hs⟩

theorem books_told {f : Stats → Stats} {e : Event} (telling : e.Telling)
    (h : ∀ s m, P s m → Balanced file (f s) (m.keep e)) :
    Leads (Booked (Owed P f)) (emit e) (fun _ => Booked (Balanced file))
      (Booked (Balanced file)) := by
  refine (books_emit telling (Q := Balanced file) ?_).weaken (fun _ _ h => h) fun _ h => h.1
  rintro s m ⟨s₀, rfl, hs⟩
  exact h s₀ m hs

theorem books_entry {f : Stats → Stats} {e : Event} (telling : e.Telling)
    (h : ∀ s m, P s m → Balanced file (f s) (m.keep e)) {next : Unit → RunAct α} {R : α → Prop}
    (later : Keeps (Booked (Balanced file)) (next ()) R) :
    Leads (Booked P) (do count f; emit e >>= next) (fun x r => Booked (Balanced file) r ∧ R x)
      (Booked (Balanced file)) :=
  (books_counted f).bind fun _ => (books_told telling h).bind fun _ => later

theorem books_plain {f : Stats → Stats} {e : Event} (telling : e.Telling)
    (entered : ∀ s, Balanced.Entry f e s) (kind : e.kind ≠ .fileInstrumented)
    {next : Unit → RunAct α} {R : α → Prop} (later : Keeps (Booked (Balanced file)) (next ()) R) :
    Keeps (Booked (Balanced file)) (do count f; emit e >>= next) R :=
  books_entry telling (fun s _ hs => hs.entry (entered s) fun eq => absurd eq kind) later

theorem books_failure {e : Event} (telling : e.Telling)
    (h : ∀ s, Balanced.Entry (fun s => { s with errors := s.errors + 1 }) e s)
    (kind : e.kind ≠ .fileInstrumented) {next : Unit → RunAct α} {R : α → Prop}
    (later : Keeps (Booked (Balanced file)) (next ()) R) :
    Keeps (Booked (Balanced file)) (do emit e; countError >>= next) R := by
  have told : Leads (Booked (Balanced file)) (emit e)
      (fun _ => Booked fun s m => Balanced file { s with errors := s.errors + 1 } m)
      (Booked (Balanced file)) := by
    refine (books_emit telling fun s m hs => ?_).weaken (fun _ _ h => h)
      fun _ h => h.1.ofMoreErrors h.2
    exact hs.entry (h s) fun eq => absurd eq kind
  have counted : Leads (Booked fun s m => Balanced file { s with errors := s.errors + 1 } m)
      countError (fun _ => Booked (Balanced file)) (Booked (Balanced file)) :=
    books_count fun s m hs => hs
  exact told.bind fun _ => counted.bind fun _ => later

theorem books_tell {e : Event} (telling : e.Telling) (h : ∀ s, Balanced.Entry id e s)
    (kind : e.kind ≠ .fileInstrumented) : Keeps (Booked (Balanced file)) (emit e) fun _ => True :=
  (books_emit telling fun _ _ hs => hs.entry (h _) fun eq => absurd eq kind).weaken
    (fun _ _ h => ⟨h, True.intro⟩) fun _ h => h.1

theorem books_skip (path : Path) (reason : String) :
    Keeps (Booked (Balanced file)) (skip path reason) fun _ => True := by
  refine (books_counted _).bind fun _ => Leads.weaken (books_told (Event.telling_about _ _) ?_)
    (fun _ _ h => ⟨h, True.intro⟩) fun _ h => h
  intro s m hs
  apply hs.entry
  · exact ⟨rfl, rfl, rfl, rfl, rfl, rfl, Nat.le_refl _⟩
  · intro kind
    cases kind

theorem books_revertFile (s : RunSettings) (path : Path) :
    Keeps (Booked (Balanced file)) (revertFile s path) fun _ => True := by
  refine (keeps_attempt (books_inWorkspace _)).bind fun outcome _ => ?_
  split
  · refine books_plain (Event.telling_about _ _) (fun _ => ?_) ?_ (.pure True.intro)
    · exact ⟨rfl, rfl, rfl, rfl, rfl, rfl, Nat.le_refl _⟩
    · intro kind
      cases kind
  · exact .pure True.intro
  · refine (books_note _).bind fun _ _ => ?_
    refine books_failure (Event.telling_about _ _) (fun st => ?_) ?_ (.pure True.intro)
    · exact ⟨rfl, rfl, rfl, rfl, rfl, rfl, Nat.le_refl _⟩
    · intro kind
      cases kind
  · exact .fail _ _

theorem books_backUpFile (s : RunSettings) (path : Path) :
    Keeps (Booked (Balanced file)) (backUpFile s path) fun _ => True := by
  refine (keeps_attempt (books_inWorkspace _)).bind fun outcome _ => ?_
  split
  · exact .pure True.intro
  · refine keeps_require.bind fun _ _ => (books_note _).bind fun _ _ => ?_
    refine books_failure (Event.telling_about _ _) (fun st => ?_) ?_ (.pure True.intro)
    · exact ⟨rfl, rfl, rfl, rfl, rfl, rfl, Nat.le_refl _⟩
    · intro kind
      cases kind
  · exact .fail _ _

theorem books_write (more : ∀ s m, P s m → P { s with errors := s.errors + 1 } m) (path : Path)
    (text : Text) (failure : String) :
    Keeps (Booked P) (write path text failure) fun _ => True := by
  refine (keeps_attempt (books_inWorkspace _)).bind fun outcome _ => ?_
  split
  · exact .pure True.intro
  · split
    · refine (books_note _).bind fun _ _ => ?_
      exact Keeps.bind (R := fun _ => True) (fun r hr => ⟨more _ _ hr, True.intro⟩) fun _ _ =>
        .pure True.intro
    · exact .fail _ _

def AfterBackup (file : Option Path) (path : Path) (s : Stats) (m : Emitter) : Prop :=
  Balanced file s m ∧ Emitter.EndsWithBackup m.events (.text path.text)

theorem books_fileBackedUp (path : Path) (saved : Text) :
    Leads (Booked (Balanced file)) (emit (.fileBackedUp (.ofPath path) saved))
      (fun _ => Booked (AfterBackup file path)) (Booked (Balanced file)) := by
  refine (books_emit (Event.telling_about _ _) fun s m hs => ?_).weaken (fun _ _ h => h)
    fun _ h => h.1.1
  refine ⟨hs.entry (f := id) ?_ ?_, ?_⟩
  · exact ⟨rfl, rfl, rfl, rfl, rfl, rfl, Nat.le_refl _⟩
  · intro kind
    cases kind
  · exact ⟨.fileBackedUp (.ofPath path) saved, by simp [Emitter.keep]; rfl, rfl, rfl⟩

theorem books_fileInstrumented (path : Path) (points : Nat) :
    Leads (Booked (AfterBackup file path)) (do
        count fun st =>
          { st with instrumented := st.instrumented + 1, injected := st.injected + points }
        emit (.fileInstrumented (.ofPath path) (.int points))
        pure true) (fun _ => Booked (Balanced file)) (Booked (Balanced file)) := by
  have entered : ∀ s, Balanced.Entry (fun st : Stats =>
      { st with instrumented := st.instrumented + 1, injected := st.injected + points })
      (.fileInstrumented (.ofPath path) (.int points)) s := fun s =>
    ⟨rfl, rfl, rfl, rfl, rfl, rfl, Nat.le_refl _⟩
  refine Leads.weaken (books_entry (R := fun _ => True) (Event.telling_about _ _)
    (fun s m hs => hs.1.entry (entered s) fun _ => ⟨_, rfl, hs.2⟩) (.pure True.intro))
    (fun _ _ h => h.1) fun _ h => h

/-- No event comes between the backup of a file and the news that it is instrumented. -/
theorem books_instrumentFile (s : RunSettings) (c : Choice) :
    Keeps (Booked (Balanced file)) (instrumentFile s c) fun _ => True := by
  refine (books_inWorkspace _).bind fun free _ => ?_
  split
  · exact (books_skip _ _).bind fun _ _ => .pure True.intro
  · refine (books_backUpFile s _).bind fun saved _ => ?_
    split
    · exact .pure True.intro
    · refine (books_fileBackedUp _ _).bind fun _ => ?_
      have noisy : Leads (Booked (AfterBackup file c.survey.unit.path)) (noisyText c)
          (fun _ => Booked (AfterBackup file c.survey.unit.path)) (Booked (Balanced file)) :=
        Leads.weaken ((books_noteAll _).bind fun _ _ => keeps_require) (fun _ _ h => h.1)
          fun _ h => h.1
      have written : ∀ text failure, Leads (Booked (AfterBackup file c.survey.unit.path))
          (write c.survey.unit.path text failure)
          (fun _ => Booked (AfterBackup file c.survey.unit.path)) (Booked (Balanced file)) :=
        fun text failure => Leads.weaken
          (books_write (fun _ _ h => ⟨h.1.moreErrors, h.2⟩) _ text failure)
          (fun _ _ h => h.1) fun _ h => h.1
      refine noisy.bind fun text => (written text _).bind fun done => ?_
      split
      · exact Leads.weaken (books_fileInstrumented _ _) (fun _ _ h => ⟨h, True.intro⟩) fun _ h => h
      · intro r hr
        exact ((books_revertFile s _).bind fun _ _ => .pure True.intro) r hr.1

theorem books_annotateFile (c : Choice) :
    Keeps (Booked (Balanced file)) (annotateFile c) fun _ => True := by
  refine keeps_require.bind fun lines _ => ?_
  refine (books_write (fun _ _ h => h.moreErrors) _ _ _).bind fun done _ => ?_
  split
  · refine books_plain (Event.telling_about _ _) (fun _ => ?_) ?_ (.pure True.intro)
    · exact ⟨rfl, rfl, rfl, rfl, rfl, rfl, Nat.le_refl _⟩
    · intro kind
      cases kind
  · exact .pure True.intro

theorem books_carryOut (s : RunSettings) (annotate : Bool) (choices : List Choice) :
    Keeps (Booked (Balanced file)) (carryOut s annotate choices) fun _ => True := by
  refine .forM choices fun c _ => ?_
  dsimp only
  split
  · exact (books_annotateFile c).bind fun _ _ => books_onProgress _
  · exact (books_instrumentFile s c).bind fun _ _ => books_onProgress _

theorem books_load (s : RunSettings) (paths : List Path) :
    Keeps (Booked (Balanced file)) (load s paths) fun _ => True := by
  induction paths with
  | nil => exact .pure True.intro
  | cons path rest ih =>
    refine (books_inWorkspace _).bind fun saved _ => ?_
    split
    · exact (books_skip path _).bind fun _ _ => ih.bind fun _ _ => .pure True.intro
    · refine (books_inWorkspace _).bind fun text _ => ?_
      split
      · exact (books_note _).bind fun _ _ => (books_skip path _).bind fun _ _ =>
          ih.bind fun _ _ => .pure True.intro
      · exact ih.bind fun _ _ => .pure True.intro

theorem books_scanUnit (b : Batch) (u : SourceUnit) :
    Keeps (Booked (Balanced file)) (scanUnit b u) fun _ => True := by
  refine (books_noteAll _).bind fun _ _ => keeps_require.bind fun survey _ => ?_
  refine books_plain (Event.telling_about _ _) (fun _ => ?_) ?_ (.pure True.intro)
  · exact ⟨rfl, rfl, rfl, rfl, rfl, rfl, Nat.le_refl _⟩
  · intro kind
    cases kind

theorem books_choose (s : RunSettings) (survey : Survey) :
    Keeps (Booked (Balanced file)) (choose s survey) fun _ => True := by
  unfold choose
  split
  · exact ((books_drawing _).bind fun _ _ => (books_note _).bind fun _ _ => .pure True.intro).bind
      fun _ _ => .pure True.intro
  · exact .pure True.intro

theorem books_prepare (s : RunSettings) (root : Path) :
    Keeps (Booked (Balanced file)) (prepare s root) fun _ => True := by
  refine (books_inWorkspace _).bind fun project _ => (books_inWorkspace _).bind fun paths _ => ?_
  refine (books_load s paths).bind fun found _ => ?_
  refine Keeps.bind ((books_note _).bind fun _ _ => .mapM _ fun u _ => books_scanUnit _ u)
    fun surveys _ => ?_
  exact (Keeps.mapM _ fun survey _ => books_choose s survey).bind fun _ _ => .pure True.intro

theorem books_run (s : RunSettings) (root : Path) (annotate : Bool) :
    Keeps (Booked (Balanced file)) (run s root annotate) fun _ => True := by
  refine (books_tell (Event.telling_about _ _) (fun _ => ?_) ?_).bind fun _ _ => ?_
  · exact ⟨rfl, rfl, rfl, rfl, rfl, rfl, Nat.le_refl _⟩
  · intro kind
    cases kind
  refine (books_prepare s root).bind fun prepared _ => ?_
  split
  · exact .pure True.intro
  · refine (books_onProgress _).bind fun _ _ => ?_
    refine (keeps_attempt (books_carryOut s annotate _)).bind fun result _ => ?_
    refine (books_onProgress _).bind fun _ _ => keeps_require.bind fun _ _ => ?_
    have asked : Keeps (Booked (Balanced file)) (get : RunAct Run) fun _ => True := fun r hr =>
      ⟨hr, True.intro⟩
    refine asked.bind fun r _ => ?_
    refine (books_tell (Event.telling_about _ _) (fun _ => ?_) ?_).bind fun _ _ => .pure True.intro
    · exact ⟨rfl, rfl, rfl, rfl, rfl, rfl, Nat.le_refl _⟩
    · intro kind
      cases kind

theorem books_revert (s : RunSettings) (root : Path) :
    Keeps (Booked (Balanced file)) (revert s root) fun _ => True := by
  refine (books_inWorkspace _).bind fun paths _ => ?_
  induction paths with
  | nil => exact .pure True.intro
  | cons path rest ih =>
    exact (books_revertFile s path).bind fun _ _ => ih.bind fun _ _ => .pure True.intro

end Steps

theorem keeps_load_all (s : RunSettings) (paths : List Path) :
    Keeps (fun _ => True) (load s paths)
      fun found => (found.1.map (·.path) ++ found.2.map (·.path)).Perm paths := by
  induction paths with
  | nil => exact .pure (.refl _)
  | cons path rest ih =>
    refine (Keeps.anything _).bind fun saved _ => ?_
    split
    · refine (Keeps.anything _).bind fun _ _ => ih.bind fun found all => .pure ?_
      exact List.perm_middle.trans (all.cons path)
    · refine (Keeps.anything _).bind fun text _ => ?_
      split
      · refine (Keeps.anything _).bind fun _ _ => (Keeps.anything _).bind fun _ _ =>
          ih.bind fun found all => .pure ?_
        exact List.perm_middle.trans (all.cons path)
      · refine ih.bind fun found all => .pure ?_
        dsimp only
        rw [List.map_cons, path_ofText]
        exact all.cons path

theorem keeps_scanUnit_unit (b : Batch) (u : SourceUnit) :
    Keeps (fun _ => True) (scanUnit b u) fun survey => survey.unit = u := by
  refine (Keeps.anything _).bind fun _ _ => keeps_require.bind fun survey made => ?_
  refine (Keeps.anything _).bind fun _ _ => (Keeps.anything _).bind fun _ _ => .pure ?_
  exact (Survey.of_ofUnit made).1

theorem keeps_choose_survey (s : RunSettings) (survey : Survey) :
    Keeps (fun _ => True) (choose s survey) fun c => c.survey = survey := by
  unfold choose
  split
  · exact (Keeps.anything _).bind fun _ _ => .pure rfl
  · exact .pure rfl

theorem leads_prepare (s : RunSettings) (root : Path) (r : Run) :
    Leads (· = r) (prepare s root) (fun p _ => ∃ paths w,
      Workspace.findSources s.config (some root) r.workspace = .ok paths w ∧
        (p.plan.files.map (·.path) ++ p.plan.skipped.map (·.path)).Perm paths) fun _ => True := by
  have asked : Leads (· = r) (inWorkspace (projectRoot root)) (fun _ r' => r' = r)
      fun _ => True := by
    intro r' same
    rw [same]
    have now := keeps_projectRoot (I := (· = r.workspace)) root r.workspace rfl
    unfold inWorkspace
    cases eq : projectRoot root r.workspace with
    | ok x w =>
      rw [eq] at now
      dsimp only
      rw [now.1]
    | error f w => exact True.intro
  have searched : Leads (· = r) (inWorkspace (Workspace.findSources s.config (some root)))
      (fun paths _ => ∃ w, Workspace.findSources s.config (some root) r.workspace = .ok paths w)
      fun _ => True := by
    intro r' same
    rw [same]
    unfold inWorkspace
    cases eq : Workspace.findSources s.config (some root) r.workspace with
    | ok paths w => exact ⟨w, rfl⟩
    | error f w => exact True.intro
  refine asked.bind fun project => searched.bind fun paths => ?_
  rintro r₁ ⟨w, found⟩
  refine Leads.weaken (I := fun _ => True) (E := fun _ => True) (Q := fun p _ => True ∧
    (p.plan.files.map (·.path) ++ p.plan.skipped.map (·.path)).Perm paths) ?_
    (fun p _ h => ⟨paths, w, found, h.2⟩) (fun _ h => h) r₁ True.intro
  refine (keeps_load_all s paths).bind fun loaded all => ?_
  refine Keeps.bind ((Keeps.anything _).bind fun _ _ =>
    .mapM_map _ fun u _ => keeps_scanUnit_unit _ u) fun surveys scanned => ?_
  refine (Keeps.mapM_map _ fun survey _ => keeps_choose_survey s survey).bind
    fun choices chosen => .pure ?_
  have units : surveys.map (·.unit) = loaded.1 := scanned
  have same : (choices.map planned).map (·.path) = loaded.1.map (·.path) := by
    rw [← units, ← chosen, List.map_map, List.map_map, List.map_map]
    rfl
  rw [same]
  exact all

end Run

namespace Workspace

variable {d : Disk} {folder : Place} {I : Workspace → Prop} [Sees I d folder]

theorem keeps_distinct_nodup (seen paths : List Path) :
    Keeps I (distinct seen paths) fun found => found.Nodup ∧
      ∀ p ∈ found, (⟨.root, d.real folder p⟩ : Path) ∉ seen := by
  induction paths generalizing seen with
  | nil => exact .pure ⟨List.nodup_nil, nofun⟩
  | cons p rest ih =>
    refine (keeps_resolve p).bind fun q hq => ?_
    subst hq
    split
    · exact ih seen
    · rename_i new
      refine (ih _).bind fun found ⟨distinct, apart⟩ => .pure ⟨?_, ?_⟩
      · exact List.nodup_cons.mpr ⟨fun mem => apart p mem List.mem_cons_self, distinct⟩
      · intro q hq
        rcases List.mem_cons.mp hq with rfl | hq
        · exact new
        · exact fun mem => apart q hq (List.mem_cons_of_mem _ mem)

include d folder in
theorem keeps_findSources_nodup (c : Config) (root : Path) :
    Keeps I (findSources c (some root)) fun found => found.Nodup := by
  refine (keeps_searchRoot root).bind fun start _ => ?_
  split
  · exact .pure List.nodup_nil
  · refine keeps_require.bind fun extensions _ => (keeps_isFile _).bind fun isFile _ => ?_
    split
    · refine .pure ?_
      split
      · simp
      · exact List.nodup_nil
    · refine keeps_get.bind fun w _ => (keeps_ask _ _).bind fun place _ => ?_
      refine (keeps_distinct_nodup [] _).bind fun found h => (keeps_note _).bind fun _ _ => .pure ?_
      exact h.1

end Workspace

/-- A call on a session: a run that writes noise or annotations, or a revert. -/
inductive Errand
  | run (settings : RunSettings) (root : Path) (annotate : Bool)
  | revert (settings : RunSettings) (root : Path)

namespace Errand

/-- The session after a call in a workspace, whether the call fails or not. -/
def after (e : Errand) (w : Workspace) (s : Session) : Session :=
  match e with
  | .run settings root annotate => (stateAfter (Run.run settings root annotate) ⟨w, s⟩).session
  | .revert settings root => (stateAfter (Run.revert settings root) ⟨w, s⟩).session

theorem balanced_after (e : Errand) (w : Workspace) {s : Session} {file : Option Path}
    (h : Balanced file s.stats s.emitter) :
    Balanced file (e.after w s).stats (e.after w s).emitter := by
  cases e with
  | run settings root annotate =>
    exact (Run.books_run settings root annotate).stateAfter (s := ⟨w, s⟩) h
  | revert settings root => exact (Run.books_revert settings root).stateAfter (s := ⟨w, s⟩) h

end Errand

def Session.afterAll (s : Session) (calls : List (Errand × Workspace)) : Session :=
  calls.foldl (fun s call => call.1.after call.2 s) s

theorem balanced_afterAll (calls : List (Errand × Workspace)) {s : Session} {file : Option Path}
    (h : Balanced file s.stats s.emitter) :
    Balanced file (s.afterAll calls).stats (s.afterAll calls).emitter := by
  induction calls generalizing s with
  | nil => exact h
  | cons call rest ih => exact ih (call.1.balanced_after call.2 h)

/-- After any calls of a new session, on any disks and with any mishaps, the counters agree with
the events. There are no fewer errors than failures were told, if the path of the event file has no
null character. And a plan that was made takes up each file that was found once, to be instrumented
or to be skipped. -/
theorem counters_agree_with_events {s : Session} (newStats : s.stats = {})
    (newEvents : s.emitter.events = []) (calls : List (Errand × Workspace)) :
    Agrees (s.afterAll calls).stats (s.afterAll calls).emitter ∧
    ((∀ p, s.emitter.file = some p → Char.ofNat 0 ∉ p.text) →
      (s.afterAll calls).emitter.failures ≤ (s.afterAll calls).stats.errors) ∧
    ∀ (settings : RunSettings) (root : Path) (r r' : Run) (p : Preparation),
      Run.prepare settings root r = .ok p r' →
      ∃ paths w, Workspace.findSources settings.config (some root) r.workspace = .ok paths w ∧
        (p.plan.files.map (·.path) ++ p.plan.skipped.map (·.path)).Perm paths ∧
        ∀ path ∈ paths, Xor (path ∈ p.plan.files.map (·.path))
          (path ∈ p.plan.skipped.map (·.path)) := by
  have new : Balanced s.emitter.file s.stats s.emitter := by
    rw [newStats]
    exact .start newEvents
  have balanced := balanced_afterAll calls new
  refine ⟨balanced.toAgrees, fun spelled => balanced.errors fun p there => ?_, ?_⟩
  · exact spelled p (balanced.file.symm.trans there)
  · intro settings root r r' p prepared
    have planned := Run.leads_prepare settings root r r rfl
    rw [prepared] at planned
    obtain ⟨paths, w, found, all⟩ := planned
    refine ⟨paths, w, found, all, fun path mem => ?_⟩
    have distinct := Workspace.keeps_findSources_nodup (I := Workspace.Same r.workspace)
      settings.config root r.workspace (.refl _)
    rw [found] at distinct
    have apart := List.nodup_append.mp (all.nodup_iff.mpr distinct.2)
    rcases List.mem_append.mp (all.mem_iff.mpr mem) with file | skipped
    · exact .inl ⟨file, fun skipped => apart.2.2 _ file _ skipped rfl⟩
    · exact .inr ⟨skipped, fun file => apart.2.2 _ file _ skipped rfl⟩

def refusals : List Mishap := List.replicate 3 (.refused .busy (some [7]))

def unrestored : Workspace :=
  { smallSituation.workspace with
    disk := ⟨(["w".toList, "A.java.contender".toList], .file [65]) :: smallTree.entries⟩
    mishaps := refusals }

/-- A run, one that cannot make its backup, and a revert that cannot put one back. -/
def smallErrands : List (Errand × Workspace) :=
  [(.run { config := .default, automatic := true } (.ofText "/w".toList) false,
      smallSituation.workspace),
    (.run { config := .default, automatic := true } (.ofText "/w".toList) false,
      { smallSituation.workspace with mishaps := refusals }),
    (.revert { config := .default } (.ofText "/w".toList), unrestored)]

theorem smallErrands_agree :
    (smallSituation.session.afterAll smallErrands).stats =
      { scanned := 2, instrumented := 1, injected := 1, errors := 2 } ∧
    (smallSituation.session.afterAll smallErrands).emitter.count .backupFailed = 1 ∧
    (smallSituation.session.afterAll smallErrands).emitter.count .restoreFailed = 1 ∧
    Agrees (smallSituation.session.afterAll smallErrands).stats
      (smallSituation.session.afterAll smallErrands).emitter ∧
    (smallSituation.session.afterAll smallErrands).emitter.failures ≤
      (smallSituation.session.afterAll smallErrands).stats.errors := by
  obtain ⟨agrees, errors, _⟩ :=
    counters_agree_with_events (s := smallSituation.session) rfl rfl smallErrands
  exact ⟨by decide +kernel, by decide +kernel, by decide +kernel, agrees, errors nofun⟩

def unnamedLog : Session :=
  { generator := .script []
    emitter := { file := some (.ofText ("/events".toList ++ [Char.ofNat 0])) } }

/-- The restore fails and that is told, but the call breaks off before it is counted. -/
theorem unnamedLog_uncounted :
    (unnamedLog.afterAll [(.revert { config := .default } (.ofText "/w".toList),
      unrestored)]).emitter.count .restoreFailed = 1 ∧
    (unnamedLog.afterAll [(.revert { config := .default } (.ofText "/w".toList),
      unrestored)]).stats.errors = 0 := by
  decide +kernel

end SchedulingNoise
