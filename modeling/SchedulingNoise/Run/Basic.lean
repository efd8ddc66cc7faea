import SchedulingNoise.Config.Basic
import SchedulingNoise.Event.Record
import SchedulingNoise.Progress

/-! A run over a source tree: its settings, what it counts, and its steps. A step works in the
workspace and in the session, and keeps what it did there if it fails. -/
namespace SchedulingNoise

structure Stats where
  scanned : Nat := 0
  instrumented : Nat := 0
  annotated : Nat := 0
  reverted : Nat := 0
  skipped : Nat := 0
  injected : Nat := 0
  errors : Nat := 0
deriving DecidableEq, Repr

structure RunSettings where
  config : Config
  /-- Noise by the policy instead of by annotations. -/
  automatic : Bool := false
  /-- The seed of the noise, null if it has none. -/
  seed : Json := .null
  /-- The part of each file that gets automatic noise. -/
  scope : Scope := {}
  dryRun : Bool := false
  /-- How the bars behave that show the progress. -/
  bars : BarRules := .usual

namespace RunSettings

def orElse (v other : Json) : Json :=
  match v with
  | .null => other
  | v => v

def make (config : Config) (automatic : Bool) (seed lower upper : Json) (dryRun : Bool) :
    RunSettings :=
  let scope : Scope := ⟨orElse lower config.scope.lower, orElse upper config.scope.upper⟩
  { config, automatic, seed, scope, dryRun }

end RunSettings

/-- What lasts from one run to the next. -/
structure Session where
  stats : Stats := {}
  emitter : Emitter := {}
  generator : Generator
  progress : Progress := {}

structure Run where
  workspace : Workspace
  session : Session

abbrev RunAct := EStateM Fault Run

namespace Run

def inWorkspace (a : Act α) : RunAct α := fun r =>
  match a r.workspace with
  | .ok x w => .ok x { r with workspace := w }
  | .error f w => .error f { r with workspace := w }

def attempt (a : RunAct α) : RunAct (Except Fault α) := fun r =>
  match a r with
  | .ok x r => .ok (.ok x) r
  | .error f r => .ok (.error f) r

def require : Except Fault α → RunAct α
  | .ok x => pure x
  | .error f => throw f

def note (r : LogRecord) : RunAct Unit := inWorkspace (Workspace.note r)

def noteAll (rs : List LogRecord) : RunAct Unit := inWorkspace (Workspace.noteAll rs)

def emit (e : Event) : RunAct Unit := do
  modify fun r => { r with session := { r.session with emitter := r.session.emitter.keep e } }
  inWorkspace ((← get).session.emitter.publish e)

def count (f : Stats → Stats) : RunAct Unit :=
  modify fun r => { r with session := { r.session with stats := f r.session.stats } }

def onProgress (a : ProgressAct Unit) : RunAct Unit := fun r =>
  let put (p : Progress) : Run := { r with session := { r.session with progress := p } }
  match a r.session.progress with
  | .ok _ p => .ok () (put p)
  | .error f p => .error f (put p)

def drawing (a : Draws α) : RunAct α := fun r =>
  let put (g : Generator) : Run := { r with session := { r.session with generator := g } }
  match a r.session.generator with
  | .ok x g => .ok x (put g)
  | .error f g => .error f (put g)

def countError : RunAct Unit := count fun s => { s with errors := s.errors + 1 }

def skip (path : Path) (reason : String) : RunAct Unit := do
  count fun s => { s with skipped := s.skipped + 1 }
  emit (.fileSkipped (.ofPath path) (.text reason.toList))

end Run

def Session.perform (s : Session) (a : RunAct α) : Act (α × Session) := fun w =>
  match a ⟨w, s⟩ with
  | .ok x r => .ok (x, r.session) r.workspace
  | .error f r => .error f r.workspace

end SchedulingNoise
