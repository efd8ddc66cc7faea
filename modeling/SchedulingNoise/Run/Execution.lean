import SchedulingNoise.Instrument.Unit
import SchedulingNoise.Pragma.Line
import SchedulingNoise.Run.Preparation
import SchedulingNoise.Workspace.Check

namespace SchedulingNoise.Run

def revertFile (s : RunSettings) (path : Path) : RunAct Bool := do
  match ← attempt (inWorkspace (Workspace.restore s.config path)) with
  | .ok true =>
    count fun st => { st with reverted := st.reverted + 1 }
    emit (.fileReverted (.ofPath path))
    pure true
  | .ok false => pure false
  | .error (.restore saved source) =>
    let reason := (Fault.restore saved source).message
    note ⟨.error, (Report.restoreFailed path saved reason).text⟩
    emit (.restoreFailed (.ofPath path) (.text reason.toList))
    countError
    pure false
  | .error f => throw f

def backUpFile (s : RunSettings) (path : Path) : RunAct (Option Path) := do
  match ← attempt (inWorkspace (Workspace.backUp s.config path)) with
  | .ok saved => pure (some saved)
  | .error (.backup cause) =>
    let saved ← require (Workspace.backupPath s.config path)
    note ⟨.error, (Report.backupFailed path saved cause.message).text⟩
    emit (.backupFailed (.ofPath path) (.text cause.message.toList))
    countError
    pure none
  | .error f => throw f

def noisyText (c : Choice) : RunAct Text := do
  noteAll (c.survey.instrumentNotes c.points)
  require (c.survey.instrument c.points)

def write (path : Path) (text : Text) (failure : String) : RunAct Bool := do
  match ← attempt (inWorkspace (Workspace.writeText path text)) with
  | .ok _ => pure true
  | .error f =>
    if f.fromDisk then
      note ⟨.error, s!"{failure} {path}: {f.message}"⟩
      countError
      pure false
    else throw f

/-- Backs a file up and writes it anew with noise. It is never written without a backup. -/
def instrumentFile (s : RunSettings) (c : Choice) : RunAct Bool := do
  let path := c.survey.unit.path
  if !(← inWorkspace (Workspace.waitForRelease path)) then
    skip path "held open by another process"
    pure false
  else match ← backUpFile s path with
    | none => pure false
    | some saved =>
      emit (.fileBackedUp (.ofPath path) saved.text)
      let text ← noisyText c
      if ← write path text "Could not write instrumented" then
        let points := c.points.length
        count fun st =>
          { st with instrumented := st.instrumented + 1, injected := st.injected + points }
        emit (.fileInstrumented (.ofPath path) (.int points))
        pure true
      else
        let _ ← revertFile s path
        pure false

/-- Writes points into a file as annotations. They are meant to stay, so there is no backup. -/
def annotateFile (c : Choice) : RunAct Bool := do
  let unit := c.survey.unit
  let lines ← require (freeze unit.lines c.points)
  if ← write unit.path (unit.assemble lines) "Could not write annotations into" then
    count fun st => { st with annotated := st.annotated + 1 }
    emit (.fileAnnotated (.ofPath unit.path) (.int c.points.length))
    pure true
  else pure false

def carryOut (s : RunSettings) (annotate : Bool) (choices : List Choice) : RunAct Unit :=
  choices.forM fun c => do
    let _ ← if annotate then annotateFile c else instrumentFile s c
    onProgress (Progress.update (.int 1) (.text c.survey.unit.path.name) s.bars)

def run (s : RunSettings) (root : Path) (annotate : Bool) : RunAct (Plan Json) := do
  emit (.sessionStarted root.text s.automatic s.seed)
  let prepared ← prepare s root
  if s.dryRun then pure prepared.plan
  else
    let targets := prepared.choices.filter fun c => !c.points.isEmpty
    onProgress (Progress.start (.int targets.length) s.bars)
    let result ← attempt (carryOut s annotate targets)
    onProgress (Progress.close s.bars)
    require result
    let stats := (← get).session.stats
    emit (.sessionCompleted (.int targets.length) (.int stats.injected) (.int stats.skipped))
    pure prepared.plan

def revertAll (s : RunSettings) : List Path → RunAct Nat
  | [] => pure 0
  | path :: rest => do
    let done ← revertFile s path
    let others ← revertAll s rest
    pure (if done then others + 1 else others)

def revert (s : RunSettings) (root : Path) : RunAct Nat := do
  let paths ← inWorkspace (Workspace.findBackedUp s.config (some root))
  revertAll s paths

end SchedulingNoise.Run
