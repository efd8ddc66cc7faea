import SchedulingNoise.Batch.Survey
import SchedulingNoise.Plan
import SchedulingNoise.Report
import SchedulingNoise.Run.Basic
import SchedulingNoise.Workspace.Backup

namespace SchedulingNoise

structure Choice where
  survey : Survey
  points : List (Point Json)

structure Preparation where
  choices : List Choice
  plan : Plan Json

namespace Run

/-- Reads the files that have no backup; the others and those that are no text are skipped. -/
def load (s : RunSettings) : List Path → RunAct (List SourceUnit × List SkippedFile)
  | [] => pure ([], [])
  | path :: rest => do
    if ← inWorkspace (Workspace.hasBackup s.config path) then
      let reason := "still instrumented, revert it first"
      skip path reason
      let (units, skipped) ← load s rest
      pure (units, ⟨path, reason⟩ :: skipped)
    else match ← inWorkspace (Workspace.readText path) with
      | none =>
        note ⟨.warning, (Report.unreadable path "could not be read as text").text⟩
        skip path "unreadable"
        let (units, skipped) ← load s rest
        pure (units, ⟨path, "unreadable"⟩ :: skipped)
      | some text =>
        let (units, skipped) ← load s rest
        pure (.ofText path text s.scope :: units, skipped)

def scanUnit (b : Batch) (u : SourceUnit) : RunAct Survey := do
  let catalogue := b.catalogueFor u
  noteAll (Survey.notes u catalogue)
  let survey ← require (Survey.ofUnit u catalogue)
  count fun s => { s with scanned := s.scanned + 1 }
  emit (.fileScanned (.ofPath u.path) (.int survey.points.length)
    (.int survey.annotated.length))
  pure survey

def scan (b : Batch) : RunAct (List Survey) := do
  note b.note
  b.units.mapM (scanUnit b)

def generate (s : RunSettings) (survey : Survey) : RunAct (List (Point Json)) := do
  let points ← drawing (survey.generate s.config.policy)
  note (survey.generateNote points)
  pure points

def choose (s : RunSettings) (survey : Survey) : RunAct Choice := do
  if s.automatic then return ⟨survey, ← generate s survey⟩
  else return ⟨survey, survey.annotated.map (·.map .int)⟩

def planned (c : Choice) : PlannedFile Json :=
  ⟨c.survey.unit.path, .int c.survey.points.length, c.points⟩

def projectRoot (root : Path) : Act Path := do
  if ← Workspace.isFolder root then pure root else pure root.parent

def prepare (s : RunSettings) (root : Path) : RunAct Preparation := do
  let project ← inWorkspace (projectRoot root)
  let paths ← inWorkspace (Workspace.findSources s.config (some root))
  let (units, skipped) ← load s paths
  let surveys ← scan ⟨units, some project⟩
  let choices ← surveys.mapM (choose s)
  pure ⟨choices, ⟨s.automatic, choices.map planned, skipped⟩⟩

end Run

end SchedulingNoise
