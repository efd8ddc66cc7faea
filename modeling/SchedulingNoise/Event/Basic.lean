import SchedulingNoise.Fault
import SchedulingNoise.Json.Value
import SchedulingNoise.Report
import SchedulingNoise.Path

namespace SchedulingNoise

inductive EventKind
  | sessionStarted
  | sessionCompleted
  | fileScanned
  | fileBackedUp
  | fileInstrumented
  | fileAnnotated
  | fileSkipped
  | fileReverted
  | backupFailed
  | restoreFailed
deriving DecidableEq, Repr

namespace EventKind

def all : List EventKind :=
  [.sessionStarted, .sessionCompleted, .fileScanned, .fileBackedUp, .fileInstrumented,
    .fileAnnotated, .fileSkipped, .fileReverted, .backupFailed, .restoreFailed]

def name : EventKind → String
  | .sessionStarted => "SESSION_STARTED"
  | .sessionCompleted => "SESSION_COMPLETED"
  | .fileScanned => "FILE_SCANNED"
  | .fileBackedUp => "FILE_BACKED_UP"
  | .fileInstrumented => "FILE_INSTRUMENTED"
  | .fileAnnotated => "FILE_ANNOTATED"
  | .fileSkipped => "FILE_SKIPPED"
  | .fileReverted => "FILE_REVERTED"
  | .backupFailed => "BACKUP_FAILED"
  | .restoreFailed => "RESTORE_FAILED"

def ofName? (name : Text) : Option EventKind := all.find? fun k => k.name.toList = name

end EventKind

structure Event where
  kind : EventKind
  severity : LogLevel := .info
  message : Json
  context : Json := .object []
deriving Repr

structure Subject where
  text : Text
  name : Text
deriving DecidableEq, Repr

def Subject.ofPath (p : Path) : Subject := ⟨p.text, p.name⟩

namespace Event

def member (name : String) (v : Json) : RawText × Json := Json.named name.toList v

def pathMember (s : Subject) : RawText × Json := member "path" (.text s.text)

def saying (kind : EventKind) (severity : LogLevel) (message : String) : Event :=
  { kind, severity, message := .text message.toList }

def about (e : Event) (context : Members) : Event := { e with context := .object context }

def shown (v : Json) : String := Text.str v.plain

def nameOf (s : Subject) : String := Text.str s.name

def sessionStarted (root : Text) (automatic : Bool) (seed : Json) : Event :=
  let mode := if automatic then "automatic" else "manual"
  (saying .sessionStarted .info s!"Session started ({mode} mode) on {Text.str root}").about
    [member "path" (.text root), member "mode" (.text mode.toList), member "seed" seed]

def sessionCompleted (files points skipped : Json) : Event :=
  let counts := s!"{shown files} files, {shown points} points, {shown skipped} skipped"
  (saying .sessionCompleted .info s!"Session completed: {counts}").about
    [member "files" files, member "points" points, member "skipped" skipped]

def fileScanned (s : Subject) (callSites annotated : Json) : Event :=
  (saying .fileScanned .debug s!"Scanned {nameOf s}").about
    [pathMember s, member "call_sites" callSites, member "annotated" annotated]

def fileBackedUp (s : Subject) (copied : Text) : Event :=
  (saying .fileBackedUp .debug s!"Backed up {nameOf s}").about
    [pathMember s, member "backup" (.text copied)]

def fileInstrumented (s : Subject) (points : Json) : Event :=
  (saying .fileInstrumented .info s!"Instrumented {nameOf s}").about
    [pathMember s, member "points" points]

def fileAnnotated (s : Subject) (points : Json) : Event :=
  (saying .fileAnnotated .info s!"Wrote annotations into {nameOf s}").about
    [pathMember s, member "points" points]

def fileSkipped (s : Subject) (reason : Json) : Event :=
  (saying .fileSkipped .warning s!"Skipped {nameOf s}: {shown reason}").about
    [pathMember s, member "reason" reason]

def fileReverted (s : Subject) : Event :=
  (saying .fileReverted .info s!"Reverted {nameOf s}").about [pathMember s]

def backupFailed (s : Subject) (reason : Json) : Event :=
  (saying .backupFailed .error s!"Backup failed for {nameOf s}, file left untouched").about
    [pathMember s, member "reason" reason]

def restoreFailed (s : Subject) (reason : Json) : Event :=
  (saying .restoreFailed .error s!"Restore failed for {nameOf s}").about
    [pathMember s, member "reason" reason]

/-- The members of the context that the log shows. Only an object has members, but a context
without contents may be anything. -/
def shownContext (e : Event) : Except Fault String :=
  match e.context with
  | .object ms =>
    let keys := [RawText.ofText "path".toList, RawText.ofText "points".toList]
    let parts := (ms.filter fun m => keys.contains m.1).map fun m =>
      s!"{Text.str m.1.toText}={shown m.2}"
    .ok (if parts.isEmpty then "" else " | " ++ ", ".intercalate parts)
  | v => if v.truthy then .error .notSupported else .ok ""

def logRecord (e : Event) : Except Fault LogRecord := do
  pure ⟨e.severity, s!"[{e.kind.name}] {shown e.message}{← e.shownContext}"⟩

end Event

end SchedulingNoise
