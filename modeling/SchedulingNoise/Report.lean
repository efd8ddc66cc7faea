import SchedulingNoise.Path

namespace SchedulingNoise

inductive LogLevel
  | debug
  | info
  | warning
  | error
  | critical
deriving DecidableEq, Repr

namespace LogLevel

def name : LogLevel → String
  | .debug => "DEBUG"
  | .info => "INFO"
  | .warning => "WARNING"
  | .error => "ERROR"
  | .critical => "CRITICAL"

def rank : LogLevel → Nat
  | .debug => 0
  | .info => 1
  | .warning => 2
  | .error => 3
  | .critical => 4

end LogLevel

structure LogRecord where
  level : LogLevel
  message : String
deriving DecidableEq, Repr

structure Report where
  failed : String
  reason : String
  action : String
  location : Option Path := none
  /-- Nothing is shown for an empty text. -/
  details : String := ""

namespace Report

def text (r : Report) : String :=
  let location := match r.location with
    | none => []
    | some p => [s!"  Location: {p}"]
  let details := if r.details.isEmpty then [] else [s!"  Details: {r.details}"]
  "\n".intercalate
    ([s!"ERROR: {r.failed}", s!"  Reason: {r.reason}", s!"  Action: {r.action}"] ++ location ++
      details)

def unreadable (source : Path) (reason : String) : Report where
  failed := s!"Cannot read {Text.str source.name}"
  reason := reason
  action := "File was skipped; check it exists, is UTF-8 text and is readable"
  location := some source.parent

def backupFailed (source backup : Path) (reason : String) : Report where
  failed := s!"Failed to back up {Text.str source.name}"
  reason := reason
  action := "File was left untouched; make the folder writable and run again"
  location := some source.parent
  details := s!"Backup path: {backup}"

def restoreFailed (source backup : Path) (reason : String) : Report where
  failed := s!"Failed to restore {Text.str source.name}"
  reason := reason
  action := s!"Original content is still in {Text.str backup.name}; copy it back by hand"
  location := some source.parent

end Report

end SchedulingNoise
