import SchedulingNoise.Event.Basic
import SchedulingNoise.Event.Moment
import SchedulingNoise.Json.Reader
import SchedulingNoise.Json.Writer
import SchedulingNoise.Workspace.Files

namespace SchedulingNoise

def LogLevel.all : List LogLevel := [.debug, .info, .warning, .error, .critical]

def LogLevel.ofName? (name : Text) : Option LogLevel := all.find? fun l => l.name.toList = name

namespace Event

def idKey : Text := "event_id".toList

def kindKey : Text := "event_type".toList

def timeKey : Text := "timestamp".toList

def severityKey : Text := "severity".toList

def messageKey : Text := "message".toList

def contextKey : Text := "context".toList

def sessionKey : Text := "session_id".toList

structure Stamped where
  id : Json
  kind : EventKind
  time : Moment
  severity : LogLevel
  message : Json
  context : Json := .object []
  session : Json := .null

namespace Stamped

def toMembers (s : Stamped) : Members :=
  [Json.named idKey s.id, Json.named kindKey (.text s.kind.name.toList),
    Json.named timeKey (.text s.time.text),
    Json.named severityKey (.text s.severity.name.toList), Json.named messageKey s.message,
    Json.named contextKey s.context, Json.named sessionKey s.session]

def line (s : Stamped) : Text := (Json.object s.toMembers).write

def member (ms : Members) (key : Text) : Except Fault Json :=
  match Members.get? ms key with
  | some v => .ok v
  | none => .error (.unknownName key.quoted)

def named (find : Text → Option α) : Json → Except Fault α
  | .str t => ((find t.toText).map .ok).getD (.error (.unknownName t.quoted))
  | .list _ => .error .wrongType
  | .object _ => .error .wrongType
  | v => .error (.unknownName v.shown)

def timeOf : Json → Except Fault Moment
  | .str t => (Moment.read t.toText).mapError .time
  | _ => .error .wrongType

def keys : List Text :=
  [idKey, kindKey, timeKey, severityKey, messageKey, contextKey, sessionKey]

/-- Reads a record. Context and session may be missing, and nothing else may be there. -/
def ofMembers (ms : Members) : Except Fault Stamped := do
  let kind ← named EventKind.ofName? (← member ms kindKey)
  let severity ← named LogLevel.ofName? (← member ms severityKey)
  let time ← timeOf (← member ms timeKey)
  match Members.get? ms idKey, Members.get? ms messageKey with
  | some id, some message =>
    if ms.all fun m => (keys.map RawText.ofText).contains m.1 then
      pure ⟨id, kind, time, severity, message, (Members.get? ms contextKey).getD (.object []),
        (Members.get? ms sessionKey).getD .null⟩
    else throw .wrongType
  | _, _ => throw .wrongType

/-- Reads a record from any value. Only an object has members to look up, and a list is asked for
one in the wrong way. -/
def ofValue : Json → Except Fault Stamped
  | .object ms => ofMembers ms
  | .list _ => .error .wrongType
  | _ => .error .notSupported

end Stamped

end Event

structure Emitter where
  /-- Where records are written. -/
  file : Option Path := none
  logged : Bool := true
  session : Text := []
  events : List Event := []
deriving Repr

namespace Emitter
open Workspace

def defaultFile : Path := .ofText "logs/events.jsonl".toList

def start (file : Option Path) (logged : Bool) : Act Emitter := do
  match file with
  | some p => makeParentFolders p
  | none => pure ()
  return ⟨file, logged, (← get).clock.stamp, []⟩

def momentOf (c : Clock) : Moment where
  year := Decimal.value (c.day.take 4)
  month := Decimal.value ((c.day.drop 4).take 2)
  day := Decimal.value (c.day.drop 6)
  hour := c.seconds / 3600 % 24
  minute := c.seconds / 60 % 60
  second := c.seconds % 60

def stamped (m : Emitter) (e : Event) (clock : Clock) : Event.Stamped where
  id := .text (m.session ++ '-' :: Decimal.ofNat m.events.length)
  kind := e.kind
  time := momentOf clock
  severity := e.severity
  message := e.message
  context := e.context
  session := .text m.session

def writeRecord (m : Emitter) (e : Event) (file : Path) : Act Unit := do
  let record := m.stamped e (← get).clock
  orOnRefusal (appendBytes file (Utf8.encode (record.line ++ ['\n']))) fun f =>
    note ⟨.error, s!"Failed to write event to file: {f.message}"⟩

/-- Keeps an event, before it is told to anyone. -/
def keep (m : Emitter) (e : Event) : Emitter := { m with events := m.events ++ [e] }

def publish (m : Emitter) (e : Event) : Act Unit := do
  if m.logged then note (← require e.logRecord)
  match m.file with
  | some p => m.writeRecord e p
  | none => pure ()

def query (m : Emitter) (kind : Option EventKind) (severity : Option LogLevel) : List Event :=
  m.events.filter fun e =>
    (kind.all fun k => e.kind = k) && (severity.all fun s => e.severity = s)

def count (m : Emitter) (kind : EventKind) : Nat := (m.query (some kind) none).length

end Emitter

end SchedulingNoise
