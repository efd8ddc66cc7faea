import SchedulingNoise.Config.Check
import SchedulingNoise.Json.Reader
import SchedulingNoise.Json.Writer
import SchedulingNoise.Workspace.Files

namespace SchedulingNoise

def Text.unixLines : Text → Text
  | '\r' :: '\n' :: rest => '\n' :: unixLines rest
  | '\r' :: rest => '\n' :: unixLines rest
  | c :: rest => c :: unixLines rest
  | [] => []

namespace Config
open Workspace

def reportInvalid (file : Path) (found : List Complaint) : Act Unit := do
  printLines ["\nConfiguration validation failed:", s!"  Config file: {← absolute file}", ""]
  found.forM fun e => printLines [e.message, ""]
  printLine "Using default configuration instead."
  note ⟨.warning, s!"Invalid config {file}, using defaults"⟩

def reportMalformed (file : Path) (text : Text) (problem : Json.Problem) (offset : Nat) :
    Act Unit := do
  let (line, column) := Json.lineColumn text offset
  printLines ["\nERROR: Invalid JSON in config file", s!"  Config file: {← absolute file}",
    s!"  Problem: {problem.text}: line {line} column {column} (char {offset})",
    s!"  Line: {line}, Column: {column}", "", "Fix the JSON syntax and try again.",
    "Using default configuration."]

def reportUnreadable (file : Path) (fault : Fault) : Act Unit := do
  printLines ["\nERROR: Could not load config file", s!"  Config file: {← absolute file}",
    s!"  Problem: {fault.message}", "", "Using default configuration."]

def accept (c : Config) (file : Path) (v : Json) : Act Config := do
  match complaints v, v with
  | [], .object ms => pure (c.update ms)
  | found, _ =>
    reportInvalid file found
    pure c

def loadText (c : Config) (file : Path) (text : Text) : Act Config := do
  let w ← MonadState.get
  match Json.read text w.levels with
  | .ok v => c.accept file v
  | .error (.malformed problem offset) =>
    reportMalformed file text problem offset
    pure c
  | .error (.digitLimit digits) => throw (.tooManyDigits digits)
  | .error (.tooDeep nest) => throw (.tooDeep nest)

def load (c : Config) (file : Path) : Act Config := do
  let read ← orOnRefusal (some <$> readBytes file) fun f => do
    reportUnreadable file f
    pure none
  match read with
  | none => pure c
  | some bs =>
    match Utf8.decode bs with
    | .ok t => c.loadText file t.unixLines
    | .error r => throw (.undecodable r)

/-- The configuration of a file, the default one if there is no file. -/
def ofFile (file : Option Path) : Act Config := do
  match file with
  | none => pure default
  | some p => if ← exists? p then default.load p else pure default

def text (c : Config) : Text := (Json.object c.members).indented

def save (c : Config) (file : Path) : Act Unit :=
  orOnRefusal (change file fun d folder p => d.write folder p (Utf8.encode c.text)) fun f =>
    printLine s!"Error saving config to {file}: {f.message}"

end Config

end SchedulingNoise
