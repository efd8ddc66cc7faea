import SchedulingNoise.CommandLine.Options
import SchedulingNoise.Config.File
import SchedulingNoise.Fault
import SchedulingNoise.Json.Order
import SchedulingNoise.Plan
import SchedulingNoise.Run.Basic
import SchedulingNoise.Run.Execution
import SchedulingNoise.Workspace.Names

namespace SchedulingNoise
open Workspace

namespace Plan

/-- Prints a plan, up to the first line with a number that has too many digits. -/
def print [Amount α] (p : Plan α) : Act Unit := do
  printLines p.titleLines
  (p.files.flatMap fileLines).forM fun line => do printLine (← require line)
  printLines (p.skippedLines ++ p.numberLines)
  printLine (← require p.totalLine)
  printLines p.closingLines

end Plan

namespace Stats

def summaryRule : String := Style.paint .cyan (String.ofList (List.replicate 60 '='))

def summaryLines (s : Stats) : List String :=
  let line (n : Nat) (c : Colour) (text : String) : List String :=
    if n = 0 then [] else ["  " ++ Style.paint c text]
  ["\n" ++ summaryRule, s!"  scanned:      {s.scanned} files"] ++
    line s.instrumented .green
      s!"instrumented: {s.instrumented} files, {s.injected} points" ++
    line s.annotated .green s!"annotated:    {s.annotated} files" ++
    line s.reverted .green s!"reverted:     {s.reverted} files" ++
    line s.skipped .yellow s!"[!] skipped: {s.skipped} files" ++
    line s.errors .red s!"[!] errors: {s.errors} (see log)" ++ [summaryRule ++ "\n"]

def print (s : Stats) : Act Unit := printLines s.summaryLines

end Stats

namespace Input

def toInteger (v : Json) : Except Fault Int :=
  let refused : Except Fault Int := .error (.invalid (.notInteger v.plain))
  match v with
  | .int n => .ok n
  | .bool b => .ok (if b then 1 else 0)
  | .float (.infinite _) => .error .infinity
  | .float x => (x.truncate?.map .ok).getD refused
  | .str t => ((Decimal.parse? t.toText).map .ok).getD refused
  | _ => refused

def checkMin (n : Int) : (low : Json) → Except Fault Unit
  | .null => .ok ()
  | low => do if ← Json.above low (.int n) then .error (.invalid (.tooSmall n low.plain))

def checkMax (n : Int) : (high : Json) → Except Fault Unit
  | .null => .ok ()
  | high => do if ← Json.above (.int n) high then .error (.invalid (.tooLarge n high.plain))

def integer (v low high : Json) (allowNone : Bool) :
    Except Fault (Option Int) := do
  match v with
  | .null => if allowNone then pure none else throw (.invalid .noInteger)
  | v =>
    let n ← toInteger v
    checkMin n low
    checkMax n high
    pure (some n)

def isQuotedBy (q : Char) (t : Text) : Bool := t.head? = some q && t.getLast? = some q

def cleanPath (t : Text) : Text :=
  let t := Text.trim t
  let t := if isQuotedBy '"' t || isQuotedBy '\'' t then t.tail.dropLast else t
  Text.trim t

end Input

namespace Program

def banner : String := "\n".intercalate
  ["",
    "                  _                 _",
    "   ___ ___  _ __ | |_ ___ _ __   __| | ___ _ __",
    "  / __/ _ \\| '_ \\| __/ _ \\ '_ \\ / _` |/ _ \\ '__|",
    " | (_| (_) | | | | ||  __/ | | | (_| |  __/ |",
    "  \\___\\___/|_| |_|\\__\\___|_| |_|\\__,_|\\___|_|",
    "",
    ""]

def defaultConfigFile : Path := .ofText "config_files/config.json".toList

def givenText? (g : Option (Given Text)) : Option Text :=
  (g.bind Given.value?).filter (!·.isEmpty)

def configFile (o : Options) : Path :=
  ((givenText? o.config).map Path.ofText).getD defaultConfigFile

def loadConfig (o : Options) : Act Config := do
  let file := configFile o
  Config.ofFile (if ← exists? file then some file else none)

def openLog (c : Config) : Act Bool := do
  let folder ← require c.logFolder
  let start : Act Bool := do
    let file ← spelledBy folder (startLog (.ofText folder.toText) (c.get Config.maxLogsKey))
    note ⟨.info, Plan.rule '=' 70⟩
    note ⟨.info, "Contender started"⟩
    note ⟨.info, s!"Log file: {file}"⟩
    pure true
  orOnRefusal start fun f => do
    printLine (Style.paint .red s!"Error setting up logging: {f.message}")
    pure false

/-- Asks for a path until one is given that exists. Every question takes a line of the input. -/
def askPath : (fuel : Nat) → Act Path
  | 0 => throw .endOfInput
  | fuel + 1 => do
    print "Enter the path to your Java sources: "
    let p := Path.ofText (Input.cleanPath (← nextLine))
    if ← exists? p then pure p
    else
      printLine (Style.paint .red "Invalid path. Please enter an existing folder or file.")
      askPath fuel

def namedSource? (o : Options) : Option Text :=
  (o.sourceArgument.filter (!·.isEmpty)).or (givenText? o.source)

def sourcePath (o : Options) : Act Path := do
  match namedSource? o with
  | some t =>
    let text := (Input.cleanPath t).filter (· ≠ Char.ofNat 0)
    checkPath (.ofText text) { mustExist := true }
  | none =>
    let lines := match (← get).input with
      | some t => t.length + 1
      | none => 1
    checkPath (← askPath lines) { mustExist := true }

structure Target where
  root : Path
  lower : Option Int
  upper : Option Int

def ofOption (n : Option Int) : Json := (n.map Json.int).getD .null

/-- What is given for an option as a value: null if the option is not there, an empty list if it
has no value. -/
def ofGiven (f : α → Json) : Option (Given α) → Json
  | none => .null
  | some .nothing => .list []
  | some (.value x) => f x

def percent (n : Option (Given Int)) : Except Fault (Option Int) :=
  Input.integer (ofGiven .int n) (.int 0) (.int 100) true

def readTarget (o : Options) : Act Target := do
  let root ← sourcePath o
  let lower ← require (percent o.lower)
  let upper ← require (percent o.upper)
  pure ⟨root, lower, upper⟩

def exitCode (s : Stats) : Nat := if s.errors = 0 then 0 else 1

def revert (session : Session) (s : RunSettings) (root : Path) : Act Nat := do
  let (number, session) ← session.perform (Run.revert s root)
  let shown := Style.paint .green (toString number)
  printLine s!"[REVERT] {shown} files restored under {root}"
  session.stats.print
  pure (exitCode session.stats)

def carryOut (session : Session) (s : RunSettings) (root : Path) (annotate : Bool) : Act Nat := do
  if s.dryRun then
    printLine (Style.paint .yellow "[DRY-RUN MODE] No files will be modified")
    note ⟨.info, "Dry-run mode enabled - no modifications will be made"⟩
  let (plan, session) ← session.perform (Run.run s root annotate)
  if s.dryRun then
    plan.print
    pure 0
  else
    session.stats.print
    if session.stats.instrumented ≠ 0 then
      let command := Style.paint .cyan s!"contender {root} --revert"
      printLine s!"[INFO] Run {command} to restore the originals"
    note ⟨.info, "Contender completed"⟩
    pure (exitCode session.stats)

/-- The work on a checked target. `entropy` seeds the noise if no seed is given. -/
def work (o : Options) (c : Config) (t : Target) (entropy : Int) : Act Nat := do
  let folder : Path := .ofText (← require c.logFolder).toText
  let emitter ← Emitter.start (some (folder.child "events.jsonl".toList)) false
  let seed := ofGiven .int o.seed
  let generator ← require (Generator.ofValue seed entropy)
  let s := RunSettings.make c o.auto seed (ofOption t.lower) (ofOption t.upper)
    (o.dryRun || o.showPlan)
  let lower := Text.str s.scope.lower.plain
  let upper := Text.str s.scope.upper.plain
  if ← require (Json.above s.scope.lower s.scope.upper) then
    printLine (Style.paint .red s!"Invalid scope: lower {lower}% > upper {upper}%")
    pure 1
  else
    let session : Session := { emitter, generator, progress := { shown := !o.noProgress } }
    if o.revert then revert session s t.root else carryOut session s t.root o.freeze

def runConfigured (o : Options) (entropy : Int) : Act Nat := do
  let c ← loadConfig o
  if !(← openLog c) then pure 1
  else match ← attempt (readTarget o) with
    | .ok t => work o c t entropy
    | .error (.invalid cause) =>
      printLine (Style.paint .red s!"Invalid argument: {cause.message}")
      note ⟨.error, s!"Argument validation: {cause.message}"⟩
      pure 1
    | .error f => throw f

def start (o : Options) (entropy : Int) : Act Nat := do
  printLine (Style.paint .yellow banner)
  runConfigured o entropy

def run (o : Options) (entropy : Int) : Act Nat := do
  match ← attempt (start o entropy) with
  | .ok code => pure code
  | .error .interrupted =>
    printLine (Style.paint .yellow "\n\nOperation interrupted by user")
    note ⟨.info, "User interrupted operation"⟩
    pure 130
  | .error f =>
    printLine (Style.paint .red s!"\nUnexpected error: {f.message}")
    note ⟨.error, s!"Unexpected error: {f.message}"⟩
    pure 1

end Program

end SchedulingNoise
