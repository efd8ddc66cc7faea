import SchedulingNoise.Disk.Basic
import SchedulingNoise.Json.Reader
import SchedulingNoise.Report
import SchedulingNoise.Number.Quantity
import SchedulingNoise.Style

/-! What a run works in: a disk seen from a folder, the processes that hold files open, clocks,
the answers of the user, and all that the run puts out. An `Act` is a step there that may fail;
what it did before it failed stays done. -/
namespace SchedulingNoise

/-- A process and its open files. `hidden` ones do not tell which files they hold. -/
structure Holder where
  pid : Int
  name : Option Text
  files : List Text
  own : Bool := false
  hidden : Bool := false
deriving DecidableEq, Repr

structure Clock where
  day : Text
  seconds : Nat
deriving DecidableEq, Repr

namespace Clock

def twoDigits (n : Nat) : Text :=
  let t := Decimal.ofNat n
  List.replicate (2 - t.length) '0' ++ t

def stamp (c : Clock) : Text :=
  c.day ++ '-' :: twoDigits (c.seconds / 3600 % 24) ++ twoDigits (c.seconds / 60 % 60) ++
    twoDigits (c.seconds % 60)

def tick (c : Clock) : Clock := { c with seconds := c.seconds + 1 }

end Clock

/-- What happens to a step that changes the disk: it goes through, or it is refused and leaves
other bytes than it should where it was to write. -/
inductive Mishap
  | none
  | refused (errno : Errno) (left : Option Bytes)
deriving DecidableEq, Repr

structure Workspace where
  disk : Disk
  /-- The working folder. -/
  folder : Place
  log : List LogRecord := []
  threshold : LogLevel := .debug
  output : String := ""
  /-- Is the output shown in colour? -/
  coloured : Bool := false
  /-- What a terminal without colours makes of control codes. -/
  terminal : String → Except Fault String := Style.stripped
  pauses : List Quantity := []
  /-- The process table at each look at it; empty after the last. -/
  holders : List (List Holder) := []
  clock : Clock
  /-- Seconds since the epoch. -/
  epoch : Nat
  /-- What the user types; nothing if the user breaks off. -/
  input : Option Text := some []
  /-- What happens to the next steps that change the disk; the steps after these go through. -/
  mishaps : List Mishap := []
  /-- How deep a configuration file may be nested. -/
  levels : Json.Levels := .usual

abbrev Act := EStateM Fault Workspace

namespace Workspace

/-- Runs a step and keeps what it did, whether it failed or not. -/
def attempt (a : Act α) : Act (Except Fault α) := fun w =>
  match a w with
  | .ok x w => .ok (.ok x) w
  | .error f w => .ok (.error f) w

def orOnRefusal (a : Act α) (other : Fault → Act α) : Act α := do
  match ← attempt a with
  | .ok x => pure x
  | .error f => if f.fromDisk then other f else throw f

def require : Except Fault α → Act α
  | .ok x => pure x
  | .error f => throw f

def note (r : LogRecord) : Act Unit :=
  modify fun w => if w.threshold.rank ≤ r.level.rank then { w with log := w.log ++ [r] } else w

def noteAll (rs : List LogRecord) : Act Unit := rs.forM note

/-- Prints a text. What becomes of control codes where colours are not wanted is up to the
terminal. -/
def print (s : String) : Act Unit := do
  let w ← get
  let shown ← if w.coloured || !s.toList.contains Style.escape then pure s
    else require (w.terminal s)
  modify fun w => { w with output := w.output ++ shown }

def printLine (s : String) : Act Unit := do
  print s
  print "\n"

def printLines (lines : List String) : Act Unit := lines.forM printLine

def pause (q : Quantity) : Act Unit := modify fun w => { w with pauses := w.pauses ++ [q] }

def nextHolders : Act (List Holder) := modifyGet fun w =>
  match w.holders with
  | [] => ([], w)
  | ps :: rest => (ps, { w with holders := rest })

def nextMishap : Act Mishap := modifyGet fun w =>
  match w.mishaps with
  | [] => (.none, w)
  | m :: rest => (m, { w with mishaps := rest })

def nextLine : Act Text := do
  match (← get).input with
  | none => throw .interrupted
  | some [] => throw .endOfInput
  | some t =>
    modify fun w => { w with input := some ((t.dropWhile (· ≠ '\n')).drop 1) }
    pure (t.takeWhile (· ≠ '\n'))

end Workspace

end SchedulingNoise
