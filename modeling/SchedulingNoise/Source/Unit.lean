import SchedulingNoise.Json.Order
import SchedulingNoise.Path

namespace SchedulingNoise

structure Scope where
  lower : Json := .int 0
  upper : Json := .int 100
deriving Repr

namespace Scope

/-- A hundredth of a percentage as a double, times the number of lines. -/
def bound (percent : Json) (lines : Nat) : Except Fault Binary64 :=
  match percent.number? with
  | none => .error .wrongType
  | some q => do return (← q.hundredth).timesNat lines

def contains (s : Scope) (lines : Nat) (line : Int) : Except Fault Bool := do
  let lower ← bound s.lower lines
  let upper ← bound s.upper lines
  pure (lower.leInt line && upper.geInt line)

def text (s : Scope) : String := s!"{Text.str s.lower.plain}%-{Text.str s.upper.plain}%"

end Scope

structure SourceUnit where
  path : Path
  lines : List Text
  newline : Text := ['\n']
  /-- Did the last line have an end? -/
  trailing : Bool := true
  scope : Scope := {}
deriving Repr

namespace SourceUnit

/-- A text that has a carriage return before any line feed is split at such pairs only. -/
def newlineOf (t : Text) : Text := if Text.contains ['\r', '\n'] t then ['\r', '\n'] else ['\n']

def ofText (path : Path) (t : Text) (scope : Scope := {}) : SourceUnit :=
  let newline := newlineOf t
  let pieces := Text.splitOn newline t
  if newline.isSuffixOf t then ⟨path, pieces.dropLast, newline, true, scope⟩
  else ⟨path, pieces, newline, false, scope⟩

def assemble (u : SourceUnit) (lines : List Text) : Text :=
  Text.join u.newline lines ++ (if u.trailing && !lines.isEmpty then u.newline else [])

def text (u : SourceUnit) : Text := u.assemble u.lines

def inScope (u : SourceUnit) (line : Int) : Except Fault Bool :=
  u.scope.contains u.lines.length line

end SourceUnit

end SchedulingNoise
