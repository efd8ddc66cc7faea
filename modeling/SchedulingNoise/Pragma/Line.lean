import SchedulingNoise.Noise
import SchedulingNoise.Pragma.Settings
import SchedulingNoise.Report

namespace SchedulingNoise

namespace Pragma

abbrev Comment := Match (Option Text)

def parse (line : Text) (defaults : Pragma Int := default) : Except Fault (Option (Pragma Int)) :=
  match comments line with
  | [] => .ok none
  | c :: _ => ofList c.value defaults

def parseAll (line : Text) (defaults : Pragma Int := default) :
    Except Fault (List (Comment × Option (Pragma Int))) :=
  (comments line).mapM fun c => do
    let a ← ofList c.value defaults
    pure (c, a)

structure Reading where
  comment : Comment
  result : Except Fault (Option (Pragma Int))

def readings (line : Text) (defaults : Pragma Int := default) : List Reading :=
  (comments line).map fun c => ⟨c, ofList c.value defaults⟩

def existsIn : List Comment → Except Fault Bool
  | [] => .ok false
  | c :: rest => do
    match ← ofList c.value with
    | some _ => pure true
    | none => existsIn rest

def exists? (line : Text) : Except Fault Bool := existsIn (comments line)

def lookupIn (sequence : Int) : List Reading → Except Fault (Option (Pragma Int))
  | [] => .ok none
  | r :: rest => do
    match ← r.result with
    | some a => if a.sequence = sequence then pure (some a) else lookupIn sequence rest
    | none => lookupIn sequence rest

def lookup (line : Text) (sequence : Int) (defaults : Pragma Int := default) :
    Except Fault (Option (Pragma Int)) :=
  lookupIn sequence (readings line defaults)

def lookupNotesIn (line : Text) (sequence : Int) : List Reading → List LogRecord
  | [] => []
  | r :: rest =>
    match r.result with
    | .error _ => []
    | .ok (some a) => if a.sequence = sequence then [] else lookupNotesIn line sequence rest
    | .ok none =>
      ⟨.debug, s!"Ignoring malformed annotation: {Text.str (r.comment.text line)}"⟩ ::
        lookupNotesIn line sequence rest

def lookupNotes (line : Text) (sequence : Int) (defaults : Pragma Int := default) :
    List LogRecord :=
  lookupNotesIn line sequence (readings line defaults)

def ownSequence : List Text → Except Fault (Option Int)
  | [] => .ok (some default.sequence)
  | t :: rest =>
    match Text.partition? '=' t with
    | some (key, value) =>
      if Settings.keyOf key = Settings.Key.sequence.name then Settings.number? value
      else ownSequence rest
    | none => ownSequence rest

/-- The sequence number that a comment means, also if the rest of it is malformed. -/
def sequenceOf (c : Comment) : Except Fault (Option Int) := do
  match ← ofList c.value with
  | some a => pure (some a.sequence)
  | none => ownSequence (Text.splitOn [','] (c.value.getD []))

def updateIn [Amount α] (a : Pragma α) (line : Text) : List Comment → Except Fault Text
  | [] => do return line ++ ' ' :: (← a.write)
  | c :: rest => do
    if (← sequenceOf c) = some a.sequence then
      return line.take c.start ++ (← a.write) ++ line.drop c.stop
    else updateIn a line rest

/-- Writes an annotation over the first comment with its sequence number, or behind the line. -/
def update [Amount α] (a : Pragma α) (line : Text) : Except Fault Text :=
  updateIn a line (comments line)

end Pragma

def Pragma.ofPoint (p : Point α) : Except Fault (Pragma α) :=
  match p.noise with
  | none => .error (.noNoise p.line)
  | some n => .ok ⟨p.sequence, n⟩

namespace Freeze

structure State where
  lines : List Text
  top : Option Text := none
deriving DecidableEq, Repr

/-- Writes one point. Points on the first line share a new line above it. -/
def point [Amount α] (s : State) (p : Point α) : Except Fault State :=
  match p.noise with
  | none => .ok s
  | some n =>
    let a : Pragma α := ⟨p.sequence, n⟩
    if p.line = 1 then
      match s.top with
      | none => do return { s with top := some (← a.write) }
      | some top => do return { s with top := some (← a.update top) }
    else
      match itemIndex? s.lines.length (p.line - 2) with
      | none => .error .outOfRange
      | some i => do return { s with lines := s.lines.set i (← a.update (s.lines.getD i [])) }

end Freeze

def freeze [Amount α] (lines : List Text) (points : List (Point α)) :
    Except Fault (List Text) := do
  let s ← points.foldlM Freeze.point { lines }
  pure (s.top.toList ++ s.lines)

end SchedulingNoise
