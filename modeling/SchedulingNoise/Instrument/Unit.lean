import SchedulingNoise.Instrument.Line
import SchedulingNoise.Java.Declaration
import SchedulingNoise.Java.EnumBody
import SchedulingNoise.Report
import SchedulingNoise.Noise
import SchedulingNoise.Source.Scan

namespace SchedulingNoise

def fieldPlace (text : Text) (m : Match Java.TypeHead) (r : RandomField) : Nat × Text :=
  let field := ' ' :: r.declaration
  if m.value.kind = .enum then
    let e := Java.constantsEnd text m.stop
    (e.offset, if e.unterminated then ';' :: field ++ [' '] else field)
  else (m.stop, field)

/-- Puts the field into the first type; the second part is the marker if there is no type. -/
def addField (text : Text) (r : RandomField) : Text × Text :=
  match Java.firstType? text with
  | some m =>
    let (o, field) := fieldPlace text m r
    (text.take o ++ field ++ text.drop o, [])
  | none => (text, ' ' :: missingTypeMarker)

def importAnchor? (text : Text) : Option Nat :=
  match Java.packageStatement.first text with
  | some m => some m.stop
  | none => (Java.importStatement.first text).map (·.stop)

def addImport (text marker : Text) : Text :=
  match importAnchor? text with
  | some o => text.take o ++ ' ' :: RandomField.importStatement ++ marker ++ text.drop o
  | none => RandomField.importStatement ++ marker ++ ' ' :: text

def addHeader (text : Text) (r : RandomField) : Text :=
  let (text, marker) := addField text r
  addImport text marker

def headerNotes (text : Text) : List LogRecord :=
  match Java.firstType? text with
  | some _ => []
  | none => [⟨.warning, "No type declaration found, random field not added"⟩]

def noisyOn (points : List (Point α)) (number : Nat) : List (Point α) :=
  points.filter fun p => p.noise.isSome && p.line == (number : Int)

namespace Survey

def randomField (s : Survey) (r : RandomField) : RandomField :=
  match Java.firstType? (Text.join ['\n'] s.unit.lines) with
  | some m => { r with owner := some m.value.name }
  | none => r

def instrumentedLine [Amount α] (s : Survey) (points : List (Point α)) (r : RandomField)
    (number : Nat) (line : Text) : Except Fault Text :=
  match noisyOn points number with
  | [] => .ok line
  | here => instrumentLine line here r s.catalogue

def instrumentedFrom [Amount α] (s : Survey) (points : List (Point α)) (r : RandomField) :
    (number : Nat) → List Text → Except Fault (List Text)
  | _, [] => .ok []
  | number, line :: rest => do
    let here ← s.instrumentedLine points r number line
    let below ← s.instrumentedFrom points r (number + 1) rest
    pure (here :: below)

def instrumentedLines [Amount α] (s : Survey) (points : List (Point α)) (r : RandomField) :
    Except Fault (List Text) :=
  s.instrumentedFrom points (s.randomField r) 1 s.unit.lines

/-- The unit's text with the noise of the points. The header is added if any point carries
noise, also if it is on no line of the unit. -/
def instrument [Amount α] (s : Survey) (points : List (Point α)) (r : RandomField := {}) :
    Except Fault Text := do
  let lines ← s.instrumentedLines points r
  let text := s.unit.assemble lines
  pure (if points.any (·.noise.isSome) then addHeader text (s.randomField r) else text)

def instrumentedNotes [Amount α] (s : Survey) (points : List (Point α)) (r : RandomField) :
    (number : Nat) → List Text → List LogRecord
  | _, [] => []
  | number, line :: rest =>
    lineNotes line r s.catalogue (noisyOn points number) ++
      match s.instrumentedLine points r number line with
      | .error _ => []
      | .ok _ => s.instrumentedNotes points r (number + 1) rest

def instrumentNotes [Amount α] (s : Survey) (points : List (Point α)) (r : RandomField := {}) :
    List LogRecord :=
  s.instrumentedNotes points (s.randomField r) 1 s.unit.lines ++
    match s.instrumentedLines points r with
    | .error _ => []
    | .ok lines =>
      if points.any (·.noise.isSome) then headerNotes (s.unit.assemble lines) else []

end Survey

end SchedulingNoise
