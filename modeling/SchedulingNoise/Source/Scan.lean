import SchedulingNoise.Pragma.Line
import SchedulingNoise.Noise
import SchedulingNoise.Source.Unit

namespace SchedulingNoise

def Occurrence.point (o : Occurrence) (above : List Pragma.Reading) (number : Int) :
    Except Fault (Point Int) := do
  let a ← Pragma.lookupIn o.sequence above
  pure ⟨number, o.sequence, o.kind, o.trigger, a.map (·.noise)⟩

def classifyLine (c : Catalogue) (line above : Text) (number : Int)
    (defaults : Pragma Int := .default) : Except Fault (List (Point Int)) :=
  let readings := Pragma.readings above defaults
  (c.scanLine line).mapM fun o => o.point readings number

def classifyNotesIn (above : Text) (readings : List Pragma.Reading) :
    List Occurrence → List LogRecord
  | [] => []
  | o :: rest =>
    Pragma.lookupNotesIn above o.sequence readings ++
      match Pragma.lookupIn o.sequence readings with
      | .ok _ => classifyNotesIn above readings rest
      | .error _ => []

def classifyNotes (above : Text) (defaults : Pragma Int) (found : List Occurrence) :
    List LogRecord :=
  classifyNotesIn above (Pragma.readings above defaults) found

def pointsFrom (c : Catalogue) : (above : Text) → (number : Nat) → List Text →
    Except Fault (List (Point Int))
  | _, _, [] => .ok []
  | above, number, line :: rest => do
    let here ← classifyLine c line above number
    let below ← pointsFrom c line (number + 1) rest
    pure (here ++ below)

def pointsNotes (c : Catalogue) : (above : Text) → (number : Nat) → List Text → List LogRecord
  | _, _, [] => []
  | above, number, line :: rest =>
    classifyNotes above .default (c.scanLine line) ++
      match classifyLine c line above number with
      | .ok _ => pointsNotes c line (number + 1) rest
      | .error _ => []

structure Survey where
  unit : SourceUnit
  catalogue : Catalogue
  points : List (Point Int)
deriving Repr

namespace Survey

def annotated (s : Survey) : List (Point Int) := s.points.filter (·.noise.isSome)

/-- An empty catalogue stands for the default one. -/
def catalogueOr (c : Catalogue) : Catalogue := if c.isEmpty then .default else c

def ofUnit (u : SourceUnit) (c : Catalogue) : Except Fault Survey := do
  let points ← pointsFrom (catalogueOr c) [] 1 u.lines
  pure ⟨u, catalogueOr c, points⟩

def notes (u : SourceUnit) (c : Catalogue) : List LogRecord :=
  pointsNotes (catalogueOr c) [] 1 u.lines ++
    match ofUnit u c with
    | .error _ => []
    | .ok s =>
      let found := s.points.length
      let noted := s.annotated.length
      [⟨.info, s!"Scanned {u.path}: {found} call sites, {noted} annotated"⟩]

end Survey

end SchedulingNoise
