import SchedulingNoise.Fault
import SchedulingNoise.Report
import SchedulingNoise.Noise
import SchedulingNoise.Sort
import SchedulingNoise.Text.Basic

namespace SchedulingNoise

structure Splice where
  offset : Int
  text : Text
  order : Int := 0
deriving DecidableEq, Repr

namespace Splice

def before (a b : Splice) : Bool :=
  b.offset < a.offset || (b.offset == a.offset && b.order ≤ a.order)

/-- Puts a text into a line. An offset outside the line means its nearest end. -/
def insert (line : Text) (s : Splice) : Text :=
  let i := cutIndex line.length s.offset
  line.take i ++ s.text ++ line.drop i

def applyAll (line : Text) (splices : List Splice) : Text :=
  (sortBy before splices).foldl insert line

end Splice

def isBoundary (c : Char) : Bool := c = ';' || c = '\x7b' || c = '\x7d'

/-- Start of the statement around an offset: behind the last boundary at or before it. -/
def statementStart (line : Text) (offset : Nat) : Nat :=
  ((line.take (offset + 1)).reverse.dropWhile fun c => !isBoundary c).length

namespace Point

/-- The offset of a point's call site, if it is on the line, given what a scan of the line finds.
The find with the point's sequence number counts if it is of the point's trigger; otherwise the
trigger's own places are counted. -/
def locateIn (p : Point α) (line : Text) (finds : List Occurrence) :
    Except Fault (Option Nat) := do
  let direct ←
    if p.sequence < finds.length then
      match itemIndex? finds.length p.sequence >>= (finds[·]?) with
      | none => throw .outOfRange
      | some o => pure (if o.trigger = p.trigger then some o.offset else none)
    else pure none
  match direct with
  | some o => pure (some o)
  | none =>
    let places := triggerOffsets p.trigger line
    if p.sequence < places.length then
      match itemIndex? places.length p.sequence >>= (places[·]?) with
      | none => throw .outOfRange
      | some o => pure (some o)
    else pure none

def locate (p : Point α) (line : Text) (c : Catalogue) : Except Fault (Option Nat) :=
  p.locateIn line (c.scanLine line)

def insertionIn (p : Point α) (line : Text) (finds : List Occurrence) :
    Except Fault (Option Nat) := do
  let o ← p.locateIn line finds
  pure (o.map (statementStart line))

def insertion (p : Point α) (line : Text) (c : Catalogue) : Except Fault (Option Nat) :=
  p.insertionIn line (c.scanLine line)

def splice? [Amount α] (p : Point α) (line : Text) (r : RandomField) (finds : List Occurrence)
    (order : Nat) : Except Fault (Option Splice) := do
  match ← p.insertionIn line finds with
  | none => pure none
  | some o =>
    match p.noise with
    | none => throw .missingNoise
    | some n => return some ⟨o, ← n.statement r, order⟩

def notFoundNote (p : Point α) : LogRecord :=
  ⟨.warning,
    s!"Line {p.line}: call site '{Text.str p.trigger}' #{p.sequence} not found, skipping"⟩

end Point

def lineSplices [Amount α] (line : Text) (r : RandomField) (finds : List Occurrence) :
    (order : Nat) → List (Point α) → Except Fault (List Splice)
  | _, [] => .ok []
  | order, p :: rest => do
    let s ← p.splice? line r finds order
    let more ← lineSplices line r finds (order + 1) rest
    pure (s.toList ++ more)

def instrumentLine [Amount α] (line : Text) (points : List (Point α)) (r : RandomField)
    (c : Catalogue) : Except Fault Text := do
  let splices ← lineSplices line r (c.scanLine line) 0 points
  pure (Splice.applyAll line splices)

def lineNotesIn [Amount α] (line : Text) (r : RandomField) (finds : List Occurrence) :
    List (Point α) → List LogRecord
  | [] => []
  | p :: rest =>
    match p.splice? line r finds 0 with
    | .error _ => []
    | .ok none => p.notFoundNote :: lineNotesIn line r finds rest
    | .ok (some _) => lineNotesIn line r finds rest

def lineNotes [Amount α] (line : Text) (r : RandomField) (c : Catalogue)
    (points : List (Point α)) : List LogRecord :=
  match points with
  | [] => []
  | points => lineNotesIn line r (c.scanLine line) points

end SchedulingNoise
