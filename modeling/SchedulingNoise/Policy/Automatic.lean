import SchedulingNoise.Policy.Seed
import SchedulingNoise.Policy.Twister
import SchedulingNoise.Source.Scan

namespace SchedulingNoise

inductive Generator
  | script (draws : List Int)
  | twister (state : Twister)

/-- Drawing numbers. A draw that fails leaves the generator as it was. -/
abbrev Draws := EStateM Fault Generator

namespace Generator

def ofSeed (seed : Int) : Generator := .twister (.ofSeed seed)

def ofValue (seed : Json) (entropy : Int) : Except Fault Generator := do
  return ofSeed ((← Seed.ofValue seed).getD entropy)

def draw : Draws Int
  | .script [] => .error .outOfRange (.script [])
  | .script (d :: rest) => .ok d (.script rest)
  | .twister t => let (n, t) := t.percent 4096; .ok n (.twister t)

end Generator

structure Policy (α : Type) where
  /-- How likely the noise is to take place, for each construct. -/
  probability : ConstructKind → α
  sleepProbability : α
  delayLow : α
  delayHigh : α

namespace Policy

def default [Amount α] : Policy α where
  probability _ := Amount.ofInt 50
  sleepProbability := Amount.ofInt 50
  delayLow := Amount.ofInt defaultLow
  delayHigh := Amount.ofInt defaultHigh

def kindFor [Amount α] (p : Policy α) (draw : Int) : Except Fault NoiseKind := do
  if ← Amount.above p.sleepProbability (Amount.ofInt draw) then pure .sleep else pure .yield

def chooseKind [Amount α] (p : Policy α) : Draws NoiseKind := do
  let d ← Generator.draw
  match p.kindFor d with
  | .ok kind => pure kind
  | .error f => throw f

def chooseKinds [Amount α] (p : Policy α) : Nat → Draws (List NoiseKind)
  | 0 => pure []
  | n + 1 => do
    let k ← p.chooseKind
    let ks ← p.chooseKinds n
    pure (k :: ks)

def noise (p : Policy α) (construct : ConstructKind) (kind : NoiseKind) : Noise α :=
  .make kind (p.probability construct) p.delayLow p.delayHigh

end Policy

def drawNoise [Amount α] (p : Policy α) : List (Point β) → Draws (List (Point α))
  | [] => pure []
  | pt :: rest => do
    let kind ← p.chooseKind
    let pts ← drawNoise p rest
    pure (pt.withNoise (some (p.noise pt.kind kind)) :: pts)

def SourceUnit.pointsInScope (u : SourceUnit) :
    List (Point α) → Except Fault (List (Point α))
  | [] => .ok []
  | p :: rest => do
    let inside ← u.inScope p.line
    let others ← u.pointsInScope rest
    pure (if inside then p :: others else others)

namespace Survey

def inScope (s : Survey) : Except Fault (List (Point Int)) := s.unit.pointsInScope s.points

/-- New noise for the points in scope, whatever noise they had. -/
def generate [Amount α] (s : Survey) (p : Policy α) : Draws (List (Point α)) :=
  match s.inScope with
  | .error f => throw f
  | .ok points => drawNoise p points

def generateNote (s : Survey) (points : List (Point α)) : LogRecord :=
  let made := points.length
  let skipped := s.points.length - made
  ⟨.info, s!"Automatic policy for {s.unit.path}: {made} points " ++
    s!"({skipped} outside {s.unit.scope.text})"⟩

end Survey

end SchedulingNoise
