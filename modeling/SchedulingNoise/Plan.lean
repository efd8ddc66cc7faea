import SchedulingNoise.Json.Order
import SchedulingNoise.Path
import SchedulingNoise.Noise

namespace SchedulingNoise

structure PlannedFile (α : Type) where
  path : Path
  callSites : Json
  points : List (Point α)
deriving Repr

structure SkippedFile where
  path : Path
  reason : String
deriving DecidableEq, Repr

structure Plan (α : Type) where
  automatic : Bool := false
  files : List (PlannedFile α) := []
  skipped : List SkippedFile := []
deriving Repr

def Point.describe [Amount α] (p : Point α) : String :=
  let place := s!"line {p.line} #{p.sequence} {Text.str p.trigger}"
  let shown (a : α) : String := Text.str (Amount.text a)
  match p.noise with
  | none => s!"{place} (interest point)"
  | some n =>
    let action := match n.action with
      | .sleep low high => s!"sleep {shown low}-{shown high}ms"
      | .yield => "yield"
    s!"{place} [{p.kind.name}] {action} @ {shown n.probability}%"

/-- The line, unless one of its numbers has too many digits. -/
def Point.described [Amount α] (p : Point α) : Except Fault String :=
  if Decimal.isShort p.line && Decimal.isShort p.sequence && p.noise.all (·.short) then
    .ok p.describe
  else .error .unwritable

namespace Plan

def totalPoints (p : Plan α) : Nat := p.files.foldl (fun n f => n + f.points.length) 0

def totalCallSites (p : Plan α) : Except Fault Quantity :=
  p.files.foldlM (fun n f =>
    match f.callSites.number? with
    | some q => n.plus q
    | none => .error .wrongType) (.whole 0)

def rule (c : Char) (n : Nat) : String := Text.str (List.replicate n c)

def headLine (f : PlannedFile α) : Except Fault String := do
  let sites ← Amount.write f.callSites
  pure s!"\n{f.path} ({f.points.length} of {Text.str sites} call sites):"

def fileLines [Amount α] (f : PlannedFile α) : List (Except Fault String) :=
  headLine f :: f.points.map fun p => do return s!"  {← p.described}"

def skippedLines (p : Plan α) : List String :=
  if p.skipped.isEmpty then []
  else
    s!"\nSKIPPED ({p.skipped.length}):" ::
      p.skipped.map fun s => s!"  Skip: {Text.str s.path.name} - {s.reason}"

def constructCounts (p : Plan α) : List (Nat × String) :=
  let kinds := p.files.flatMap fun f => f.points.map (·.kind)
  let order : List ConstructKind := [.barrier, .latch, .mutualExclusion, .semaphore]
  (order.map fun k => (kinds.count k, k.name)).filter fun c => c.1 ≠ 0

def constructLines (p : Plan α) : List String :=
  match p.constructCounts with
  | [] => []
  | counts =>
    let parts := counts.map fun (n, name) => s!"{n} {name}"
    ["  By construct: " ++ ", ".intercalate parts]

def titleLines (p : Plan α) : List String :=
  let mode := if p.automatic then "AUTOMATIC" else "MANUAL"
  ["\n" ++ rule '=' 80, s!"INSTRUMENTATION PLAN ({mode} MODE)", rule '=' 80]

def numberLines (p : Plan α) : List String :=
  ["\n" ++ rule '-' 80, "SUMMARY:",
    s!"  Files: {p.files.length} planned, {p.skipped.length} skipped"]

def totalLine (p : Plan α) : Except Fault String := do
  let sites ← (← p.totalCallSites).write
  pure s!"  Points: {p.totalPoints} of {Text.str sites} call sites"

def closingLines (p : Plan α) : List String := p.constructLines ++ [rule '=' 80 ++ "\n"]

end Plan

end SchedulingNoise
