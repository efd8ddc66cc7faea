import SchedulingNoise.Json.Order

namespace SchedulingNoise

structure Bar where
  /-- How many files there are; null if nobody knows. -/
  total : Json
  done : Quantity := .whole 0
  shown : Bool
  /-- What was handled last. -/
  current : Option Text := none
deriving Repr

/-- What the bars do that show the progress. They are not part of the program. -/
structure BarRules where
  make : (total : Json) → (shown : Bool) → Except Fault Bar
  /-- Is a bar over something? -/
  active : Bar → Except Fault Bool
  label : Bar → (current : Json) → Bar
  advance : Bar → (n : Json) → Except Fault Bar

namespace Bar

/-- A total without end counts as unknown. -/
def knownTotal : Json → Json
  | .float (.infinite false) => .null
  | v => v

def drawable (total : Json) : Except Fault Unit :=
  if !total.truthy then .ok ()
  else match total.number? with
    | none => .error .wrongType
    | some q => do let _ ← q.plus (.double (.ofRatio false 1 2))

def start (total : Json) (shown : Bool) : Except Fault Bar := do
  let total := knownTotal total
  if shown then drawable total
  pure { total, shown }

def advance (b : Bar) (n : Json) : Except Fault Bar :=
  if !b.shown then .ok b
  else match n.number? with
    | none => .error .wrongType
    | some q => do return { b with done := ← b.done.plus q }

end Bar

/-- A bar over nothing never moves, and a bar of which nobody knows how long it is cannot be asked
whether it is over nothing. -/
def BarRules.usual : BarRules where
  make := Bar.start
  active b := Json.above b.total (.int 0)
  label b current := { b with current := some current.plain }
  advance := Bar.advance

structure Progress where
  shown : Bool := true
  bar : Option Bar := none
deriving Repr

abbrev ProgressAct := EStateM Fault Progress

namespace Progress

def demand : Except Fault α → ProgressAct α
  | .ok x => pure x
  | .error f => throw f

def put (b : Option Bar) : ProgressAct Unit := modify fun p => { p with bar := b }

def active? (rules : BarRules) : ProgressAct (Option Bar) := do
  match (← get).bar with
  | none => pure none
  | some b => return if ← demand (rules.active b) then some b else none

def close (rules : BarRules := .usual) : ProgressAct Unit := do
  if (← active? rules).isSome then put none

def start (total : Json) (rules : BarRules := .usual) : ProgressAct Unit := do
  close rules
  put (some (← demand (rules.make total (← get).shown)))

def update (n current : Json) (rules : BarRules := .usual) : ProgressAct Unit := do
  match ← active? rules with
  | none => pure ()
  | some b =>
    let b := if current.truthy then rules.label b current else b
    put (some b)
    put (some (← demand (rules.advance b n)))

end Progress

end SchedulingNoise
