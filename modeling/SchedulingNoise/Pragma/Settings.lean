import SchedulingNoise.Pragma.Basic
import SchedulingNoise.Fault
import SchedulingNoise.Text.Lowercase

/-! The list of an annotation: items `key = value` between commas.

Keys and the type are read in any case, blank items and unknown keys are passed over, and of a
repeated key the last value counts. An item without an equals sign, an unreadable value, a
probability above one hundred or a sleep whose delays are the wrong way round make the whole
list malformed. -/
namespace SchedulingNoise

structure Settings where
  sequence : Option Int := none
  kind : Option NoiseKind := none
  probability : Option Int := none
  low : Option Int := none
  high : Option Int := none
deriving DecidableEq, Repr

namespace Settings

def isQuote (c : Char) : Bool := c = '"' || c = '\''

def bare (t : Text) : Text := Text.trim (Text.trimBy isQuote (Text.trim t))

def keyOf (t : Text) : Text := Text.lower (Text.trim t)

def number? (t : Text) : Except Fault (Option Int) :=
  let digits := bare t
  if digits.isEmpty || !digits.all Char.isDigit then .ok none
  else match Decimal.read digits with
    | .ok n => .ok (some n)
    | .error n => .error (.tooManyDigits n)

def kind? (t : Text) : Option NoiseKind :=
  let word := Text.lower (bare t)
  if word = "sleep".toList then some .sleep
  else if word = "yield".toList then some .yield
  else none

inductive Key
  | sequence
  | low
  | high
  | probability
  | kind
deriving DecidableEq, Repr

inductive Entry
  | sequence (n : Int)
  | low (n : Int)
  | high (n : Int)
  | probability (n : Int)
  | kind (k : NoiseKind)
deriving DecidableEq, Repr

def put (s : Settings) : Entry → Settings
  | .sequence n => { s with sequence := some n }
  | .low n => { s with low := some n }
  | .high n => { s with high := some n }
  | .probability n => { s with probability := some n }
  | .kind k => { s with kind := some k }

namespace Key

def name : Key → Text
  | .sequence => "sequence".toList
  | .low => "low".toList
  | .high => "high".toList
  | .probability => "probability".toList
  | .kind => "type".toList

def ofName? (name : Text) : Option Key :=
  [sequence, low, high, probability, kind].find? fun k => k.name = name

def read : Key → Text → Except Fault (Option Entry)
  | .sequence, value => (number? value).map (·.map .sequence)
  | .low, value => (number? value).map (·.map .low)
  | .high, value => (number? value).map (·.map .high)
  | .probability, value => (number? value).map (·.map .probability)
  | .kind, value => .ok ((kind? value).map .kind)

end Key

/-- One item of the list on top of what is set already; no value means a malformed item. -/
def item (s : Settings) (t : Text) : Except Fault (Option Settings) :=
  if (Text.trim t).isEmpty then .ok (some s)
  else match Text.partition? '=' t with
    | none => .ok none
    | some (key, value) =>
      match Key.ofName? (keyOf key) with
      | none => .ok (some s)
      | some k => (k.read value).map (·.map s.put)

def items : Settings → List Text → Except Fault (Option Settings)
  | s, [] => .ok (some s)
  | s, t :: rest => do
    match ← item s t with
    | none => pure none
    | some s => items s rest

def ofList (list : Text) : Except Fault (Option Settings) :=
  if list.isEmpty then .ok (some {}) else items {} (Text.splitOn [','] list)

/-- The annotation that settings make of the defaults, if its numbers fit together. -/
def apply (s : Settings) (defaults : Pragma Int) : Option (Pragma Int) :=
  let d := defaults.noise
  let noise := Noise.make (s.kind.getD d.kind) (s.probability.getD d.probability)
    (s.low.getD d.low) (s.high.getD d.high)
  if 100 < noise.probability then none
  else if noise.kind = .sleep && noise.high < noise.low then none
  else some ⟨s.sequence.getD defaults.sequence, noise⟩

end Settings

namespace Pragma

def ofList (list : Option Text) (defaults : Pragma Int := default) :
    Except Fault (Option (Pragma Int)) := do
  match ← Settings.ofList (list.getD []) with
  | none => pure none
  | some s => pure (s.apply defaults)

end Pragma

end SchedulingNoise
