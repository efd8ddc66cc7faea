import SchedulingNoise.Fault
import SchedulingNoise.Number.Shortest

namespace SchedulingNoise

inductive Quantity
  | whole (n : Int)
  | double (x : Binary64)
deriving DecidableEq, Repr

namespace Quantity

def text : Quantity → Text
  | .whole n => Decimal.ofInt n
  | .double x => x.text

def timesBelow (unit n : Nat) : Quantity → Bool
  | .whole q => q * unit < n
  | .double .notANumber => false
  | .double x => !(x.timesNat unit).geInt n

def lt : Quantity → Quantity → Bool
  | .whole m, .whole n => m < n
  | .whole n, .double x => x ≠ .notANumber && !x.leInt n
  | .double x, .whole n => x ≠ .notANumber && !x.geInt n
  | .double x, .double y => x.lt y

def same : Quantity → Quantity → Bool
  | .whole m, .whole n => m == n
  | .whole n, .double x => x.leInt n && x.geInt n
  | .double x, .whole n => x.leInt n && x.geInt n
  | .double x, .double y => x.same y

def toDouble : Quantity → Except Fault Binary64
  | .double x => .ok x
  | .whole n =>
    match Binary64.ofIntRatio n 1 with
    | .infinite _ => .error .tooLargeForDouble
    | x => .ok x

def plus : Quantity → Quantity → Except Fault Quantity
  | .whole m, .whole n => .ok (.whole (m + n))
  | p, q => do return .double ((← p.toDouble).plus (← q.toDouble))

def minus : Quantity → Quantity → Except Fault Quantity
  | .whole m, .whole n => .ok (.whole (m - n))
  | p, q => do return .double ((← p.toDouble).minus (← q.toDouble))

def hundredth : Quantity → Except Fault Binary64
  | .double x => .ok (x.overNat 100)
  | .whole n =>
    match Binary64.ofIntRatio n 100 with
    | .infinite _ => .error .quotientTooLarge
    | x => .ok x

def write : Quantity → Except Fault Text
  | .double x => .ok x.text
  | .whole n => ((Decimal.write? n).map .ok).getD (.error .unwritable)

end Quantity

/-- What probabilities and delays are given in. Integers are amounts; other values may stand in for
them as far as they can be compared and subtracted. -/
class Amount (α : Type) where
  ofInt : Int → α
  text : α → Text
  /-- Has an amount few enough digits to be written? -/
  short : α → Bool
  /-- Is the first amount above the second? -/
  above : α → α → Except Fault Bool
  /-- The text of the first amount less the second. -/
  difference : α → α → Except Fault Text

def Amount.write [Amount α] (a : α) : Except Fault Text :=
  if Amount.short a then .ok (Amount.text a) else .error .unwritable

instance : Amount Int where
  ofInt n := n
  text := Decimal.ofInt
  short := Decimal.isShort
  above m n := .ok (n < m)
  difference m n := (Quantity.whole (m - n)).write

end SchedulingNoise
