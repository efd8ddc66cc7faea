import SchedulingNoise.Number.Decimal

/-! Double-precision numbers, worked out in exact arithmetic.

A finite number is `mantissa · 2 ^ exponent`. The mantissa is below `2 ^ 53`, the exponent is at
least `-1074`, and one of the two is as small as it can be with that, so that equal numbers have
one form. Zero has a sign. -/
namespace SchedulingNoise

inductive Binary64
  | finite (negative : Bool) (mantissa : Nat) (exponent : Int)
  | infinite (negative : Bool)
  | notANumber
deriving DecidableEq, Repr

namespace Binary64

def minExponent : Int := -1074

def maxExponent : Int := 971

def mantissaBound : Nat := Nat.pow 2 53

/-- The quotient to the nearest integer; a half goes to the even neighbour. -/
def roundDiv (num den : Nat) : Nat :=
  let q := num / den
  let r := num % den
  if 2 * r < den || (2 * r == den && q % 2 == 0) then q else q + 1

def scale (num den : Nat) (e : Int) : Nat × Nat :=
  if 0 ≤ e then (num, den * Nat.pow 2 e.toNat) else (num * Nat.pow 2 (-e).toNat, den)

def ofRatio (negative : Bool) (num den : Nat) : Binary64 :=
  if num = 0 then .finite negative 0 minExponent
  else
    let guess : Int := (num.log2 : Int) - (den.log2 : Int) - 53
    let fine := scale num den guess
    let e := max minExponent (if fine.1 / fine.2 < mantissaBound then guess else guess + 1)
    let (a, b) := scale num den e
    let m := roundDiv a b
    let (m, e) := if m = mantissaBound then (mantissaBound / 2, e + 1) else (m, e)
    if maxExponent < e then .infinite negative else .finite negative m e

def ofIntRatio (n : Int) (d : Nat) : Binary64 := ofRatio (n < 0) n.natAbs d

/-- The double nearest to `digits · 10 ^ e`. Exponents that only lead to zero or to infinity are
not worked out. -/
def ofDecimal (negative : Bool) (digits : Nat) (e : Int) : Binary64 :=
  let top := e + (Decimal.ofNat digits).length
  if digits = 0 || top < -400 then .finite negative 0 minExponent
  else if 400 < top then .infinite negative
  else if 0 ≤ e then ofRatio negative (digits * Nat.pow 10 e.toNat) 1
  else ofRatio negative digits (Nat.pow 10 (-e).toNat)

def timesNat : Binary64 → Nat → Binary64
  | .finite s m e, n => let (a, b) := scale (m * n) 1 (-e); ofRatio s a b
  | .infinite s, n => if n = 0 then .notANumber else .infinite s
  | .notANumber, _ => .notANumber

def overNat : Binary64 → Nat → Binary64
  | .finite s m e, n => let (a, b) := scale m n (-e); ofRatio s a b
  | x, _ => x

def leInt : Binary64 → Int → Bool
  | .finite s m e, n =>
    let (a, b) := scale m 1 (-e)
    (if s then -(a : Int) else a) ≤ n * b
  | .infinite s, _ => s
  | .notANumber, _ => false

def geInt : Binary64 → Int → Bool
  | .finite s m e, n =>
    let (a, b) := scale m 1 (-e)
    n * b ≤ (if s then -(a : Int) else a)
  | .infinite s, _ => !s
  | .notANumber, _ => false

def fraction (negative : Bool) (mantissa : Nat) (exponent : Int) : Int × Nat :=
  let (a, b) := scale mantissa 1 (-exponent)
  (if negative then -(a : Int) else a, b)

/-- Is the first number below the second? Nothing is below or above what is not a number. -/
def lt : Binary64 → Binary64 → Bool
  | .notANumber, _ => false
  | _, .notANumber => false
  | .infinite s, .infinite t => s && !t
  | .infinite s, _ => s
  | _, .infinite t => !t
  | .finite s m e, .finite t n f =>
    let (a, b) := fraction s m e
    let (c, d) := fraction t n f
    a * d < c * b

def same : Binary64 → Binary64 → Bool
  | .infinite s, .infinite t => s == t
  | .finite s m e, .finite t n f =>
    let (a, b) := fraction s m e
    let (c, d) := fraction t n f
    a * d == c * b
  | _, _ => false

def negate : Binary64 → Binary64
  | .finite s m e => .finite (!s) m e
  | .infinite s => .infinite (!s)
  | .notANumber => .notANumber

/-- The double nearest to the sum. A sum of zero is negative only if both parts are. -/
def plus : Binary64 → Binary64 → Binary64
  | .notANumber, _ => .notANumber
  | _, .notANumber => .notANumber
  | .infinite s, .infinite t => if s = t then .infinite s else .notANumber
  | .infinite s, _ => .infinite s
  | _, .infinite t => .infinite t
  | .finite s m e, .finite t n f =>
    let (a, b) := fraction s m e
    let (c, d) := fraction t n f
    let sum := a * d + c * b
    if sum = 0 then .finite (s && t) 0 minExponent else ofRatio (sum < 0) sum.natAbs (b * d)

def minus (x y : Binary64) : Binary64 := x.plus y.negate

def truncate? : Binary64 → Option Int
  | .finite s m e =>
    let (a, b) := scale m 1 (-e)
    let n : Int := (a / b : Nat)
    some (if s then -n else n)
  | _ => none

end Binary64

end SchedulingNoise
