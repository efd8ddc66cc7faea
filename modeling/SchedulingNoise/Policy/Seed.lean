import SchedulingNoise.Fault
import SchedulingNoise.Json.Value
import SchedulingNoise.Text.Utf8

namespace SchedulingNoise

namespace Digest

def rootFrom (k n : Nat) : (bits found : Nat) → Nat
  | 0, found => found
  | bits + 1, found =>
    let next := found + Nat.pow 2 bits
    rootFrom k n bits (if Nat.pow next k ≤ n then next else found)

def rootFraction (k n : Nat) : UInt64 := UInt64.ofNat (rootFrom k (n * Nat.pow 2 (64 * k)) 72 0)

def primesBelow (bound : Nat) : List Nat :=
  (List.range bound).filter fun n => 2 ≤ n && (List.range n).all fun d => d < 2 || n % d ≠ 0

def roundConstants : List UInt64 := (primesBelow 410).map (rootFraction 3)

structure Words where
  a : UInt64
  b : UInt64
  c : UInt64
  d : UInt64
  e : UInt64
  f : UInt64
  g : UInt64
  h : UInt64
deriving DecidableEq, Repr

namespace Words

def initial : Words :=
  ⟨rootFraction 2 2, rootFraction 2 3, rootFraction 2 5, rootFraction 2 7, rootFraction 2 11,
    rootFraction 2 13, rootFraction 2 17, rootFraction 2 19⟩

def plus (x y : Words) : Words :=
  ⟨x.a + y.a, x.b + y.b, x.c + y.c, x.d + y.d, x.e + y.e, x.f + y.f, x.g + y.g, x.h + y.h⟩

def toList (x : Words) : List UInt64 := [x.a, x.b, x.c, x.d, x.e, x.f, x.g, x.h]

end Words

def rotated (x n : UInt64) : UInt64 := (x >>> n) ||| (x <<< (64 - n))

def round (x : Words) (word constant : UInt64) : Words :=
  let high := rotated x.e 14 ^^^ rotated x.e 18 ^^^ rotated x.e 41
  let choice := (x.e &&& x.f) ^^^ (~~~x.e &&& x.g)
  let first := x.h + high + choice + constant + word
  let low := rotated x.a 28 ^^^ rotated x.a 34 ^^^ rotated x.a 39
  let majority := (x.a &&& x.b) ^^^ (x.a &&& x.c) ^^^ (x.b &&& x.c)
  ⟨first + (low + majority), x.a, x.b, x.c, x.d + first, x.e, x.f, x.g⟩

def schedule (block : List UInt64) : List UInt64 :=
  let grow (w : Array UInt64) (i : Nat) : Array UInt64 :=
    let x := w.getD (i + 1) 0
    let y := w.getD (i + 14) 0
    w.push (w.getD i 0 + (rotated x 1 ^^^ rotated x 8 ^^^ (x >>> 7)) + w.getD (i + 9) 0 +
      (rotated y 19 ^^^ rotated y 61 ^^^ (y >>> 6)))
  ((List.range 64).foldl grow block.toArray).toList

def absorb (x : Words) (block : List UInt64) : Words :=
  let rounds := (schedule block).zip roundConstants
  x.plus (rounds.foldl (fun x r => round x r.1 r.2) x)

def numberOf (bs : Bytes) : Nat := bs.foldl (fun n b => n * 256 + b.toNat) 0

def bytesOf (count n : Nat) : Bytes :=
  (List.range count).reverse.map fun i => UInt8.ofNat (n / Nat.pow 256 i)

/-- The bytes with a mark at their end, filled up to whole blocks that end with their number of
bits. -/
def padded (bs : Bytes) : Bytes :=
  let zeros := (239 - bs.length % 128) % 128
  bs ++ 128 :: List.replicate zeros 0 ++ bytesOf 16 (bs.length * 8)

def parts (size : Nat) : (count : Nat) → List α → List (List α)
  | 0, _ => []
  | count + 1, xs => xs.take size :: parts size count (xs.drop size)

def blocks (bs : Bytes) : List (List UInt64) :=
  let words := (parts 8 (bs.length / 8) bs).map fun w => UInt64.ofNat (numberOf w)
  parts 16 (words.length / 16) words

def sha512 (bs : Bytes) : Bytes :=
  let x := (blocks (padded bs)).foldl absorb Words.initial
  x.toList.flatMap fun w => bytesOf 8 w.toNat

end Digest

namespace Binary64

def residueModulus : Nat := Nat.pow 2 61 - 1

/-- A number modulo `2 ^ 61 - 1`, with its sign. Sixty-one doublings change nothing there, so
powers of two have small exponents. A residue is never minus one. -/
def residue : Binary64 → Int
  | .finite s m e =>
    let r : Int := (m * Nat.pow 2 (e.emod 61).toNat % residueModulus : Nat)
    if s then (if r = 1 then -2 else -r) else r
  | .infinite s => if s then -314159 else 314159
  | .notANumber => 0

end Binary64

namespace Seed

def ofDouble (x : Binary64) : Int := x.residue.emod (Nat.pow 2 64 : Nat)

def ofText (t : Text) : Int :=
  let bs := Utf8.encode t
  (Digest.numberOf (bs ++ Digest.sha512 bs) : Nat)

def ofValue : Json → Except Fault (Option Int)
  | .null => .ok none
  | .bool b => .ok (some (if b then 1 else 0))
  | .int n => .ok (some n)
  | .float x => .ok (some (ofDouble x))
  | .str t => .ok (some (ofText t.toText))
  | .list _ => .error .seedType
  | .object _ => .error .seedType

end Seed

end SchedulingNoise
