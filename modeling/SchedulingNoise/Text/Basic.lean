/-! Texts are lists of characters, so an offset counts characters. Indexes that callers may give
as negative numbers count from the end, and cuts outside a text fall on its nearest end. -/
namespace SchedulingNoise

abbrev Text := List Char

namespace Text

def str (t : Text) : String := String.ofList t

def find? (w : Text) : Text → Option Nat
  | [] => if w.isEmpty then some 0 else none
  | c :: rest => if w.isPrefixOf (c :: rest) then some 0 else (find? w rest).map (· + 1)

def contains (w t : Text) : Bool := (find? w t).isSome

/-- Splits at the leftmost, non-overlapping places where `sep` stands. `held` is the current
piece, reversed, and `skip` counts the characters of a separator still to pass. -/
def splitFrom (sep : Text) : (held : Text) → (skip : Nat) → Text → List Text
  | held, _, [] => [held.reverse]
  | held, skip + 1, _ :: rest => splitFrom sep held skip rest
  | held, 0, c :: rest =>
    if sep.isPrefixOf (c :: rest) then held.reverse :: splitFrom sep [] (sep.length - 1) rest
    else splitFrom sep (c :: held) 0 rest

/-- The pieces of a text between separators; `n` separators make `n + 1` pieces. -/
def splitOn (sep t : Text) : List Text := splitFrom sep [] 0 t

def join (sep : Text) (parts : List Text) : Text := sep.intercalate parts

def partition? (c : Char) : Text → Option (Text × Text)
  | [] => none
  | d :: rest =>
    if d = c then some ([], rest) else (partition? c rest).map fun p => (d :: p.1, p.2)

def swap (a b : Char) (t : Text) : Text := t.map fun c => if c = a then b else c

def trimBy (p : Char → Bool) (t : Text) : Text :=
  ((t.dropWhile p).reverse.dropWhile p).reverse

def trimEndBy (p : Char → Bool) (t : Text) : Text := (t.reverse.dropWhile p).reverse

def lt : Text → Text → Bool
  | [], [] => false
  | [], _ :: _ => true
  | _ :: _, [] => false
  | c :: s, d :: t => c < d || (c == d && lt s t)

def le (s t : Text) : Bool := !lt t s

end Text

def cutIndex (n : Nat) (i : Int) : Nat := if 0 ≤ i then min i.toNat n else n - (-i).toNat

def itemIndex? (n : Nat) (i : Int) : Option Nat :=
  if 0 ≤ i then (if i.toNat < n then some i.toNat else none)
  else (if (-i).toNat ≤ n then some (n - (-i).toNat) else none)

namespace Text

/-- Is a code point in the set that is entered at the first number of the list, left at the
second, entered again at the third, and so on? The list is ascending. -/
def inFlips (n : Nat) : List Nat → Bool
  | [] => false
  | a :: rest => if n < a then false else !inFlips n rest

/-- Is the character white space? The rule is Unicode's, with the four information separators
that stand before the space. -/
def isBlank (c : Char) : Bool :=
  let n := c.toNat
  (0x09 ≤ n && n ≤ 0x0D) || (0x1C ≤ n && n ≤ 0x20) || n == 0x85 || n == 0xA0 || n == 0x1680 ||
    (0x2000 ≤ n && n ≤ 0x200A) || n == 0x2028 || n == 0x2029 || n == 0x202F || n == 0x205F ||
    n == 0x3000

def trim (t : Text) : Text := trimBy isBlank t

def skipBlanks (t : Text) : Text := t.dropWhile isBlank

def countBlanks (t : Text) : Nat := (t.takeWhile isBlank).length

def skipBlanks1? : Text → Option Text
  | [] => none
  | c :: rest => if isBlank c then some (skipBlanks rest) else none

def after? (w t : Text) : Option Text := if w.isPrefixOf t then some (t.drop w.length) else none

def zeros : List Nat := [
  48, 1632, 1776, 1984, 2406, 2534, 2662, 2790, 2918, 3046, 3174, 3302, 3430, 3558, 3664, 3792,
  3872, 4160, 4240, 6112, 6160, 6470, 6608, 6784, 6800, 6992, 7088, 7232, 7248, 42528, 43216,
  43264, 43472, 43504, 43600, 44016, 65296, 66720, 68912, 69734, 69872, 69942, 70096, 70384,
  70736, 70864, 71248, 71360, 71472, 71904, 72016, 72784, 73040, 73120, 92768, 92864, 93008,
  120782, 120792, 120802, 120812, 120822, 123200, 123632, 125264, 130032]

def digitValue? (c : Char) : Option Nat :=
  if c.toNat < 128 then (if c.isDigit then some (c.toNat - 48) else none)
  else (zeros.find? fun z => z ≤ c.toNat && c.toNat < z + 10).map (c.toNat - ·)

end Text

abbrev Matcher (α : Type) := Option Char → Text → Option (Nat × α)

structure Match (α : Type) where
  start : Nat
  stop : Nat
  value : α
deriving DecidableEq, Repr

namespace Matcher

/-- All matches from a place on. `before` is the character before the place, `pos` its offset,
and `skip` counts the characters of the last match that are still to pass. -/
def allFrom (m : Matcher α) : (before : Option Char) → (pos skip : Nat) → Text → List (Match α)
  | _, _, _, [] => []
  | _, pos, skip + 1, c :: rest => allFrom m (some c) (pos + 1) skip rest
  | before, pos, 0, c :: rest =>
    match m before (c :: rest) with
    | some (n, a) => ⟨pos, pos + n, a⟩ :: allFrom m (some c) (pos + 1) (n - 1) rest
    | none => allFrom m (some c) (pos + 1) 0 rest

def all (m : Matcher α) (t : Text) : List (Match α) := allFrom m none 0 0 t

def firstFrom (m : Matcher α) : (before : Option Char) → (pos : Nat) → Text → Option (Match α)
  | _, _, [] => none
  | before, pos, c :: rest =>
    match m before (c :: rest) with
    | some (n, a) => some ⟨pos, pos + n, a⟩
    | none => firstFrom m (some c) (pos + 1) rest

def first (m : Matcher α) (t : Text) : Option (Match α) := firstFrom m none 0 t

def literal (w : Text) : Matcher Unit := fun _ t =>
  if w.isPrefixOf t then some (w.length, ()) else none

def atLineStart (m : Text → Option (Nat × α)) : Matcher α
  | none, t => m t
  | some c, t => if c = '\n' then m t else none

end Matcher

namespace Match

def text (m : Match α) (t : Text) : Text := (t.take m.stop).drop m.start

end Match

end SchedulingNoise
