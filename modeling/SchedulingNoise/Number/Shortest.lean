import SchedulingNoise.Number.Binary64

/-! The shortest decimal text of a double: the fewest digits that read back as the same number,
and of those the nearest. Below a ten-thousandth and from `10 ^ 16` on it is written with an
exponent of at least two digits; otherwise it has a point and a digit behind it. -/
namespace SchedulingNoise.Binary64

def tenths (m : Nat) (e k : Int) : Nat × Nat :=
  let (a, b) := scale m 1 (-e)
  if 0 ≤ k then (a, b * Nat.pow 10 k.toNat) else (a * Nat.pow 10 (-k).toNat, b)

def leadingPower (num den : Nat) : Nat → Int → Int
  | 0, k => k
  | fuel + 1, k =>
    let fits := if 0 ≤ k then den * Nat.pow 10 k.toNat ≤ num else den ≤ num * Nat.pow 10 (-k).toNat
    if fits then k else leadingPower num den fuel (k - 1)

/-- Of the two neighbours of the number among the multiples of `10 ^ k`, the nearer one that
reads back as the number. -/
def neighbour? (m : Nat) (e k : Int) : Option Nat :=
  let (a, b) := tenths m e k
  let below := a / b
  let reads (n : Nat) : Bool := ofDecimal false n k == .finite false m e
  let belowFirst := 2 * (a % b) < b || (2 * (a % b) == b && below % 2 == 0)
  let (near, far) := if belowFirst then (below, below + 1) else (below + 1, below)
  if reads near then some near else if reads far then some far else none

def shortestFrom (m : Nat) (e top : Int) : Nat → Nat → Nat × Int
  | 0, _ => (0, 0)
  | fuel + 1, n =>
    let k := top - (n : Int)
    match neighbour? m e k with
    | some digits => (digits, k)
    | none => shortestFrom m e top fuel (n + 1)

/-- The digits, without zeros at the end, and the power of ten of the place before the first. -/
def shortest (m : Nat) (e : Int) : Text × Int :=
  let (a, b) := scale m 1 (-e)
  let guess : Int := ((a.log2 : Int) - (b.log2 : Int)) * 30103 / 100000 + 2
  let top := leadingPower a b 8 guess
  let (digits, k) := shortestFrom m e top 18 0
  let t := Decimal.ofNat digits
  (Text.trimEndBy (· = '0') t, k + t.length)

def positional (digits : Text) (point : Int) : Text :=
  if point ≤ 0 then '0' :: '.' :: List.replicate (-point).toNat '0' ++ digits
  else
    let p := point.toNat
    if digits.length ≤ p then digits ++ List.replicate (p - digits.length) '0' ++ ['.', '0']
    else digits.take p ++ '.' :: digits.drop p

def scientific (digits : Text) (point : Int) : Text :=
  let x := point - 1
  let head := match digits with
    | [] => []
    | [d] => [d]
    | d :: rest => d :: '.' :: rest
  let power := Decimal.ofNat x.natAbs
  head ++ ['e', if x < 0 then '-' else '+'] ++ List.replicate (2 - power.length) '0' ++ power

def text : Binary64 → Text
  | .notANumber => "nan".toList
  | .infinite s => if s then "-inf".toList else "inf".toList
  | .finite s m e =>
    let sign : Text := if s then ['-'] else []
    if m = 0 then sign ++ "0.0".toList
    else
      let (digits, point) := shortest m e
      sign ++ (if -4 < point && point ≤ 16 then positional digits point
        else scientific digits point)

def parse? (t : Text) : Option Binary64 :=
  let (negative, body) := match t with
    | '-' :: rest => (true, rest)
    | '+' :: rest => (false, rest)
    | rest => (false, rest)
  if body = "inf".toList then some (.infinite negative)
  else if body = "nan".toList then some .notANumber
  else
    let whole := body.takeWhile Char.isDigit
    let (part, rest) := match body.dropWhile Char.isDigit with
      | '.' :: more => (more.takeWhile Char.isDigit, more.dropWhile Char.isDigit)
      | more => ([], more)
    let digits := whole ++ part
    let shift : Int := -(part.length : Int)
    if digits.isEmpty then none
    else match rest with
      | [] => some (ofDecimal negative (Decimal.value digits) shift)
      | c :: power =>
        if c = 'e' || c = 'E' then
          (Decimal.parse? power).map fun x => ofDecimal negative (Decimal.value digits) (shift + x)
        else none

end SchedulingNoise.Binary64
