import SchedulingNoise.Text.Basic

namespace SchedulingNoise.Decimal

def digitLimit : Nat := 4300

def ofNat (n : Nat) : Text := Nat.toDigits 10 n

def ofInt (n : Int) : Text := if n < 0 then '-' :: ofNat n.natAbs else ofNat n.natAbs

def isShort (n : Int) : Bool := (ofNat n.natAbs).length ≤ digitLimit

def write? (n : Int) : Option Text := if isShort n then some (ofInt n) else none

def value (digits : Text) : Nat := digits.foldl (fun n c => 10 * n + (c.toNat - 48)) 0

/-- Reads ASCII digits, unless there are too many; the error is how many. -/
def read (digits : Text) : Except Nat Nat :=
  if digitLimit < digits.length then .error digits.length else .ok (value digits)

def isSpace (c : Char) : Bool := Text.isBlank c && !(0x1C ≤ c.toNat && c.toNat ≤ 0x1F)

def digitValues? : Text → Option (List Nat)
  | [] => none
  | [c] => (Text.digitValue? c).map ([·])
  | c :: '_' :: rest => do
    let d ← Text.digitValue? c
    let ds ← digitValues? rest
    pure (d :: ds)
  | c :: rest => do
    let d ← Text.digitValue? c
    let ds ← digitValues? rest
    pure (d :: ds)

def unsigned? (t : Text) : Option Nat := do
  let ds ← digitValues? t
  if digitLimit < ds.length then none else some (ds.foldl (fun n d => 10 * n + d) 0)

/-- Reads an integer as people type it: white space around it, one sign, digits of any script,
single underscores between digits. -/
def parse? (t : Text) : Option Int :=
  match Text.trimBy isSpace t with
  | '-' :: rest => (unsigned? rest).map fun n => -(n : Int)
  | '+' :: rest => (unsigned? rest).map fun n => (n : Int)
  | rest => (unsigned? rest).map fun n => (n : Int)

end SchedulingNoise.Decimal
