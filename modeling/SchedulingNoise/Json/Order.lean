import SchedulingNoise.Json.Value
import SchedulingNoise.Number.Quantity

/-! Comparing values. Numbers and truth values, which count as one and zero, compare with each
other, texts with texts, and lists item by item with lists; nothing else can be compared. -/
namespace SchedulingNoise.Json

def number? : Json → Option Quantity
  | .bool b => some (.whole (if b then 1 else 0))
  | .int n => some (.whole n)
  | .float x => some (.double x)
  | _ => none

def sameScalar : Json → Json → Bool
  | .null, .null => true
  | .str s, .str t => s == t
  | v, w =>
    match v.number?, w.number? with
    | some p, some q => p.same q
    | _, _ => false

mutual

/-- Are two values equal? The order of an object's members does not matter. -/
def same : Json → Json → Bool
  | .list items, w =>
    match w with
    | .list others => sameItems items others
    | _ => false
  | .object members, w =>
    match w with
    | .object others => members.length == others.length && sameMembers members others
    | _ => false
  | v, w => sameScalar v w

def sameItems : List Json → List Json → Bool
  | [], others => others.isEmpty
  | _ :: _, [] => false
  | v :: rest, w :: others => same v w && sameItems rest others

def sameMembers : List (RawText × Json) → Members → Bool
  | [], _ => true
  | (k, v) :: rest, others =>
    (match others.find? (·.1 = k) with
      | some (_, w) => same v w
      | none => false) && sameMembers rest others

end

def aboveScalar : Json → Json → Except Fault Bool
  | .str s, .str t => .ok (RawText.lt t s)
  | v, w =>
    match v.number?, w.number? with
    | some p, some q => .ok (q.lt p)
    | _, _ => .error .wrongType

mutual

/-- Is the first value above the second? The first items of two lists that differ decide, and a
proper beginning is below. -/
def above : Json → Json → Except Fault Bool
  | .list items, w =>
    match w with
    | .list others => aboveItems items others
    | _ => .error .wrongType
  | v, w => aboveScalar v w

def aboveItems : List Json → List Json → Except Fault Bool
  | [], _ => .ok false
  | _ :: _, [] => .ok true
  | v :: rest, w :: others => if same v w then aboveItems rest others else above v w

end

def difference (v w : Json) : Except Fault Text :=
  match v.number?, w.number? with
  | some p, some q => do (← p.minus q).write
  | _, _ => .error .wrongType

mutual

/-- Can a value be written? None of its integers may have too many digits. -/
def short : Json → Bool
  | .int n => Decimal.isShort n
  | .list items => shortItems items
  | .object members => shortMembers members
  | _ => true

def shortItems : List Json → Bool
  | [] => true
  | v :: rest => short v && shortItems rest

def shortMembers : List (RawText × Json) → Bool
  | [] => true
  | m :: rest => short m.2 && shortMembers rest

end

instance : Amount Json where
  ofInt := .int
  text := plain
  short := short
  above := above
  difference := difference

end SchedulingNoise.Json
