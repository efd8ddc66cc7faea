import SchedulingNoise.Number.Shortest
import SchedulingNoise.Text.Quoted

namespace SchedulingNoise

inductive CodePoint
  | char (c : Char)
  /-- Half of a pair, without the other half. -/
  | half (unit : Nat)
deriving DecidableEq, Repr

abbrev RawText := List CodePoint

namespace CodePoint

def number : CodePoint → Nat
  | .char c => c.toNat
  | .half n => n

/-- A half becomes the null character, which no name on a disk holds. -/
def toChar : CodePoint → Char
  | .char c => c
  | .half _ => Char.ofNat 0

def quoted (q : Char) : CodePoint → Text
  | .char c => Text.quotedChar q c
  | .half n => '\\' :: 'u' :: Text.hex 4 n

end CodePoint

namespace RawText

def ofText (t : Text) : RawText := t.map .char

def toText (t : RawText) : Text := t.map CodePoint.toChar

def quoted (t : RawText) : Text :=
  let q := Text.quoteFor (toText t)
  q :: t.flatMap (CodePoint.quoted q) ++ [q]

def lt : RawText → RawText → Bool
  | [], [] => false
  | [], _ :: _ => true
  | _ :: _, [] => false
  | a :: s, b :: t => a.number < b.number || (a.number == b.number && lt s t)

end RawText

inductive Json
  | null
  | bool (b : Bool)
  | int (n : Int)
  | float (x : Binary64)
  | str (t : RawText)
  | list (items : List Json)
  | object (members : List (RawText × Json))
deriving Repr, Inhabited

/-- Members of an object, each name once, in the order of their first setting. -/
abbrev Members := List (RawText × Json)

namespace Members

def get? (ms : Members) (name : Text) : Option Json :=
  (ms.find? (·.1 = RawText.ofText name)).map (·.2)

def has (ms : Members) (name : Text) : Bool := (get? ms name).isSome

/-- Sets a member: in its place if the name is there, else at the end. -/
def set : Members → RawText → Json → Members
  | [], name, v => [(name, v)]
  | (k, old) :: rest, name, v =>
    if k = name then (k, v) :: rest else (k, old) :: set rest name v

def update (ms new : Members) : Members := new.foldl (fun acc m => set acc m.1 m.2) ms

end Members

namespace Json

def text (t : Text) : Json := .str (.ofText t)

def named (name : Text) (v : Json) : RawText × Json := (.ofText name, v)

def typeName : Json → String
  | .null => "NoneType"
  | .bool _ => "bool"
  | .int _ => "int"
  | .float _ => "float"
  | .str _ => "str"
  | .list _ => "list"
  | .object _ => "dict"

def truthy : Json → Bool
  | .null => false
  | .bool b => b
  | .int n => n ≠ 0
  | .float (.finite _ m _) => m ≠ 0
  | .float _ => true
  | .str t => !t.isEmpty
  | .list items => !items.isEmpty
  | .object members => !members.isEmpty

mutual

def shown : Json → Text
  | .null => "None".toList
  | .bool b => if b then "True".toList else "False".toList
  | .int n => Decimal.ofInt n
  | .float x => x.text
  | .str t => t.quoted
  | .list items => '[' :: shownItems items ++ [']']
  | .object members => '\x7b' :: shownMembers members ++ ['\x7d']

def shownItems : List Json → Text
  | [] => []
  | [v] => shown v
  | v :: rest => shown v ++ ", ".toList ++ shownItems rest

def shownMembers : List (RawText × Json) → Text
  | [] => []
  | [(k, v)] => k.quoted ++ ": ".toList ++ shown v
  | (k, v) :: rest => k.quoted ++ ": ".toList ++ shown v ++ ", ".toList ++ shownMembers rest

end

def plain : Json → Text
  | .str t => t.toText
  | v => v.shown

end Json

end SchedulingNoise
