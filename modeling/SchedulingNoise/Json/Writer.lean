import SchedulingNoise.Json.Value

namespace SchedulingNoise.Json

def escapeUnit (n : Nat) : Text := '\\' :: 'u' :: Text.hex 4 n

def escapeChar (c : Char) : Text :=
  if c = '"' then ['\\', '"']
  else if c = '\\' then ['\\', '\\']
  else if c = '\n' then ['\\', 'n']
  else if c = '\r' then ['\\', 'r']
  else if c = '\t' then ['\\', 't']
  else if c = '\x0c' then ['\\', 'f']
  else if c = '\x08' then ['\\', 'b']
  else if 0x20 ≤ c.toNat && c.toNat < 0x7F then [c]
  else if c.toNat < 0x10000 then escapeUnit c.toNat
  else
    let n := c.toNat - 0x10000
    escapeUnit (0xD800 + n / 0x400) ++ escapeUnit (0xDC00 + n % 0x400)

def escape : CodePoint → Text
  | .char c => escapeChar c
  | .half n => escapeUnit n

def writeText (t : RawText) : Text := '"' :: t.flatMap escape ++ ['"']

def writeFloat : Binary64 → Text
  | .notANumber => "NaN".toList
  | .infinite s => if s then "-Infinity".toList else "Infinity".toList
  | x => x.text

def writeScalar : Json → Text
  | .null => "null".toList
  | .bool b => if b then "true".toList else "false".toList
  | .int n => Decimal.ofInt n
  | .float x => writeFloat x
  | .str t => writeText t
  | _ => []

mutual

def write : Json → Text
  | .list items => '[' :: writeItems items ++ [']']
  | .object members => '\x7b' :: writeMembers members ++ ['\x7d']
  | v => writeScalar v

def writeItems : List Json → Text
  | [] => []
  | [v] => write v
  | v :: rest => write v ++ ", ".toList ++ writeItems rest

def writeMembers : List (RawText × Json) → Text
  | [] => []
  | [(k, v)] => writeText k ++ ": ".toList ++ write v
  | (k, v) :: rest => writeText k ++ ": ".toList ++ write v ++ ", ".toList ++ writeMembers rest

end

def newLine (depth : Nat) : Text := '\n' :: List.replicate (4 * depth) ' '

mutual

def indentedAt (depth : Nat) : Json → Text
  | .list [] => "[]".toList
  | .list (v :: rest) =>
    '[' :: newLine (depth + 1) ++ indentedAt (depth + 1) v ++ indentedItems (depth + 1) rest ++
      newLine depth ++ [']']
  | .object [] => ['\x7b', '\x7d']
  | .object ((k, v) :: rest) =>
    '\x7b' :: newLine (depth + 1) ++ writeText k ++ ": ".toList ++ indentedAt (depth + 1) v ++
      indentedMembers (depth + 1) rest ++ newLine depth ++ ['\x7d']
  | v => writeScalar v

def indentedItems (depth : Nat) : List Json → Text
  | [] => []
  | v :: rest => ',' :: newLine depth ++ indentedAt depth v ++ indentedItems depth rest

def indentedMembers (depth : Nat) : List (RawText × Json) → Text
  | [] => []
  | (k, v) :: rest =>
    ',' :: newLine depth ++ writeText k ++ ": ".toList ++ indentedAt depth v ++
      indentedMembers depth rest

end

def indented (v : Json) : Text := indentedAt 0 v

end SchedulingNoise.Json
