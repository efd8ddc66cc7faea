import SchedulingNoise.Fault
import SchedulingNoise.Json.Value

/-! Reading JSON text. Besides the standard's values, `NaN` and the two infinities are read; of
two members with one name the later value stays, in the earlier place. A refusal names the
problem and the offset of the character where it shows. -/
namespace SchedulingNoise.Json

inductive Problem
  | value
  | name
  | colon
  | comma
  | extra
  | unterminated
  | badEscape
  | unicodeEscape
  | control
  | byteOrderMark
deriving DecidableEq, Repr

def Problem.text : Problem → String
  | .value => "Expecting value"
  | .name => "Expecting property name enclosed in double quotes"
  | .colon => "Expecting ':' delimiter"
  | .comma => "Expecting ',' delimiter"
  | .extra => "Extra data"
  | .unterminated => "Unterminated string starting at"
  | .badEscape => "Invalid \\escape"
  | .unicodeEscape => "Invalid \\uXXXX escape"
  | .control => "Invalid control character at"
  | .byteOrderMark => "Unexpected UTF-8 BOM (decode using utf-8-sig)"

/-- Why a text was not read. While reading, `place` counts the characters from the problem to the
end of the text; in the answer of `read` it is the offset of the problem. -/
inductive Refusal
  | malformed (problem : Problem) (place : Nat)
  | digitLimit (digits : Nat)
  | tooDeep (nest : Nest)
deriving DecidableEq, Repr

/-- How deep lists and objects may be nested. How deep the caller stands in calls of its own counts
against it, but a configuration always fits. -/
structure Levels where
  most : Nat
  enough : 2 ≤ most

def Levels.usual : Levels := ⟨985, by decide⟩

def fail (problem : Problem) (rest : Text) : Except Refusal α :=
  .error (.malformed problem rest.length)

def isGap (c : Char) : Bool := c = ' ' || c = '\t' || c = '\n' || c = '\r'

def skipGap (t : Text) : Text := t.dropWhile isGap

def hexDigit? (c : Char) : Option Nat :=
  if '0' ≤ c ∧ c ≤ '9' then some (c.toNat - 48)
  else if 'a' ≤ c ∧ c ≤ 'f' then some (c.toNat - 87)
  else if 'A' ≤ c ∧ c ≤ 'F' then some (c.toNat - 55)
  else none

/-- Four hexadecimal digits, with at least one more character behind them. -/
def hexUnit? : Text → Option (Nat × Text)
  | a :: b :: c :: d :: e :: rest => do
    let a ← hexDigit? a
    let b ← hexDigit? b
    let c ← hexDigit? c
    let d ← hexDigit? d
    pure (((a * 16 + b) * 16 + c) * 16 + d, e :: rest)
  | _ => none

def escaped? (c : Char) : Option Char :=
  if c = '"' then some '"'
  else if c = '\\' then some '\\'
  else if c = '/' then some '/'
  else if c = 'b' then some '\x08'
  else if c = 'f' then some '\x0c'
  else if c = 'n' then some '\n'
  else if c = 'r' then some '\r'
  else if c = 't' then some '\t'
  else none

def isHigh (n : Nat) : Bool := 0xD800 ≤ n && n ≤ 0xDBFF

def isLow (n : Nat) : Bool := 0xDC00 ≤ n && n ≤ 0xDFFF

def ofUnit (n : Nat) : CodePoint := if isHigh n || isLow n then .half n else .char (Char.ofNat n)

def pairChar (high low : Nat) : Char :=
  Char.ofNat (0x10000 + (high - 0xD800) * 0x400 + (low - 0xDC00))

def unicodeEscape (t : Text) : Except Refusal (CodePoint × Text) :=
  match hexUnit? t with
  | none => .error (.malformed .unicodeEscape (t.length + 1))
  | some (n, rest) =>
    match isHigh n, rest with
    | true, '\\' :: 'u' :: more =>
      if more.length ≤ 4 then .ok (ofUnit n, rest)
      else match hexUnit? more with
        | none => .error (.malformed .unicodeEscape (more.length + 1))
        | some (low, behind) =>
          if isLow low then .ok (.char (pairChar n low), behind) else .ok (ofUnit n, rest)
    | _, _ => .ok (ofUnit n, rest)

/-- The characters of a text up to its closing quote. `start` is the place of the opening one. -/
def readChars (start : Nat) : Nat → Text → Except Refusal (RawText × Text)
  | 0, _ => .error (.malformed .unterminated start)
  | _ + 1, [] => .error (.malformed .unterminated start)
  | fuel + 1, c :: rest =>
    if c = '"' then .ok ([], rest)
    else if c = '\\' then
      match rest with
      | [] => .error (.malformed .unterminated start)
      | 'u' :: more => do
        let (d, behind) ← unicodeEscape more
        let (ds, rest) ← readChars start fuel behind
        pure (d :: ds, rest)
      | e :: more =>
        match escaped? e with
        | none => fail .badEscape (c :: rest)
        | some d => do
          let (ds, rest) ← readChars start fuel more
          pure (.char d :: ds, rest)
    else if c.toNat ≤ 0x1F then fail .control (c :: rest)
    else do
      let (ds, rest) ← readChars start fuel rest
      pure (.char c :: ds, rest)

def readText (t : Text) : Except Refusal (RawText × Text) :=
  readChars (t.length + 1) (t.length + 1) t

def exponent? : Text → Option (Int × Text)
  | c :: rest =>
    if c = 'e' || c = 'E' then
      let (negative, body) := match rest with
        | '-' :: more => (true, more)
        | '+' :: more => (false, more)
        | more => (false, more)
      let digits := body.takeWhile Char.isDigit
      if digits.isEmpty then none
      else
        let n : Int := Decimal.value digits
        some (if negative then -n else n, body.dropWhile Char.isDigit)
    else none
  | [] => none

def fraction? : Text → Option (Text × Text)
  | '.' :: rest =>
    let digits := rest.takeWhile Char.isDigit
    if digits.isEmpty then none else some (digits, rest.dropWhile Char.isDigit)
  | _ => none

def wholeDigits? : Text → Option (Text × Text)
  | '0' :: rest => some (['0'], rest)
  | t =>
    let digits := t.takeWhile Char.isDigit
    if digits.isEmpty then none else some (digits, t.dropWhile Char.isDigit)

def readNumber (t : Text) : Except Refusal (Json × Text) :=
  let (negative, body) := match t with
    | '-' :: rest => (true, rest)
    | rest => (false, rest)
  match wholeDigits? body with
  | none => fail .value t
  | some (whole, rest) =>
    let part := fraction? rest
    let rest := (part.map (·.2)).getD rest
    let power := exponent? rest
    match part, power with
    | none, none =>
      match Decimal.read whole with
      | .error n => .error (.digitLimit n)
      | .ok n => .ok (.int (if negative then -(n : Int) else n), rest)
    | _, _ =>
      let digits := whole ++ (part.map (·.1)).getD []
      let shift : Int := ((part.map (·.1)).getD []).length
      let (x, rest) := power.getD (0, rest)
      .ok (.float (.ofDecimal negative (Decimal.value digits) (x - shift)), rest)

def words : List (Text × Json) :=
  [("null".toList, .null), ("true".toList, .bool true), ("false".toList, .bool false),
    ("NaN".toList, .float .notANumber), ("Infinity".toList, .float (.infinite false)),
    ("-Infinity".toList, .float (.infinite true))]

def readScalar (t : Text) : Except Refusal (Json × Text) :=
  match words.find? fun w => w.1.isPrefixOf t with
  | some (w, v) => .ok (v, t.drop w.length)
  | none => readNumber t

section Values

variable (most : Nat)

mutual

/-- One value. The depth counts the lists and objects that are still open. -/
def readValue : (fuel depth : Nat) → Text → Except Refusal (Json × Text)
  | 0, _, t => fail .value t
  | _ + 1, _, [] => fail .value []
  | fuel + 1, depth, c :: rest =>
    if c = '"' then do
      let (t, rest) ← readText rest
      pure (.str t, rest)
    else if c = '[' then
      if most ≤ depth then .error (.tooDeep .list)
      else match skipGap rest with
        | ']' :: rest => .ok (.list [], rest)
        | rest => do
          let (items, rest) ← readItems fuel (depth + 1) rest
          pure (.list items, rest)
    else if c = '\x7b' then
      if most ≤ depth then .error (.tooDeep .object)
      else match skipGap rest with
        | '\x7d' :: rest => .ok (.object [], rest)
        | rest => do
          let (members, rest) ← readMembers fuel (depth + 1) rest
          pure (.object (Members.update [] members), rest)
    else readScalar (c :: rest)

def readItems : (fuel depth : Nat) → Text → Except Refusal (List Json × Text)
  | 0, _, t => fail .value t
  | fuel + 1, depth, t => do
    let (v, rest) ← readValue fuel depth t
    match skipGap rest with
    | ']' :: rest => pure ([v], rest)
    | ',' :: rest => do
      let (vs, rest) ← readItems fuel depth (skipGap rest)
      pure (v :: vs, rest)
    | rest => fail .comma rest

def readMembers : (fuel depth : Nat) → Text → Except Refusal (List (RawText × Json) × Text)
  | 0, _, t => fail .name t
  | fuel + 1, depth, '"' :: t => do
    let (k, rest) ← readText t
    match skipGap rest with
    | ':' :: rest => do
      let (v, rest) ← readValue fuel depth (skipGap rest)
      match skipGap rest with
      | '\x7d' :: rest => pure ([(k, v)], rest)
      | ',' :: rest => do
        let (ms, rest) ← readMembers fuel depth (skipGap rest)
        pure ((k, v) :: ms, rest)
      | rest => fail .comma rest
    | rest => fail .colon rest
  | _ + 1, _, t => fail .name t

end

def readWhole (t : Text) : Except Refusal Json :=
  if t.head? = some (Char.ofNat 0xFEFF) then fail .byteOrderMark t
  else do
    let (v, rest) ← readValue most (2 * t.length + 2) 0 (skipGap t)
    match skipGap rest with
    | [] => pure v
    | rest => fail .extra rest

end Values

def read (t : Text) (levels : Levels := .usual) : Except Refusal Json :=
  match readWhole levels.most t with
  | .error (.malformed problem left) => .error (.malformed problem (t.length - left))
  | answer => answer

def lineColumn (t : Text) (offset : Nat) : Nat × Nat :=
  let before := t.take offset
  (before.count '\n' + 1, (before.reverse.takeWhile (· ≠ '\n')).length + 1)

end SchedulingNoise.Json
