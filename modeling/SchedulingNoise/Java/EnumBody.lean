import SchedulingNoise.Fault

/-! The end of the constants of an enum. Members may only follow the constants, so that is where
a field goes. Comments and literals are passed over, and brackets are counted. -/
namespace SchedulingNoise.Java

inductive Zone
  | code
  | lineComment
  | blockComment
  | literal (quote : Char)
deriving DecidableEq, Repr

/-- Where the constants end, and whether a semicolon is missing there. -/
structure ConstantsEnd where
  offset : Nat
  unterminated : Bool
deriving DecidableEq, Repr

def ConstantsEnd.pair (e : ConstantsEnd) : Int × Bool := (e.offset, e.unterminated)

def isOpener (c : Char) : Bool := c = '(' || c = '[' || c = '\x7b'

def isCloser (c : Char) : Bool := c = ')' || c = ']' || c = '\x7d'

/-- Walks on from the offset `pos`. `skip` counts characters to pass without a look, `depth` the
open brackets. -/
def constantsEndFrom (total : Nat) :
    (pos skip depth : Nat) → Zone → Text → ConstantsEnd
  | _, _, _, _, [] => ⟨total, true⟩
  | pos, skip + 1, depth, zone, _ :: rest =>
    constantsEndFrom total (pos + 1) skip depth zone rest
  | pos, 0, depth, .code, c :: rest =>
    if c = '/' ∧ rest.head? = some '/' then
      constantsEndFrom total (pos + 1) 1 depth .lineComment rest
    else if c = '/' ∧ rest.head? = some '*' then
      constantsEndFrom total (pos + 1) 1 depth .blockComment rest
    else if c = '"' ∨ c = '\'' then constantsEndFrom total (pos + 1) 0 depth (.literal c) rest
    else if isOpener c then constantsEndFrom total (pos + 1) 0 (depth + 1) .code rest
    else if isCloser c then
      match depth with
      | 0 => ⟨pos, true⟩
      | depth + 1 => constantsEndFrom total (pos + 1) 0 depth .code rest
    else if c = ';' ∧ depth = 0 then ⟨pos + 1, false⟩
    else constantsEndFrom total (pos + 1) 0 depth .code rest
  | pos, 0, depth, .lineComment, c :: rest =>
    constantsEndFrom total (pos + 1) 0 depth (if c = '\n' then .code else .lineComment) rest
  | pos, 0, depth, .blockComment, c :: rest =>
    if c = '*' ∧ rest.head? = some '/' then constantsEndFrom total (pos + 1) 1 depth .code rest
    else constantsEndFrom total (pos + 1) 0 depth .blockComment rest
  | pos, 0, depth, .literal q, c :: rest =>
    if c = q then constantsEndFrom total (pos + 1) 0 depth .code rest
    else constantsEndFrom total (pos + 1) (if c = '\\' then 1 else 0) depth (.literal q) rest

def constantsEnd (t : Text) (start : Nat) : ConstantsEnd :=
  constantsEndFrom t.length start 0 0 .code (t.drop start)

/-! A negative start counts from the end. The walk then goes through the end of the text and on
from its beginning; a comment that it meets before the end is passed without going round. -/

/-- Walks on from the negative offset `pos` through the end `rest` of the text `t`. -/
def constantsEndRound (t : Text) :
    (pos : Int) → (skip depth : Nat) → (quote : Option Char) → (rest : Text) → Int × Bool
  | _, skip, depth, quote, [] =>
    let zone := match quote with
      | none => .code
      | some q => .literal q
    (constantsEndFrom t.length 0 skip depth zone t).pair
  | pos, skip + 1, depth, quote, _ :: rest => constantsEndRound t (pos + 1) skip depth quote rest
  | pos, 0, depth, some q, c :: rest =>
    if c = q then constantsEndRound t (pos + 1) 0 depth none rest
    else constantsEndRound t (pos + 1) (if c = '\\' then 1 else 0) depth (some q) rest
  | pos, 0, depth, none, c :: rest =>
    let here := t.length - rest.length
    if c = '/' ∧ rest.head? = some '/' then
      (constantsEndFrom t.length here 1 depth .lineComment rest).pair
    else if c = '/' ∧ rest = ['*'] then (constantsEndFrom t.length 0 0 depth .blockComment t).pair
    else if c = '/' ∧ rest.head? = some '*' then
      (constantsEndFrom t.length here 1 depth .blockComment rest).pair
    else if c = '"' ∨ c = '\'' then constantsEndRound t (pos + 1) 0 depth (some c) rest
    else if isOpener c then constantsEndRound t (pos + 1) 0 (depth + 1) none rest
    else if isCloser c then
      match depth with
      | 0 => (pos, true)
      | depth + 1 => constantsEndRound t (pos + 1) 0 depth none rest
    else if c = ';' ∧ depth = 0 then (pos + 1, false)
    else constantsEndRound t (pos + 1) 0 depth none rest

def constantsEndAt (t : Text) (start : Int) : Except Fault (Int × Bool) :=
  if 0 ≤ start then .ok (constantsEnd t start.toNat).pair
  else if t.length < start.natAbs then .error .outOfRange
  else .ok (constantsEndRound t start 0 0 none (t.drop (t.length - start.natAbs)))

end SchedulingNoise.Java
