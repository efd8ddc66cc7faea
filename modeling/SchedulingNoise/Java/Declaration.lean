import SchedulingNoise.Text.Basic
import SchedulingNoise.Text.Word

namespace SchedulingNoise.Java

def repeated (step : Text → Option Text) : Nat → Text → Text
  | 0, t => t
  | fuel + 1, t =>
    match step t with
    | none => t
    | some rest => repeated step fuel rest

def skipIndent (t : Text) : Text := t.dropWhile fun c => c = ' ' || c = '\t'

def isNameChar (c : Char) : Bool := Text.isWord c || c = '.'

def afterName? (t : Text) : Option Text :=
  match t with
  | c :: rest => if isNameChar c then some (rest.dropWhile isNameChar) else none
  | [] => none

def afterEnd? (t : Text) : Option Text := Text.after? [';'] (Text.skipBlanks t)

def afterPackage? (t : Text) : Option Text := do
  let t ← Text.after? "package".toList (skipIndent t)
  let t ← Text.skipBlanks1? t
  let t ← afterName? t
  afterEnd? t

/-- The text behind an imported name and its semicolon. A star may take the place behind the
last dot. -/
def afterImported? (t : Text) : Option Text := do
  let rest ← afterName? t
  let name := t.take (t.length - rest.length)
  match afterEnd? rest with
  | some rest => pure rest
  | none =>
    if name.getLast? = some '.' ∧ 1 < name.length then
      let rest ← Text.after? ['*'] rest
      afterEnd? rest
    else none

def afterImport? (t : Text) : Option Text := do
  let t ← Text.after? "import".toList (skipIndent t)
  let t ← Text.skipBlanks1? t
  let static := do
    let t ← Text.after? "static".toList t
    let t ← Text.skipBlanks1? t
    afterImported? t
  match static with
  | some rest => pure rest
  | none => afterImported? t

def statement (after : Text → Option Text) : Matcher Unit :=
  .atLineStart fun t => (after t).map fun rest => (t.length - rest.length, ())

def packageStatement : Matcher Unit := statement afterPackage?

def importStatement : Matcher Unit := statement afterImport?

inductive TypeKind
  | ordinary
  | interface
  | enum
  | record
deriving DecidableEq, Repr

structure TypeHead where
  kind : TypeKind
  name : Text
deriving DecidableEq, Repr

def afterAttribute? : Text → Option Text
  | '@' :: t => do
    let t ← afterName? t
    match Text.skipBlanks t with
    | '(' :: rest => do
      let (_, rest) ← Text.partition? ')' rest
      Text.skipBlanks1? rest
    | _ => Text.skipBlanks1? t
  | _ => none

def modifiers : List Text :=
  ["public", "protected", "private", "abstract", "final", "static", "strictfp", "sealed",
    "non-sealed"].map String.toList

def afterWord? (w t : Text) : Option Text := do
  let t ← Text.after? w t
  Text.skipBlanks1? t

def afterModifier? (t : Text) : Option Text := modifiers.findSome? fun w => afterWord? w t

def typeKinds : List (Text × TypeKind) :=
  [("class".toList, .ordinary), ("interface".toList, .interface), ("enum".toList, .enum),
    ("record".toList, .record)]

def afterTypeKind? (t : Text) : Option (TypeKind × Text) :=
  typeKinds.findSome? fun (w, k) => (afterWord? w t).map fun rest => (k, rest)

def typeHead? (t : Text) : Option (TypeHead × Text) := do
  let t := skipIndent t
  let t := repeated afterAttribute? t.length t
  let t := repeated afterModifier? t.length t
  let (kind, t) ← afterTypeKind? t
  let name := t.takeWhile Text.isWord
  if name.isEmpty then none
  else match (t.dropWhile Text.isWord).dropWhile fun c => c ≠ '\x7b' && c ≠ ';' with
    | '\x7b' :: rest => pure (⟨kind, name⟩, rest)
    | _ => none

def typeDeclaration : Matcher TypeHead :=
  .atLineStart fun t => (typeHead? t).map fun (h, rest) => (t.length - rest.length, h)

def firstType? (t : Text) : Option (Match TypeHead) := typeDeclaration.first t

def header? (t : Text) : Option Text := (firstType? t).map fun m => t.take m.start

def isTypeChar (c : Char) : Bool :=
  Text.isWord c || c = '<' || c = '>' || c = '[' || c = ']' || c = ',' || c = '.' || c = '?'

/-- The first word that stands in front of a parenthesis, after any number of type words. -/
def methodName? : Nat → Text → Option (Text × Text)
  | 0, _ => none
  | fuel + 1, t =>
    let name := t.takeWhile Text.isWord
    let next := do
      if t.takeWhile isTypeChar = [] then none
      let rest ← Text.skipBlanks1? (t.dropWhile isTypeChar)
      methodName? fuel rest
    match Text.skipBlanks (t.dropWhile Text.isWord) with
    | '(' :: rest => if name.isEmpty then next else some (name, rest)
    | _ => next

/-- A synchronized method; the modifier must not be the end of a longer word. -/
def synchronizedMethod : Matcher Text := fun before t => do
  if before.any Text.isWord then none
  let rest ← Text.after? "synchronized".toList t
  let rest ← Text.skipBlanks1? rest
  let (name, rest) ← methodName? rest.length rest
  pure (t.length - rest.length, name)

def reserved : List Text :=
  ["if", "for", "while", "switch", "catch", "synchronized", "return", "new"].map String.toList

def synchronizedMethods (t : Text) : List Text :=
  ((synchronizedMethod.all t).map (·.value)).filter fun n => !reserved.elem n

end SchedulingNoise.Java
