import SchedulingNoise.Text.Basic

namespace SchedulingNoise

inductive GlobPart
  | star
  | any
  | char (c : Char)
  | oneOf (negated : Bool) (ranges : List (Char × Char))
deriving DecidableEq, Repr

namespace Glob

def accepts : GlobPart → Char → Bool
  | .star, _ => false
  | .any, _ => true
  | .char d, c => d = c
  | .oneOf negated ranges, c => negated != ranges.any fun r => r.1 ≤ c && c ≤ r.2

/-- Splits a class at the hyphens that make ranges. The first `lead` characters are passed over,
and two behind each such hyphen: the end of its range and what may start the next one. -/
def pieces : (lead : Nat) → Text → List Text
  | _, [] => [[]]
  | lead, c :: t =>
    if lead = 0 && c = '-' then [] :: pieces 2 t
    else match pieces (lead - 1) t with
      | p :: ps => (c :: p) :: ps
      | [] => [[c]]

def closeLast : List Text → List Text
  | [p, []] => [p ++ ['-']]
  | p :: ps => p :: closeLast ps
  | [] => []

def backwards (p q : Text) : Bool :=
  match p.getLast?, q.head? with
  | some a, some b => b < a
  | _, _ => false

/-- Takes out the ranges that run backwards, from the last to the first. The pieces at both sides
grow together. -/
def forwardOnly : List Text → List Text
  | [] => []
  | p :: ps =>
    match forwardOnly ps with
    | q :: qs => if backwards p q then (p.dropLast ++ q.tail) :: qs else p :: q :: qs
    | [] => [p]

def ranges : List Text → List (Char × Char)
  | [] => []
  | p :: ps =>
    let between := match p.getLast?, ps.head?.bind List.head? with
      | some a, some b => [(a, b)]
      | _, _ => []
    p.map (fun c => (c, c)) ++ between ++ ranges ps

/-- The class of a text. An exclamation mark turns it round if it comes first after backward
ranges are out, and a hyphen right behind the mark makes no range. -/
def classOf (t : Text) : GlobPart :=
  let lead := if t.head? = some '!' then 2 else 1
  match forwardOnly (closeLast (pieces lead t)) with
  | ['!'] :: q :: qs => .oneOf true (ranges (('-' :: q) :: qs))
  | ('!' :: p) :: ps => .oneOf true (ranges (p :: ps))
  | ps => .oneOf false (ranges ps)

/-- The text of a class up to its closing bracket. A bracket that comes first belongs to it. -/
def classText? (t : Text) : Option (Text × Text) :=
  match t with
  | ']' :: rest => (Text.partition? ']' rest).map fun p => (']' :: p.1, p.2)
  | t => Text.partition? ']' t

def readClass? (t : Text) : Option (GlobPart × Text) :=
  let inner : Option (Text × Text) := match t with
    | '!' :: rest => (classText? rest).map fun p => ('!' :: p.1, p.2)
    | t => classText? t
  inner.map fun p => (classOf p.1, p.2)

def readParts : Nat → Text → List GlobPart
  | 0, _ => []
  | _ + 1, [] => []
  | fuel + 1, c :: rest =>
    if c = '*' then .star :: readParts fuel rest
    else if c = '?' then .any :: readParts fuel rest
    else if c = '[' then
      match readClass? rest with
      | some (p, rest) => p :: readParts fuel rest
      | none => .char c :: readParts fuel rest
    else .char c :: readParts fuel rest

def ofText (t : Text) : List GlobPart := readParts t.length t

def anyEnd (fits : Text → Bool) : Text → Bool
  | [] => fits []
  | c :: t => fits (c :: t) || anyEnd fits t

def fits : List GlobPart → Text → Bool
  | [], t => t.isEmpty
  | .star :: ps, t => anyEnd (fits ps) t
  | _ :: _, [] => false
  | p :: ps, c :: t => accepts p c && fits ps t

def hasMagic (t : Text) : Bool := t.any fun c => c = '*' || c = '?' || c = '['

end Glob

end SchedulingNoise
