import SchedulingNoise.Text.Quoted

/-! Paths are an anchor and a list of names. Reading a path drops empty names and single dots;
a pair of dots stays. -/
namespace SchedulingNoise

/-- Where a path starts: at the working folder, at the root, or at the root spelled with exactly
two slashes. -/
inductive Anchor
  | relative
  | root
  | doubleRoot
deriving DecidableEq, Repr

structure Path where
  anchor : Anchor
  parts : List Text
deriving DecidableEq, Repr

namespace Path

def anchorOf : Text → Anchor
  | '/' :: '/' :: '/' :: _ => .root
  | '/' :: '/' :: _ => .doubleRoot
  | '/' :: _ => .root
  | _ => .relative

def names (t : Text) : List Text :=
  (Text.splitOn ['/'] t).filter fun n => !n.isEmpty && n ≠ ['.']

def ofText (t : Text) : Path := ⟨anchorOf t, names t⟩

def anchorText : Anchor → Text
  | .relative => []
  | .root => ['/']
  | .doubleRoot => ['/', '/']

def text (p : Path) : Text :=
  match anchorText p.anchor ++ Text.join ['/'] p.parts with
  | [] => ['.']
  | t => t

def str (p : Path) : String := Text.str p.text

instance : ToString Path := ⟨str⟩

def name (p : Path) : Text := p.parts.getLast?.getD []

/-- The extension of a name from its last dot on. A dot at either end of the name starts none. -/
def suffixOf (name : Text) : Text :=
  let ending := name.reverse.takeWhile (· ≠ '.')
  if ending.isEmpty || name.length ≤ ending.length + 1 then [] else '.' :: ending.reverse

def suffix (p : Path) : Text := suffixOf p.name

def parent (p : Path) : Path := ⟨p.anchor, p.parts.dropLast⟩

def child (p : Path) (name : Text) : Path := ⟨p.anchor, p.parts ++ [name]⟩

/-- The names that the path's text spells. A last name that was put in by itself may hold slashes
and single dots. -/
def steps (p : Path) : List Text :=
  p.parts.flatMap fun n => (Text.splitOn ['/'] n).filter (!·.isEmpty)

def isAbsolute (p : Path) : Bool := p.anchor ≠ .relative

/-- The second path seen from the first, unless it is absolute. -/
def join (p q : Path) : Path := if q.isAbsolute then q else ⟨p.anchor, p.parts ++ q.parts⟩

def sortKey (p : Path) : List Text :=
  match anchorText p.anchor with
  | [] => p.parts
  | a => a :: p.parts

def namesLe : List Text → List Text → Bool
  | [], _ => true
  | _ :: _, [] => false
  | a :: s, b :: t => Text.lt a b || (a == b && namesLe s t)

def le (p q : Path) : Bool := namesLe p.sortKey q.sortKey

end Path

end SchedulingNoise
