import SchedulingNoise.Fault
import SchedulingNoise.Text.Basic

/-! Coloured output, and a terminal without colours. Such a terminal takes control codes out again:
first the commands to the window, then the codes for colours and the cursor. A control character
that marks a code as invisible goes with it. A run may be given another terminal. -/
namespace SchedulingNoise

inductive Colour
  | red
  | green
  | yellow
  | cyan
deriving DecidableEq, Repr

namespace Style

def code : Colour → String
  | .red => "\x1b[31m"
  | .green => "\x1b[32m"
  | .yellow => "\x1b[33m"
  | .cyan => "\x1b[36m"

def escape : Char := '\x1b'

def reset : String := "\x1b[0m"

def paint (c : Colour) (s : String) : String := code c ++ s ++ reset

/-- A code, maybe between two marks. The reader is given the text behind its escape and answers
with what it read and the text behind the code. -/
def marked (read : Text → Option (α × Text)) : Matcher α := fun _ t =>
  let (front, t') := match t with
    | '\x01' :: rest => (1, rest)
    | t => (0, t)
  match t' with
  | '\x1b' :: body => do
    let (a, rest) ← read body
    let back := if rest.head? = some '\x02' then 1 else 0
    pure (front + (t'.length - rest.length) + back, a)
  | _ => none

def readCommand : Text → Option (Text × Text)
  | ']' :: rest => Text.partition? '\x07' rest
  | _ => none

def isParameter (c : Char) : Bool := c = ';' || (Text.digitValue? c).isSome

def readControl : Text → Option (Unit × Text)
  | '[' :: rest =>
    match rest.dropWhile isParameter with
    | c :: rest => if c.isAlpha then some ((), rest) else none
    | [] => none
  | _ => none

def commands : Matcher Text := marked readCommand

def controls : Matcher Unit := marked readControl

def asksForTitle (command : Text) : Bool :=
  match Text.splitOn [';'] command with
  | [field, _] => ["".toList, ['0'], ['2'], ['0', '2']].contains field
  | _ => false

def cut (t : Text) (m : Match α) : Text := t.take m.start ++ t.drop m.stop

/-- Takes out the commands to the window. The offsets are those of the text before any of them
was taken out. -/
def withoutCommands (t : Text) : Except Fault Text :=
  let found := commands.all t
  if found.any fun m => asksForTitle m.value then .error .noWindow else .ok (found.foldl cut t)

def withoutControls (t : Text) : Text := ((controls.all t).reverse).foldl cut t

/-- What the terminal shows of a text with control codes. -/
def stripped (s : String) : Except Fault String := do
  let t ← withoutCommands s.toList
  pure (Text.str (withoutControls t))

end Style

end SchedulingNoise
