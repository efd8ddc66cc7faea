import SchedulingNoise.Noise
import SchedulingNoise.Text.Basic

/-! Pragma comments.

A comment pins down the noise of one call site on the next line:

    /* @PreemptionPoint (sequence = 1, type = "sleep", low = 10, high = 500, probability = 75) */

The tag is read in any case, and white space may stand between the parts. The list in
parentheses may be missing. -/
namespace SchedulingNoise

structure Pragma (α : Type) where
  sequence : Int
  noise : Noise α
deriving DecidableEq, Repr

namespace Pragma

def default : Pragma Int := ⟨0, ⟨100, .sleep defaultLow defaultHigh⟩⟩

def tag : Text := "@PreemptionPoint".toList

/-- Are two letters the same in any case? The dotted capital and the dotless small letter count
as an `i`. -/
def sameLetter (p c : Char) : Bool :=
  p.toLower == c.toLower || (p.toLower == 'i' && (c.toNat == 0x130 || c.toNat == 0x131))

def afterAnyCase? : Text → Text → Option Text
  | [], t => some t
  | _ :: _, [] => none
  | p :: w, c :: t => if sameLetter p c then afterAnyCase? w t else none

def commentEnd? (t : Text) : Option Nat :=
  let blanks := Text.countBlanks t
  if ['*', '/'].isPrefixOf (t.drop blanks) then some (blanks + 2) else none

/-- The comment at the front of a text: its length, and its list if it has one. -/
def comment? (t : Text) : Option (Nat × Option Text) := do
  let t ← Text.after? ['/', '*'] t
  let lead := Text.countBlanks t
  let t ← afterAnyCase? tag (t.drop lead)
  let gap := Text.countBlanks t
  let head := 2 + lead + tag.length + gap
  match t.drop gap with
  | '(' :: rest => do
    let (list, rest) ← Text.partition? ')' rest
    let close ← commentEnd? rest
    pure (head + 1 + list.length + 1 + close, some list)
  | rest => do
    let close ← commentEnd? rest
    pure (head + close, none)

def commentMatcher : Matcher (Option Text) := fun _ => comment?

def comments (line : Text) : List (Match (Option Text)) := commentMatcher.all line

/-- The canonical comment. A yield is written without delays. -/
def render [Amount α] (a : Pragma α) : Text :=
  let delays : Text := match a.noise.action with
    | .yield => "\"yield\", ".toList
    | .sleep low high =>
      "\"sleep\", low = ".toList ++ Amount.text low ++ ", high = ".toList ++
        Amount.text high ++ ", ".toList
  "/* @PreemptionPoint (sequence = ".toList ++ Decimal.ofInt a.sequence ++ ", type = ".toList ++
    delays ++ "probability = ".toList ++ Amount.text a.noise.probability ++ ") */".toList

/-- Writes the comment, unless one of its numbers has too many digits. -/
def write [Amount α] (a : Pragma α) : Except Fault Text :=
  if Decimal.isShort a.sequence && a.noise.short then .ok a.render else .error .unwritable

end Pragma

end SchedulingNoise
