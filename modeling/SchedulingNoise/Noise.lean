import SchedulingNoise.Catalogue
import SchedulingNoise.Number.Quantity

/-! Scheduling noise and the statements that make it. Each statement fits on one line, so that
an instrumented file keeps its line numbers. -/
namespace SchedulingNoise

inductive NoiseKind
  | sleep
  | yield
deriving DecidableEq, Repr

def NoiseKind.name : NoiseKind → String
  | .sleep => "sleep"
  | .yield => "yield"

inductive NoiseAction (α : Type)
  | sleep (low high : α)
  | yield
deriving DecidableEq, Repr

structure Noise (α : Type) where
  probability : α
  action : NoiseAction α
deriving DecidableEq, Repr

def defaultLow : Int := 100

def defaultHigh : Int := 1000

namespace Noise

/-- A yield has no delays, whatever was given for them. -/
def make (kind : NoiseKind) (probability low high : α) : Noise α :=
  match kind with
  | .sleep => ⟨probability, .sleep low high⟩
  | .yield => ⟨probability, .yield⟩

def kind (n : Noise α) : NoiseKind :=
  match n.action with
  | .sleep _ _ => .sleep
  | .yield => .yield

def low [Amount α] (n : Noise α) : α :=
  match n.action with
  | .sleep l _ => l
  | .yield => Amount.ofInt defaultLow

def high [Amount α] (n : Noise α) : α :=
  match n.action with
  | .sleep _ h => h
  | .yield => Amount.ofInt defaultHigh

def short [Amount α] (n : Noise α) : Bool :=
  Amount.short n.probability &&
    match n.action with
    | .sleep l h => Amount.short l && Amount.short h
    | .yield => true

def map (f : α → β) (n : Noise α) : Noise β :=
  match n.action with
  | .sleep l h => ⟨f n.probability, .sleep (f l) (f h)⟩
  | .yield => ⟨f n.probability, .yield⟩

end Noise

structure RandomField where
  field : Text := "_contenderRandom".toList
  owner : Option Text := none
deriving DecidableEq, Repr

namespace RandomField

def reference (r : RandomField) : Text :=
  match r.owner with
  | none => r.field
  | some owner => if owner.isEmpty then r.field else owner ++ '.' :: r.field

def importStatement : Text := "import java.util.Random;".toList

def declaration (r : RandomField) : Text :=
  "static final Random ".toList ++ r.field ++ " = new Random();".toList

end RandomField

/-- Stands where the field would be declared when a file has no type to declare it. -/
def missingTypeMarker : Text := "/* NO CLASS WAS FOUND - CONTENDER */".toList

namespace Noise

def delay [Amount α] (r : RandomField) (low high : α) : Except Fault Text := do
  if ← Amount.above high low then
    let start ← Amount.write low
    let range ← Amount.difference high low
    pure (start ++ " + ".toList ++ r.reference ++ ".nextInt(".toList ++ range ++ [')'])
  else Amount.write low

def actionStatement [Amount α] (r : RandomField) : NoiseAction α → Except Fault Text
  | .yield => .ok "Thread.yield();".toList
  | .sleep low high => do
    let delay ← delay r low high
    pure ("try \x7b Thread.sleep(".toList ++ delay ++
      "); \x7d catch (InterruptedException e) ".toList ++
      "\x7b Thread.currentThread().interrupt(); \x7d".toList)

def statement [Amount α] (n : Noise α) (r : RandomField) : Except Fault Text := do
  let action ← actionStatement r n.action
  let probability ← Amount.write n.probability
  pure ("if (".toList ++ r.reference ++ ".nextInt(100) < ".toList ++ probability ++
    ") \x7b ".toList ++ action ++ " \x7d ".toList)

end Noise

structure Point (α : Type) where
  line : Int
  sequence : Int
  kind : ConstructKind
  trigger : Text
  noise : Option (Noise α) := none
deriving DecidableEq, Repr

namespace Point

def withNoise (p : Point α) (n : Option (Noise β)) : Point β :=
  ⟨p.line, p.sequence, p.kind, p.trigger, n⟩

def map (f : α → β) (p : Point α) : Point β := p.withNoise (p.noise.map (·.map f))

end Point

end SchedulingNoise
