import SchedulingNoise.Sort
import SchedulingNoise.Text.Basic

/-! Synchronization constructs and the texts that give away a call to one of them. The triggers
of the default catalogue end at the opening parenthesis, so that none stands inside another. -/
namespace SchedulingNoise

inductive ConstructKind
  | mutualExclusion
  | barrier
  | latch
  | semaphore
deriving DecidableEq, Repr

namespace ConstructKind

def name : ConstructKind → String
  | .mutualExclusion => "mutual_exclusion"
  | .barrier => "barrier"
  | .latch => "latch"
  | .semaphore => "semaphore"

def all : List ConstructKind := [.mutualExclusion, .barrier, .latch, .semaphore]

end ConstructKind

structure Entry where
  kind : ConstructKind
  trigger : Text
deriving DecidableEq, Repr

abbrev Catalogue := List Entry

/-- A trigger found on a line. Sequence numbers count the finds of a line from zero. -/
structure Occurrence where
  kind : ConstructKind
  trigger : Text
  offset : Nat
  sequence : Nat
deriving DecidableEq, Repr

def triggerOffsets (trigger line : Text) : List Nat :=
  if trigger.isEmpty then [] else ((Matcher.literal trigger).all line).map (·.start)

namespace Catalogue

def ofTexts (kind : ConstructKind) (triggers : List String) : Catalogue :=
  triggers.map fun t => ⟨kind, t.toList⟩

def default : Catalogue :=
  ofTexts .mutualExclusion ["synchronized (", "synchronized(", ".lock(", ".lockInterruptibly(",
    ".tryLock(", ".unlock(", ".newCondition("] ++
  ofTexts .latch [".countDown(", ".await("] ++
  ofTexts .barrier [".reset(", ".getNumberWaiting("] ++
  ofTexts .semaphore [".acquire(", ".acquireUninterruptibly(", ".tryAcquire(", ".drainPermits(",
    ".release("]

/-- Adds triggers of one kind, leaving out empty texts and texts that are already there. -/
def extend (c : Catalogue) (kind : ConstructKind) : List Text → Catalogue
  | [] => c
  | t :: rest =>
    if t.isEmpty || c.any (·.trigger = t) then extend c kind rest
    else extend (c ++ [⟨kind, t⟩]) kind rest

def kindOf? (c : Catalogue) (trigger : Text) : Option ConstructKind :=
  (c.find? (·.trigger = trigger)).map (·.kind)

def finds (c : Catalogue) (line : Text) : List (Nat × Entry) :=
  c.flatMap fun e => (triggerOffsets e.trigger line).map fun o => (o, e)

/-- The finds on a line from left to right; finds at one offset keep the catalogue's order. -/
def scanLine (c : Catalogue) (line : Text) : List Occurrence :=
  (sortBy (fun a b => a.1 ≤ b.1) (c.finds line)).zipIdx.map fun ((offset, e), n) =>
    ⟨e.kind, e.trigger, offset, n⟩

end Catalogue

end SchedulingNoise
