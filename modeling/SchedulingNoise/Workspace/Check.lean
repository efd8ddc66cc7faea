import SchedulingNoise.Json.Value
import SchedulingNoise.Workspace.Files

namespace SchedulingNoise

structure PathRule where
  mustExist : Bool := false
  /-- If it exists, a folder. -/
  folder : Bool := false
  /-- If it exists, a file. -/
  file : Bool := false

namespace Workspace

def fromRoot (p : Path) : Act Path := do
  if p.isAbsolute then pure p
  else
    note ⟨.debug, s!"Relative path detected: {p} - converting to absolute"⟩
    match ← attempt (resolve p) with
    | .ok p => pure p
    | .error (.linkLoop loop) => throw (.invalid (.unresolved loop))
    | .error f => throw f

def checkPath (p : Path) (rule : PathRule) : Act Path := do
  let p ← fromRoot p
  if rule.mustExist then
    unless ← exists? p do throw (.invalid (.missing p))
  if rule.folder then
    if ← exists? p then
      unless ← isFolder p do throw (.invalid (.notFolder p))
  if rule.file then
    if ← exists? p then
      unless ← isFile p do throw (.invalid (.notFile p))
  pure p

/-- A path from a value of any origin. A text loses its null characters. -/
def checkPathValue (v : Json) (rule : PathRule) (allowNone : Bool) : Act (Option Path) := do
  match v with
  | .null => if allowNone then pure none else throw (.invalid .noPath)
  | .str t => return some (← checkPath (.ofText (t.toText.filter (· ≠ Char.ofNat 0))) rule)
  | v => throw (.invalid (.pathType v.typeName))

def readable (p : Path) : Act Bool :=
  orOnRefusal
    (do
      if !(← exists? p) then pure false
      else if !(← isFile p) then pure false
      else
        let _ ← readBytes p
        pure true)
    fun _ => pure false

/-- The file that is made for a moment to see if a folder can be written to. -/
def trialName : Text := ".contender_write_test".toList

def writable (p : Path) : Act Bool :=
  orOnRefusal
    (do
      if !(← exists? p) then pure false
      else if !(← isFolder p) then pure false
      else
        touch (p.child trialName)
        change (p.child trialName) Disk.unlink
        pure true)
    fun _ => pure false

def holds (target : Text) (p : Holder) : Bool := !p.own && !p.hidden && p.files.contains target

def holderName (p : Holder) : String :=
  match p.name with
  | some n => Text.str n
  | none => "None"

def releaseTries (name target : Text) (delay : Quantity) : (left : Nat) → Act Bool
  | 0 => pure false
  | left + 1 => do
    match (← nextHolders).find? (holds target) with
    | none => pure true
    | some p =>
      note ⟨.info, s!"{Text.str name} is open in {holderName p} (PID {p.pid})"⟩
      unless left = 0 do pause delay
      releaseTries name target delay left

def releaseDelay : Quantity := .double (.ofRatio false 1 2)

/-- Looks up to `tries` times; `true` as soon as no other process holds the file. -/
def waitForRelease (source : Path) (tries : Nat := 3) (delay : Quantity := releaseDelay) :
    Act Bool := do
  let target ← resolve source
  releaseTries source.name target.text delay tries

end Workspace

end SchedulingNoise
