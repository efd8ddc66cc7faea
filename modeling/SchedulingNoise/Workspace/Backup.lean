import SchedulingNoise.Workspace.Discovery
import SchedulingNoise.Workspace.Files

namespace SchedulingNoise.Workspace

def sameThing (p q : Path) : Act Bool := do
  requireSpelled p
  requireSpelled q
  let w ← get
  match w.disk.locate .enter w.folder p, w.disk.locate .enter w.folder q with
  | .ok a, .ok b => pure (a = b && (w.disk.get? a).isSome)
  | _, _ => pure false

/-- Where a copy of a file goes in a folder: what follows the last slash of its path is its name
there. A dot stands for the name of a relative path without one, and for the working folder. -/
def copyInto (folder source : Path) : Path :=
  let folder := if folder.parts.isEmpty && !folder.isAbsolute then folder.child ['.'] else folder
  folder.child (source.steps.getLast?.getD (if source.isAbsolute then [] else ['.']))

def writeCopy (target : Path) (bs : Bytes) : Act Unit := do
  match ← attempt (writeBytes target bs) with
  | .ok _ => pure ()
  | .error (.os ⟨.isDirectory, path, other⟩) =>
    match ← attempt (exists? target) with
    | .ok true => throw (.os ⟨.isDirectory, path, other⟩)
    | _ => throw (.noFolder target.text)
  | .error f => throw f

def copyFile (source target : Path) : Act Unit := do
  let target := match ← attempt (isFolder target) with
    | .ok true => copyInto target source
    | _ => target
  if ← sameThing source target then throw (.sameFile source.text target.text)
  let bs ← readBytes source
  writeCopy target bs

def copyOnce (source target : Path) (expected : Nat) : Act Bool := do
  copyFile source target
  let copied ← size target
  if copied = expected then pure true
  else
    note ⟨.error, s!"Size mismatch after copy: {expected} != {copied}"⟩
    pure false

def copyTries (source target : Path) (expected total : Nat) (delay : Quantity) :
    (left : Nat) → Act Bool
  | 0 => pure false
  | left + 1 => do
    let attemptNumber := total - left
    let copied ← orOnRefusal (copyOnce source target expected) fun f => do
      note ⟨.warning, s!"Copy attempt {attemptNumber}/{total} failed: {f.message}"⟩
      pure false
    if copied then pure true
    else
      unless left = 0 do pause delay
      copyTries source target expected total delay left

def copy (source target : Path) (tries : Nat := 3) (delay : Quantity := .whole 1) : Act Bool := do
  let expected ← orOnRefusal (some <$> size source) fun f => do
    note ⟨.error, s!"Cannot stat source file {source}: {f.message}"⟩
    pure none
  match expected with
  | some expected => copyTries source target expected tries delay tries
  | none => pure false

def megabyte : Nat := 1024 * 1024

def megabytes (size : Nat) : String :=
  let tenths := Binary64.roundDiv (size * 10) megabyte
  s!"{tenths / 10}.{tenths % 10}"

def readText (p : Path) (limit : Quantity := .whole 10) : Act (Option Text) := do
  let read : Act (Option Text) := do
    let n ← size p
    if limit.timesBelow megabyte n then
      note ⟨.error, s!"File too large to read: {megabytes n}MB > {Text.str limit.text}MB"⟩
      pure none
    else
      match Utf8.decode (← readBytes p) with
      | .ok t => pure (some t)
      | .error r => throw (.undecodable r)
  match ← attempt read with
  | .ok t => pure t
  | .error f =>
    if f.fromDisk || f.isDecoding then
      note ⟨.error, s!"Cannot read file {p}: {f.message}"⟩
      pure none
    else throw f

def removePartial (copied : Path) : Act Unit := do
  if ← exists? copied then
    orOnRefusal (unlink copied) fun f =>
      note ⟨.warning, s!"Could not remove partial backup {copied}: {f.message}"⟩

/-- Copies a file aside. A backup that is there is never overwritten. -/
def backUp (c : Config) (source : Path) : Act Path := do
  let target ← require (backupPath c source)
  if ← exists? target then throw (.backup (.present target))
  unless ← readable source do throw (.backup (.inaccessible source))
  unless ← writable source.parent do throw (.backup (.readOnly source.parent))
  unless ← spelledBy (← require c.suffix) (copy source target) do
    removePartial target
    throw (.backup (.notCopied source target))
  note ⟨.info, s!"Backed up {source} -> {Text.str target.name}"⟩
  pure target

/-- Copies a backup back and removes it; `false` if there is none. -/
def restore (c : Config) (source : Path) : Act Bool := do
  let saved ← require (backupPath c source)
  if !(← exists? saved) then
    note ⟨.debug, s!"No backup for {source}, nothing to revert"⟩
    pure false
  else
    unless ← copy saved source do throw (.restore saved source)
    unlink saved
    note ⟨.info, s!"Reverted {source}"⟩
    pure true

def temporaryName (name : Text) (epoch : Nat) : Text :=
  ".tmp_".toList ++ name ++ '_' :: Decimal.ofNat epoch

def writeText (source : Path) (text : Text) : Act Unit := do
  let temporary ← require (source.withName (temporaryName source.name (← get).epoch))
  let result ← attempt do
    writeBytes temporary (Utf8.encode text)
    rename temporary source
  if ← exists? temporary then unlink temporary
  require result

end SchedulingNoise.Workspace
