import SchedulingNoise.Disk.Basic
import SchedulingNoise.Fault
import SchedulingNoise.Json.Value
import SchedulingNoise.Workspace.Basic

namespace SchedulingNoise

namespace CodePoint

def isHalf : CodePoint → Bool
  | .char _ => false
  | .half _ => true

def isRefused (c : CodePoint) : Bool := c.toChar = Char.ofNat 0

end CodePoint

namespace RawText

/-- Puts code points in the place of the null characters of a text, one after the other. -/
def respell : (points : RawText) → Text → RawText
  | _, [] => []
  | [], t => ofText t
  | p :: points, c :: t =>
    if c = Char.ofNat 0 then p :: respell points t else .char c :: respell (p :: points) t

def refusal (t : RawText) : Fault :=
  match (t.dropWhile fun c => !c.isHalf).takeWhile CodePoint.isHalf with
  | [] => .nullCharacter (toText t)
  | units => .unencodable (units.map CodePoint.number) (t.takeWhile fun c => !c.isHalf).length

def refusalOf (t : RawText) (path : Text) : Fault :=
  refusal (respell (t.filter CodePoint.isRefused) path)

end RawText

namespace Workspace

def requireSpelled (p : Path) : Act Unit := do
  if p.text.any (· = Char.ofNat 0) then throw (.nullCharacter p.text)

def spelledBy (t : RawText) (a : Act α) : Act α := do
  match ← attempt a with
  | .ok x => pure x
  | .error (.nullCharacter path) => throw (t.refusalOf path)
  | .error f => throw f

def ask (p : Path) (f : Disk → Place → Path → Except Errno α) : Act α := do
  requireSpelled p
  let w ← get
  match f w.disk w.folder p with
  | .ok a => pure a
  | .error e => throw (.os ⟨e, p.text, none⟩)

def change (p : Path) (f : Disk → Place → Path → Except Errno Disk) : Act Unit := do
  let disk ← ask p f
  modify fun w => { w with disk }

/-- What a path leads to. Only a name that is too long is refused. -/
def node? (p : Path) : Act (Option Node) := do
  match ← attempt (ask p Disk.node) with
  | .ok n => pure (some n)
  | .error (.os ⟨.nameTooLong, path, target⟩) => throw (.os ⟨.nameTooLong, path, target⟩)
  | .error _ => pure none

def exists? (p : Path) : Act Bool := do return (← node? p).isSome

def isFolder (p : Path) : Act Bool := do return (← node? p) = some .folder

def isFile (p : Path) : Act Bool := do
  match ← node? p with
  | some (.file _) => pure true
  | some (.stream _) => pure true
  | _ => pure false

def folderSize : Nat := 4096

def size (p : Path) : Act Nat := do
  match ← ask p Disk.node with
  | .file bs => pure bs.length
  | .stream _ => pure 0
  | _ => pure folderSize

def readBytes (p : Path) : Act Bytes := ask p Disk.bytes

def mayFailWriting (p : Path) : Act Unit := do
  match ← nextMishap with
  | .none => pure ()
  | .refused e none => throw (.os ⟨e, p.text, none⟩)
  | .refused e (some bs) =>
    let _ ← attempt (change p fun d folder p => d.write folder p bs)
    throw (.os ⟨e, p.text, none⟩)

def mayFail (p : Path) (target : Option Path) : Act Unit := do
  match ← nextMishap with
  | .none => pure ()
  | .refused e _ => throw (.os ⟨e, p.text, target.map Path.text⟩)

def writeBytes (p : Path) (bs : Bytes) : Act Unit := do
  mayFailWriting p
  change p fun d folder p => d.write folder p bs

def appendBytes (p : Path) (bs : Bytes) : Act Unit :=
  change p fun d folder p => d.append folder p bs

def unlink (p : Path) : Act Unit := do
  mayFail p none
  change p Disk.unlink

def rename (source target : Path) : Act Unit := do
  mayFail source (some target)
  requireSpelled source
  requireSpelled target
  let w ← get
  match w.disk.rename w.folder source target with
  | .ok disk => set { w with disk }
  | .error e => throw (.os ⟨e, source.text, some target.text⟩)

def touch (p : Path) : Act Unit := do
  match ← attempt (ask p Disk.node) with
  | .ok _ => pure ()
  | .error _ => change p fun d folder p => d.write folder p []

def resolve (p : Path) : Act Path := do
  requireSpelled p
  let w ← get
  let real : Path := ⟨.root, w.disk.real w.folder p⟩
  match w.disk.node w.folder real with
  | .error .tooManyLinks => throw (.linkLoop real.text)
  | _ => pure real

def absolute (p : Path) : Act Path := do
  let w ← get
  pure (Path.join ⟨.root, w.folder⟩ p)

def makeFolder (p : Path) : Act Unit := do
  match ← attempt (change p Disk.mkdir) with
  | .ok _ => pure ()
  | .error f => if ← isFolder p then pure () else throw f

def leadsSomewhere (p : Path) : Act Bool := do
  match ← attempt (exists? p) with
  | .ok found => pure found
  | .error _ => pure false

def makeFoldersDown (anchor : Anchor) : List Text → Act Unit
  | [] => pure ()
  | name :: above => do
    unless above.isEmpty || (← leadsSomewhere ⟨anchor, above.reverse⟩) do
      match ← attempt (makeFoldersDown anchor above) with
      | .error (.os ⟨.fileExists, _, _⟩) => pure ()
      | .error f => throw f
      | .ok _ => pure ()
    makeFolder ⟨anchor, (name :: above).reverse⟩

def makeFolders (p : Path) : Act Unit := makeFoldersDown p.anchor p.parts.reverse

/-- Makes a folder, and those above it only if it cannot be made without them. -/
def makeFoldersUp (anchor : Anchor) : List Text → Act Unit
  | [] => pure ()
  | name :: above => do
    let p : Path := ⟨anchor, (name :: above).reverse⟩
    match ← attempt (change p Disk.mkdir) with
    | .ok _ => pure ()
    | .error (.os ⟨.notFound, _, _⟩) =>
      makeFoldersUp anchor above
      makeFolder p
    | .error f => if ← isFolder p then pure () else throw f

def makeParentFolders (p : Path) : Act Unit := makeFoldersUp p.anchor p.parent.parts.reverse

end Workspace

end SchedulingNoise
