import SchedulingNoise.Config.Basic
import SchedulingNoise.Sort
import SchedulingNoise.Workspace.Check
import SchedulingNoise.Workspace.Names

namespace SchedulingNoise

namespace Path

def withName (p : Path) (name : Text) : Except Fault Path :=
  if p.name.isEmpty then .error (.emptyName p)
  else if name.head? = some '/' || name.getLast? = some '/' || (names name).length ≠ 1 then
    .error (.invalidName name)
  else .ok ⟨p.anchor, p.parts.dropLast ++ [name]⟩

def walkLe : List Text → List Text → Bool
  | [], _ => true
  | _ :: _, [] => false
  | [a], [b] => Text.le a b
  | [_], _ :: _ :: _ => true
  | _ :: _ :: _, [_] => false
  | a :: s, b :: t => Text.lt a b || (a == b && walkLe s t)

end Path

namespace Disk

def isFileEntry (d : Disk) (folder : Place) (root : Path) (e : List Text × Node) : Bool :=
  match e.2 with
  | .folder => false
  | .link _ =>
    match d.node folder (root.descend e.1) with
    | .ok .folder => false
    | _ => true
  | _ => true

/-- Is an entry below a root in a folder whose path is short enough to be listed? -/
def isListed (root : Path) (e : List Text × Node) : Bool :=
  Utf8.size (root.descend e.1.dropLast).text ≤ maxPathBytes

/-- The files below a root that leads to a place, in the order of a walk. Links to folders are not
followed, and a folder that cannot be listed is passed over without a word. -/
def filesBelow (d : Disk) (folder : Place) (root : Path) (place : Place) : List (List Text) :=
  let listed := (d.below place).filter (isListed root)
  sortBy Path.walkLe ((listed.filter (d.isFileEntry folder root)).map (·.1))

end Disk

namespace Workspace

def distinct : (seen : List Path) → List Path → Act (List Path)
  | _, [] => pure []
  | seen, p :: rest => do
    let real ← resolve p
    if real ∈ seen then distinct seen rest
    else return p :: (← distinct (real :: seen) rest)

def searchRoot (root : Option Path) : Act (Option Path) := do
  let checked : Act Path := match root with
    | none => throw (.invalid .noPath)
    | some p => checkPath p { mustExist := true }
  match ← attempt checked with
  | .ok p => pure (some p)
  | .error (.invalid cause) =>
    note ⟨.error, s!"Invalid source root: {cause.message}"⟩
    pure none
  | .error f => throw f

def hasExtension (extensions : List Text) (p : Path) : Bool :=
  extensions.contains (Text.lower p.suffix)

/-- The source files below a root, or the root itself if it is one. -/
def findSources (c : Config) (root : Option Path) : Act (List Path) := do
  match ← searchRoot root with
  | none => pure []
  | some root =>
    let extensions ← require c.extensions
    if ← isFile root then pure (if hasExtension extensions root then [root] else [])
    else
      let w ← get
      let place ← ask root fun d folder p => d.locate .enter folder p
      let paths := (w.disk.filesBelow w.folder root place).map root.descend
      let found ← distinct [] (paths.filter (hasExtension extensions))
      note ⟨.info, s!"Found {found.length} source files under {root}"⟩
      pure found

def backupPath (c : Config) (source : Path) : Except Fault Path := do
  source.withName (source.name ++ (← c.suffix).toText)

def hasBackup (c : Config) (source : Path) : Act Bool := do
  exists? (← require (backupPath c source))

/-- A text without its last `n` characters; without any characters if `n` is zero. -/
def cutEnd (t : Text) (n : Nat) : Text := if n = 0 then [] else t.take (t.length - n)

def findBackedUp (c : Config) (root : Option Path) : Act (List Path) := do
  match ← searchRoot root with
  | none => pure []
  | some root =>
    if ← isFile root then return if ← hasBackup c root then [root] else []
    else
      let suffix := (← require c.suffix).toText
      let backups ← (← matchesBelow root ('*' :: suffix)).filterM isFile
      let sources ← require (backups.mapM fun b => b.withName (cutEnd b.name suffix.length))
      pure (sortBy Path.le sources)

end Workspace

end SchedulingNoise
