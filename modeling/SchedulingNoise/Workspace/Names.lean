import SchedulingNoise.Disk.Glob
import SchedulingNoise.Json.Order
import SchedulingNoise.Sort
import SchedulingNoise.Workspace.Files

namespace SchedulingNoise

def Path.descend (p : Path) (below : List Text) : Path := ⟨p.anchor, p.parts ++ below⟩

def Disk.namesAt (d : Disk) (folder : Place) (p : Path) : Except Errno (List Text) := do
  let place ← d.locate .enter folder p
  pure (if d.get? place = some .folder then d.names place else [])

namespace Workspace

def namesIn (p : Path) : Act (List Text) := do
  let w ← get
  match w.disk.namesAt w.folder p with
  | .ok names => pure names
  | .error e => throw (.os ⟨e, p.text, none⟩)

/-- The paths below others that match patterns. A pattern without special characters stands for
itself, whether there is such a name or not. Where nothing can be listed, nothing matches. -/
def expand (fits : (pattern name : Text) → Bool) (reached : List Path) :
    (patterns : List Text) → Act (List Path)
  | [] => pure reached
  | pattern :: rest => do
    let next ← reached.mapM fun p => do
      if Glob.hasMagic pattern then
        let names ← orOnRefusal (namesIn p) fun _ => pure []
        return (names.filter (fits pattern)).map p.child
      else pure [p.child pattern]
    expand fits next.flatten rest

def nameFits (pattern name : Text) : Bool := Glob.fits (Glob.ofText pattern) name

/-- A folder and all folders below it, each of which is listed on the way. Links are not
followed. -/
def foldersFrom (p : Path) : Act (List Path) := do
  let w ← get
  match w.disk.locate .enter w.folder p with
  | .error _ => pure []
  | .ok place =>
    let folders := (w.disk.below place).filter fun e => e.2 = .folder
    let paths := p :: folders.map fun e => p.descend e.1
    paths.forM fun q => do let _ ← namesIn q
    pure paths

def anyFolders : Text := ['*', '*']

/-- The paths below a path that match patterns. All patterns but the last match folders alone, an
empty one the path itself. -/
def select : (patterns : List Text) → Path → Act (List Path)
  | [], p => pure [p]
  | pattern :: rest, p => do
    let wanted (q : Path) : Act Bool := if rest.isEmpty then exists? q else isFolder q
    if pattern.isEmpty then pure [p]
    else if pattern = anyFolders then
      let found := (← (← foldersFrom p).mapM (select rest)).flatten
      return if rest.contains anyFolders then found.eraseDups else found
    else if Glob.hasMagic pattern then
      let inside := ((← namesIn p).filter (nameFits pattern)).map p.child
      let inside ← if rest.isEmpty then pure inside else inside.filterM isFolder
      return (← inside.mapM (select rest)).flatten
    else if ← wanted (p.child pattern) then select rest (p.child pattern)
    else pure []

def patternNames (pattern : Text) : Except Fault (List Text) :=
  let names := Path.names pattern
  if names.any fun n => n ≠ anyFolders && Text.contains anyFolders n then .error .invalidPattern
  else .ok (if pattern.getLast? = some '/' then names ++ [[]] else names)

def matchesBelow (root : Path) (pattern : Text) : Act (List Path) := do
  let names ← require (patternNames pattern)
  if ← isFolder root then select (anyFolders :: names) root else pure []

def logPattern : Text := "contender-*.log".toList

def patternFits (pattern name : Text) : Bool :=
  Glob.fits (Glob.ofText pattern) name && (name.head? ≠ some '.' || pattern.head? = some '.')

/-- The log files in a folder, oldest first. Special characters in the folder's own path keep
their meaning; what stands before them is looked up as it is. -/
def logFiles (folder : Path) : Act (List Path) := do
  requireSpelled ⟨folder.anchor, folder.parts.takeWhile fun n => !Glob.hasMagic n⟩
  let found ← expand patternFits [⟨folder.anchor, []⟩] (folder.parts ++ [logPattern])
  pure (sortBy (fun p q => Text.le p.text q.text) found)

def surplus (limit : Quantity) : Nat → Nat
  | 0 => 0
  | n + 1 => if limit.lt (.whole (n + 1)) then surplus limit n + 1 else 0

def numberOf (v : Json) : Except Fault Quantity := (v.number?.map .ok).getD (.error .wrongType)

def removeOldLogs (folder : Path) (keep : Quantity) : Act Unit := do
  let found ← logFiles folder
  let limit := if keep.lt (.whole 0) then .whole 0 else keep
  (found.take (surplus limit found.length)).forM fun p =>
    orOnRefusal (change p Disk.unlink) fun f =>
      note ⟨.warning, s!"Could not remove old log file: {f.message}"⟩

def logFileName (c : Clock) : Text := "contender-".toList ++ c.stamp ++ ".log".toList

/-- A path from the root, with its steps up taken away by their text alone. Two slashes in front
stay two. -/
def plainly (folder : List Text) (p : Path) : Path :=
  ⟨if p.anchor = .doubleRoot then .doubleRoot else .root, Disk.plainPlace folder p⟩

def startLog (folder : Path) (maxFiles : Json) : Act Path := do
  makeFolders folder
  let clock := (← get).clock
  modify fun w => { w with clock := clock.tick }
  let file := folder.child (logFileName clock)
  let number ← require (numberOf maxFiles)
  removeOldLogs folder (← require (number.minus (.whole 1)))
  appendBytes (plainly (← get).folder file) []
  modify fun w => { w with threshold := .info }
  pure file

end Workspace

end SchedulingNoise
