import SchedulingNoise.Fault

/-! A disk: a map from places to files, folders and symbolic links.

A place is the list of names from the root down. Paths are walked name by name: a link leads to
its target, one dot and an empty name stay, two dots lead up, and at most forty links are
followed. -/
namespace SchedulingNoise

abbrev Place := List Text

inductive Node
  | file (bytes : Bytes)
  /-- A file whose bytes are made up on reading; its size is given as zero. -/
  | stream (bytes : Bytes)
  | folder
  | link (target : Text)
deriving DecidableEq, Repr

structure Disk where
  entries : List (Place × Node) := []
deriving DecidableEq, Repr

namespace Disk

/-- The node at a place; the root is always a folder. -/
def get? (d : Disk) (p : Place) : Option Node :=
  if p = [] then some .folder else (d.entries.find? (·.1 = p)).map (·.2)

def putIn (p : Place) (n : Node) : List (Place × Node) → List (Place × Node)
  | [] => [(p, n)]
  | e :: rest => if e.1 = p then (p, n) :: rest else e :: putIn p n rest

def put (d : Disk) (p : Place) (n : Node) : Disk := ⟨putIn p n d.entries⟩

def erase (d : Disk) (p : Place) : Disk := ⟨d.entries.filter (·.1 ≠ p)⟩

def names (d : Disk) (p : Place) : List Text :=
  d.entries.filterMap fun e =>
    match e.1.getLast? with
    | some n => if e.1.dropLast = p then some n else none
    | none => none

def selfName : Text := ['.']

def parentName : Text := ['.', '.']

def maxNameBytes : Nat := 255

def maxPathBytes : Nat := 4095

def maxLinks : Nat := 40

inductive Step
  | here (place : Place)
  | jump (place : Place) (todo : List Text)
  | stuck (errno : Errno)
deriving DecidableEq, Repr

/-- The names of a link's target. A slash at the end asks for a folder; this shows as an empty name
there. -/
def linkNames (target : Text) : List Text :=
  (Text.splitOn ['/'] target).filter (!·.isEmpty) ++
    (if target.getLast? = some '/' then [[]] else [])

def linkStart (folder : Place) (target : Text) : Place :=
  if target.head? = some '/' then [] else folder

/-- What a walk does at its end: it stays at a link there, or it enters the link, and it may do so
to make a file. -/
inductive Ending
  | stay
  | enter
  | make
deriving DecidableEq, Repr

/-- Walks from a folder. No file can be made where a name asks for a folder. -/
def walk (d : Disk) (ending : Ending) : Place → List Text → Step
  | cur, [] => .here cur
  | cur, n :: rest =>
    if n = selfName || n.isEmpty then d.walk ending cur rest
    else if n = parentName then d.walk ending cur.dropLast rest
    else if ending = .make && rest = [[]] then .stuck .isDirectory
    else if maxNameBytes < Utf8.size n then .stuck .nameTooLong
    else match d.get? (cur ++ [n]) with
      | none => if rest.isEmpty then .here (cur ++ [n]) else .stuck .notFound
      | some .folder => d.walk ending (cur ++ [n]) rest
      | some (.link t) =>
        if rest.isEmpty && ending = .stay then .here (cur ++ [n])
        else .jump (linkStart cur t) (linkNames t ++ rest)
      | some _ => if rest.isEmpty then .here (cur ++ [n]) else .stuck .notDirectory

def walkLinks (d : Disk) (ending : Ending) :
    (links : Nat) → Place → List Text → Except Errno Place
  | links, cur, todo =>
    match d.walk ending cur todo with
    | .here p => .ok p
    | .stuck e => .error e
    | .jump p todo =>
      match links with
      | 0 => .error .tooManyLinks
      | links + 1 => d.walkLinks ending links p todo

/-- The place that a path means, seen from a folder. Nothing need be there. -/
def locate (d : Disk) (ending : Ending) (folder : Place) (p : Path) : Except Errno Place :=
  if maxPathBytes < Utf8.size p.text then .error .nameTooLong
  else d.walkLinks ending maxLinks (if p.isAbsolute then [] else folder) p.steps

def node (d : Disk) (folder : Place) (p : Path) : Except Errno Node := do
  let place ← d.locate .enter folder p
  match d.get? place with
  | some n => pure n
  | none => throw .notFound

def bytes (d : Disk) (folder : Place) (p : Path) : Except Errno Bytes := do
  match ← d.node folder p with
  | .file bs => pure bs
  | .stream bs => pure bs
  | _ => throw .isDirectory

def write (d : Disk) (folder : Place) (p : Path) (bs : Bytes) : Except Errno Disk := do
  let place ← d.locate .make folder p
  match d.get? place with
  | some .folder => throw .isDirectory
  | _ => pure (d.put place (.file bs))

def append (d : Disk) (folder : Place) (p : Path) (bs : Bytes) : Except Errno Disk := do
  let place ← d.locate .make folder p
  match d.get? place with
  | some .folder => throw .isDirectory
  | some (.file old) => pure (d.put place (.file (old ++ bs)))
  | _ => pure (d.put place (.file bs))

def unlink (d : Disk) (folder : Place) (p : Path) : Except Errno Disk := do
  let place ← d.locate .stay folder p
  match d.get? place with
  | none => throw .notFound
  | some .folder => throw .isDirectory
  | some _ => pure (d.erase place)

def isNamed (p : Path) : Bool :=
  match p.steps.getLast? with
  | some n => n ≠ selfName && n ≠ parentName
  | none => false

def rename (d : Disk) (folder : Place) (source target : Path) : Except Errno Disk := do
  let old ← d.locate .stay folder source
  let new ← d.locate .stay folder target
  if !isNamed source || !isNamed target then throw .busy
  match d.get? old, d.get? new with
  | none, _ => throw .notFound
  | _, some .folder => throw .isDirectory
  | some n, _ => pure (if old = new then d else (d.erase old).put new n)

def mkdir (d : Disk) (folder : Place) (p : Path) : Except Errno Disk := do
  let place ← d.locate .stay folder p
  match d.get? place with
  | none => pure (d.put place .folder)
  | some _ => throw .fileExists

def ensureFolders (d : Disk) : (done : Place) → List Text → Disk
  | _, [] => d
  | done, n :: rest =>
    let here := done ++ [n]
    match d.get? here with
    | none => (d.put here .folder).ensureFolders here rest
    | some _ => d.ensureFolders here rest

def below (d : Disk) (p : Place) : List (List Text × Node) :=
  d.entries.filterMap fun e =>
    if p.isPrefixOf e.1 && p.length < e.1.length then some (e.1.drop p.length, e.2) else none

def prune (d : Disk) (p : Place) : Disk := ⟨d.entries.filter fun e => !p.isPrefixOf e.1⟩

def lexical : Place → List Text → Place
  | cur, [] => cur
  | cur, n :: rest => lexical (if n = parentName then cur.dropLast else cur ++ [n]) rest

def plainPlace (folder : Place) (p : Path) : Place :=
  lexical (if p.isAbsolute then [] else folder) p.parts

/-- One step up. Above the start of a relative path this is written out. -/
def upFrom (p : Path) : Path :=
  match p.parts.getLast? with
  | some n => if n = parentName then p.child parentName else p.parent
  | none => if p.isAbsolute then p else p.child parentName

inductive Real
  | reached (path : Path)
  /-- The walk met the link at the start of `path` while it was following that link. -/
  | circle (path : Path)
deriving DecidableEq, Repr

/-- The links that were met, as the walk came to them, and where they lead; nothing for those
that are still being followed. -/
abbrev Followed := List (Path × Option Path)

def Followed.get? (f : Followed) (p : Path) : Option (Option Path) :=
  (f.find? (·.1 = p)).map (·.2)

/-- The link at a path, unless the path is too long to look there. -/
def linkAt? (d : Disk) (folder : Place) (p : Path) : Option Text :=
  if maxPathBytes < Utf8.size p.text then none
  else match d.get? (plainPlace folder p) with
    | some (.link t) => some t
    | _ => none

def realFrom (d : Disk) (folder : Place) :
    (fuel : Nat) → Followed → Path → List Text → Real × Followed
  | 0, followed, cur, todo => (.circle ⟨cur.anchor, cur.parts ++ todo⟩, followed)
  | _ + 1, followed, cur, [] => (.reached cur, followed)
  | fuel + 1, followed, cur, n :: rest =>
    if n = parentName then d.realFrom folder fuel followed (upFrom cur) rest
    else
      let here := cur.child n
      match d.linkAt? folder here with
      | some t =>
        match followed.get? here with
        | some (some p) => d.realFrom folder fuel followed p rest
        | some none => (.circle ⟨here.anchor, here.parts ++ rest⟩, followed)
        | none =>
          let start : Path := if t.head? = some '/' then ⟨.root, []⟩ else cur
          match d.realFrom folder fuel ((here, none) :: followed) start (Path.names t) with
          | (.reached p, followed) =>
            d.realFrom folder fuel ((here, some p) :: followed) p rest
          | (.circle p, followed) => (.circle ⟨p.anchor, p.parts ++ rest⟩, followed)
      | none => d.realFrom folder fuel followed here rest

def realFuel : Nat := 16384

def real (d : Disk) (folder : Place) (p : Path) : Place :=
  match (d.realFrom folder realFuel [] ⟨p.anchor, []⟩ p.parts).1 with
  | .reached q => plainPlace folder q
  | .circle q => plainPlace folder q

end Disk

end SchedulingNoise
