import SchedulingNoise.CommandLine.Program
import Std.Time.Zoned

/-! The program on a real disk. What a run can meet there is loaded first, the run takes place on
that copy, and what it has changed is stored. -/
namespace SchedulingNoise.Main

/-! Loading -/

def placeText (p : Place) : String := Path.str ⟨.root, p⟩

def entryAt (p : Place) : IO.FS.DirEntry :=
  { root := placeText p.dropLast, fileName := Text.str (p.getLast?.getD []) }

def typeAt (p : Place) : IO (Option IO.FS.FileType) := do
  try
    return some (← (entryAt p).path.symlinkMetadata).type
  catch _ => return none

def realPlace (p : Place) : IO Place := do
  return Path.names (← IO.FS.realPath (placeText p)).toString.toList

def loadTarget (d : Disk) (p : Place) : IO Disk := do
  let d := d.ensureFolders [] p.dropLast
  match ← typeAt p with
  | some .dir => return d.ensureFolders [] p
  | some .file => return d.put p (.file (← IO.FS.readBinFile (placeText p)).toList)
  | _ => return d

partial def load (d : Disk) (p : Place) (depth : Nat) : IO Disk := do
  match ← typeAt p with
  | some .dir =>
    let mut d := d.ensureFolders [] p
    if depth = 0 then return d
    for e in ← (← IO.FS.realPath (placeText p)).readDir do
      d ← load d (p ++ [e.fileName.toList]) (depth - 1)
    return d
  | some .file =>
    let bytes ← IO.FS.readBinFile (placeText p)
    return (d.ensureFolders [] p.dropLast).put p (.file bytes.toList)
  | some .symlink =>
    let target ← realPlace p
    let d := (d.ensureFolders [] p.dropLast).put p (.link (placeText target).toList)
    if target = p then return d else loadTarget d target
  | _ =>
    match ← typeAt p.dropLast with
    | some .dir => return d.ensureFolders [] p.dropLast
    | _ => return d

def deepest : Nat := 1000

def loadSource (w : Workspace) (t : Text) : IO Workspace := do
  let place := Disk.plainPlace w.folder (.ofText (Input.cleanPath t))
  let d ← load w.disk place.dropLast 1
  return { w with disk := ← load d place deepest }

def currentClock : IO Clock := do
  let t ← Std.Time.PlainDateTime.now
  let number (width : Nat) (n : Int) : Text := Moment.padded width n.toNat
  return ⟨number 4 t.year ++ number 2 t.month.val ++ number 2 t.day.val,
    (t.hour.val * 3600 + t.minute.val * 60 + t.second.val).toNat⟩

def loadWorkspace (o : Options) : IO Workspace := do
  let folder := Path.names (← IO.currentDir).toString.toList
  let now ← Std.Time.Timestamp.now
  let mut w : Workspace :=
    { disk := ({} : Disk).ensureFolders [] folder, folder, clock := ← currentClock
      epoch := now.toSecondsSinceUnixEpoch.val.toNat, coloured := ← (← IO.getStdout).isTty }
  w := { w with disk := ← load w.disk (Disk.plainPlace folder (Program.configFile o)) 0 }
  if let .ok c _ := Program.loadConfig o w then
    if let .ok logs := c.logFolder then
      w := { w with disk := ← load w.disk (Disk.plainPlace folder (.ofText logs.toText)) 1 }
  match Program.namedSource? o with
  | some t => loadSource w t
  | none => return w

/-! Storing -/

def remove (p : Place) : IO Unit := do
  match ← typeAt p with
  | some .dir => IO.FS.removeDirAll (placeText p)
  | some _ => IO.FS.removeFile (placeText p)
  | none => return

def storeNode (old : Option Node) (p : Place) (n : Node) : IO Unit := do
  if old = some n then return
  match n with
  | .folder => IO.FS.createDirAll (placeText p)
  | .file bytes =>
    if old matches some (.link _) then remove p
    IO.FS.writeBinFile (placeText p) bytes.toByteArray
  | _ => return

def store (old new : Disk) : IO Unit := do
  for (p, _) in old.entries do
    if (new.get? p).isNone then remove p
  for (p, n) in new.entries do
    storeNode (old.get? p) p n

def logLine (c : Clock) (r : LogRecord) : String :=
  s!"{Text.str c.stamp} - {r.level.name} - {r.message}\n"

def storeLog (w : Workspace) (clock : Clock) : IO Unit := do
  for (p, _) in w.disk.entries do
    if p.getLast? = some (Workspace.logFileName clock) then
      let handle ← IO.FS.Handle.mk (placeText p) .append
      handle.putStr (String.join (w.log.map (logLine clock)))

/-! Running -/

def tell (w : Workspace) (told : Nat) : IO Unit := do
  let out ← IO.getStdout
  out.putStr (String.ofList (w.output.toList.drop told))
  out.flush

def finish (o : Options) (w : Workspace) (entropy : Int) (told : Nat) : IO UInt32 := do
  match Program.run o entropy w with
  | .ok code new =>
    tell new told
    store w.disk new.disk
    storeLog new w.clock
    return code.toUInt32
  | .error f _ =>
    IO.eprintln f.message
    return 1

/-- A run that is out of input at a question is started anew with one more line. -/
partial def converse (o : Options) (w : Workspace) (entropy : Int) (told : Nat) : IO UInt32 := do
  match Program.start o entropy w with
  | .error .endOfInput asked =>
    tell asked told
    let line ← (← IO.getStdin).getLine
    if line.isEmpty then finish o w entropy asked.output.length
    else
      let w ← loadSource w line.toList
      let input := w.input.map (· ++ line.toList)
      converse o { w with input } entropy asked.output.length
  | _ => finish o w entropy told

end SchedulingNoise.Main

open SchedulingNoise in
def main (args : List String) : IO UInt32 := do
  match Options.ofArguments (args.map String.toList) with
  | .error r =>
    if r = .help then IO.println Options.helpText else IO.eprintln r.message
    return r.exitCode.toUInt32
  | .ok o =>
    let entropy := (← IO.getRandomBytes 8).toList.foldl (fun n b => n * 256 + (b.toNat : Int)) 0
    Main.converse o (← Main.loadWorkspace o) entropy 0
