import SchedulingNoise.Java.Declaration
import SchedulingNoise.Source.Scan

namespace SchedulingNoise

namespace Visibility

def isSeparator (c : Char) : Bool := c = '/' || c = '\\'

def dotted (t : Text) : Text := t.map fun c => if isSeparator c then '.' else c

def dottedPath (t : Text) : Text :=
  let ending := t.reverse.takeWhile fun c => c ≠ '.' && !isSeparator c
  let stem := match t.reverse.drop ending.length with
    | '.' :: rest => rest.reverse
    | _ => t
  dotted stem

def dropWord (w t : Text) : Text := (Java.afterWord? w t).getD t

def statementName (keyword statement : Text) : Text :=
  let name := dropWord "static".toList (dropWord keyword (Text.trim statement))
  let name := Text.trim (Text.trimEndBy (· = ';') name)
  let name := if ['.', '*'].isSuffixOf name then name.take (name.length - 2) else name
  name.filter fun c => !Text.isBlank c

/-- The declaring file, seen from the project's root. -/
def candidate (declaring : Text) (root : Option Text) : Text :=
  let path := dottedPath declaring
  match root with
  | some r => (Text.after? (dotted r) path).getD path
  | none => path

def visible (declaring : Text) (header : Option Text) (root : Option Text) : Bool :=
  let header := header.getD []
  let path := candidate declaring root
  let names (keyword : Text) (m : Match Unit) : Bool :=
    Text.contains (statementName keyword (m.text header)) path
  match Java.packageStatement.first header with
  | none => true
  | some m =>
    names "package".toList m || (Java.importStatement.all header).any (names "import".toList)

end Visibility

structure Method where
  name : Text
  declaring : Path
deriving DecidableEq, Repr

namespace SourceUnit

def header? (u : SourceUnit) : Option Text := Java.header? u.text

def methods (u : SourceUnit) : List Method :=
  (Java.synchronizedMethods u.text).map fun n => ⟨n, u.path⟩

end SourceUnit

structure Batch where
  units : List SourceUnit
  root : Option Path

namespace Batch

def methods (b : Batch) : List Method := b.units.flatMap (·.methods)

def note (b : Batch) : LogRecord :=
  let files := b.units.length
  let found := b.methods.length
  ⟨.info, s!"Pre-parse: {files} files, {found} synchronized methods"⟩

def sees (b : Batch) (u : SourceUnit) (m : Method) : Bool :=
  m.declaring = u.path ||
    Visibility.visible m.declaring.text u.header? (b.root.map Path.text)

def triggersFor (b : Batch) (u : SourceUnit) : List Text :=
  (b.methods.filter (b.sees u)).map fun m => '.' :: m.name ++ ['(']

/-- The catalogue for one unit: the default one and calls of the methods that it sees. -/
def catalogueFor (b : Batch) (u : SourceUnit) : Catalogue :=
  Catalogue.default.extend .mutualExclusion (b.triggersFor u)

end Batch

end SchedulingNoise
