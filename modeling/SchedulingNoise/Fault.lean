import SchedulingNoise.Number.Decimal
import SchedulingNoise.Path
import SchedulingNoise.Text.Utf8

namespace SchedulingNoise

inductive Errno
  | notFound
  | busy
  | fileExists
  | notDirectory
  | isDirectory
  | nameTooLong
  | tooManyLinks
deriving DecidableEq, Repr

namespace Errno

def number : Errno → Nat
  | .notFound => 2
  | .busy => 16
  | .fileExists => 17
  | .notDirectory => 20
  | .isDirectory => 21
  | .nameTooLong => 36
  | .tooManyLinks => 40

def text : Errno → String
  | .notFound => "No such file or directory"
  | .busy => "Device or resource busy"
  | .fileExists => "File exists"
  | .notDirectory => "Not a directory"
  | .isDirectory => "Is a directory"
  | .nameTooLong => "File name too long"
  | .tooManyLinks => "Too many levels of symbolic links"

end Errno

structure OsFault where
  errno : Errno
  path : Text
  target : Option Text := none
deriving DecidableEq, Repr

def OsFault.message (f : OsFault) : String :=
  let head := s!"[Errno {f.errno.number}] {f.errno.text}: {Text.str f.path.quoted}"
  match f.target with
  | none => head
  | some t => s!"{head} -> {Text.str t.quoted}"

inductive Invalid
  | noPath
  | pathType (typeName : String)
  | unresolved (loop : Text)
  | missing (path : Path)
  | notFolder (path : Path)
  | notFile (path : Path)
  | noInteger
  | notInteger (value : Text)
  | tooSmall (value : Int) (bound : Text)
  | tooLarge (value : Int) (bound : Text)
  | noConfig
  | noAttribute (name : String)
deriving DecidableEq, Repr

def linkLoopMessage (path : Text) : String := s!"Symlink loop from {Text.str path.quoted}"

def Invalid.message : Invalid → String
  | .noPath => "Path cannot be None"
  | .pathType name => s!"Invalid path type: <class '{name}'>"
  | .unresolved loop => s!"Cannot resolve path: {linkLoopMessage loop}"
  | .missing path => s!"Path does not exist: {path}"
  | .notFolder path => s!"Path is not a directory: {path}"
  | .notFile path => s!"Path is not a file: {path}"
  | .noInteger => "Integer cannot be None"
  | .notInteger value => s!"Cannot convert to integer: {Text.str value}"
  | .tooSmall value bound => s!"Value too small: {value} < {Text.str bound}"
  | .tooLarge value bound => s!"Value too large: {value} > {Text.str bound}"
  | .noConfig => "Config cannot be None"
  | .noAttribute name => s!"Config missing required attribute: {name}"

inductive BackupFault
  | present (backup : Path)
  | inaccessible (source : Path)
  | readOnly (folder : Path)
  | notCopied (source backup : Path)
deriving DecidableEq, Repr

def BackupFault.message : BackupFault → String
  | .present backup => s!"Backup already exists (file still instrumented?): {backup}"
  | .inaccessible source => s!"Source file not accessible: {source}"
  | .readOnly folder => s!"Folder not writable: {folder}"
  | .notCopied source backup => s!"Could not copy {source} to {backup}"

inductive TimeFault
  | form (text : Text)
  | year (n : Nat)
  | month
  | day
  | hour
  | minute
  | second
  /-- An offset of a day or more, in microseconds. -/
  | offset (micros : Int)
deriving DecidableEq, Repr

/-- A span of time in whole days, seconds and microseconds, of which only the days may be negative.
Parts that are zero are left out. -/
def spanText (micros : Int) : String :=
  let day : Int := 86400 * 1000000
  let part (name : String) (n : Int) : List String := if n = 0 then [] else [s!"{name}={n}"]
  let rest := micros.emod day
  let parts := part "days" (micros.ediv day) ++ part "seconds" (rest / 1000000) ++
    part "microseconds" (rest % 1000000)
  "datetime.timedelta(" ++ ", ".intercalate parts ++ ")"

def TimeFault.message : TimeFault → String
  | .form text => s!"Invalid isoformat string: {Text.str text.quoted}"
  | .year n => s!"year {n} is out of range"
  | .month => "month must be in 1..12"
  | .day => "day is out of range for month"
  | .hour => "hour must be in 0..23"
  | .minute => "minute must be in 0..59"
  | .second => "second must be in 0..59"
  | .offset micros =>
    "offset must be a timedelta strictly between -timedelta(hours=24) and timedelta(hours=24), " ++
      s!"not {spanText micros}."

inductive Nest
  | list
  | object
deriving DecidableEq, Repr

def Nest.name : Nest → String
  | .list => "array"
  | .object => "object"

inductive Fault
  | os (fault : OsFault)
  /-- A file would be copied onto itself. -/
  | sameFile (a b : Text)
  /-- A copy was to go where only a folder could be, and there is none. -/
  | noFolder (path : Text)
  /-- A path with a null character was given to the disk. -/
  | nullCharacter (path : Text)
  /-- Halves of characters at `first` and behind it were to be written as bytes. -/
  | unencodable (units : List Nat) (first : Nat)
  | undecodable (refusal : Utf8.Refusal)
  | tooManyDigits (digits : Nat)
  /-- An integer has too many digits to be written. -/
  | unwritable
  /-- The quotient of integers is no double. -/
  | quotientTooLarge
  /-- An integer is no double. -/
  | tooLargeForDouble
  /-- An index outside a list, or a draw from a script that has run out. -/
  | outOfRange
  /-- A value of the wrong type reached an operation. -/
  | wrongType
  /-- A seed is neither a number nor a text. -/
  | seedType
  /-- A value was asked for something that it does not have. -/
  | notSupported
  /-- A text that is printed asks for a window title, and there is no window. -/
  | noWindow
  /-- A point without noise was to be rendered. -/
  | missingNoise
  /-- A point without noise was to be written as an annotation. -/
  | noNoise (line : Int)
  | emptyName (path : Path)
  | invalidName (name : Text)
  /-- Two stars in a row inside a pattern for names. -/
  | invalidPattern
  | invalid (cause : Invalid)
  | backup (cause : BackupFault)
  /-- A backup could not be copied back. -/
  | restore (backup source : Path)
  | linkLoop (path : Text)
  | tooDeep (nest : Nest)
  | infinity
  | endOfInput
  | interrupted
  /-- A name that is not known, as messages show it. -/
  | unknownName (shown : Text)
  | time (cause : TimeFault)
deriving DecidableEq, Repr

namespace Fault

def unencodableMessage (units : List Nat) (first : Nat) : String :=
  match units with
  | [n] =>
    let shown := Text.str (Text.hex 4 n)
    s!"'utf-8' codec can't encode character '\\u{shown}' in position {first}: " ++
      "surrogates not allowed"
  | _ =>
    let last := first + units.length - 1
    s!"'utf-8' codec can't encode characters in position {first}-{last}: surrogates not allowed"

def fromDisk : Fault → Bool
  | .os _ => true
  | .sameFile _ _ => true
  | .noFolder _ => true
  | _ => false

def isDecoding : Fault → Bool
  | .undecodable _ => true
  | _ => false

def message : Fault → String
  | .os f => f.message
  | .sameFile a b => s!"{Text.str a.quoted} and {Text.str b.quoted} are the same file"
  | .noFolder path => s!"Directory does not exist: {Text.str path}"
  | .nullCharacter _ => "embedded null byte"
  | .unencodable units first => unencodableMessage units first
  | .undecodable r => r.message
  | .unwritable =>
    s!"Exceeds the limit ({Decimal.digitLimit} digits) for integer string conversion; " ++
      "use sys.set_int_max_str_digits() to increase the limit"
  | .quotientTooLarge => "integer division result too large for a float"
  | .tooLargeForDouble => "int too large to convert to float"
  | .tooManyDigits n =>
    s!"Exceeds the limit ({Decimal.digitLimit} digits) for integer string conversion: " ++
      s!"value has {n} digits; use sys.set_int_max_str_digits() to increase the limit"
  | .outOfRange => "list index out of range"
  | .wrongType => "unsupported operand type"
  | .seedType =>
    "The only supported seed types are: None,\nint, float, str, bytes, and bytearray."
  | .notSupported => "value does not support this"
  | .noWindow => "'NoneType' object has no attribute 'set_title'"
  | .missingNoise => "point carries no noise"
  | .noNoise line => s!"Point on line {line} carries no noise"
  | .emptyName path => s!"PosixPath({Text.str path.text.quoted}) has an empty name"
  | .invalidName name => s!"Invalid name {Text.str name.quoted}"
  | .invalidPattern => "Invalid pattern: '**' can only be an entire path component"
  | .invalid cause => cause.message
  | .backup cause => cause.message
  | .restore copy source => s!"Could not copy {copy} back to {source}"
  | .linkLoop path => linkLoopMessage path
  | .tooDeep nest =>
    s!"maximum recursion depth exceeded while decoding a JSON {nest.name} from a unicode string"
  | .infinity => "cannot convert float infinity to integer"
  | .endOfInput => "EOF when reading a line"
  | .interrupted => ""
  | .unknownName shown => Text.str shown
  | .time cause => cause.message

end Fault

end SchedulingNoise
