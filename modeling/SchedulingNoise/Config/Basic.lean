import SchedulingNoise.Fault
import SchedulingNoise.Json.Value
import SchedulingNoise.Policy.Automatic
import SchedulingNoise.Text.Lowercase

/-! The configuration: named values. The known ones are the extensions of source files, the
ending of backups, the automatic policy, the scope, and where and how many logs are kept. Any
value may be set; what uses one says what it has to be. -/
namespace SchedulingNoise

structure Config where
  members : Members
deriving Repr

namespace Config

def extensionsKey : Text := "source_extensions".toList

def suffixKey : Text := "backup_suffix".toList

def sleepKey : Text := "sleep_probability".toList

def kindKey : ConstructKind → Text
  | .mutualExclusion => "mutual_exclusion_probability".toList
  | .barrier => "barrier_probability".toList
  | .latch => "latch_probability".toList
  | .semaphore => "semaphore_probability".toList

def delayLowKey : Text := "delay_low".toList

def delayHighKey : Text := "delay_high".toList

def lowerKey : Text := "lower_bound".toList

def upperKey : Text := "upper_bound".toList

def maxLogsKey : Text := "max_log_files".toList

def logFolderKey : Text := "log_folder".toList

def default : Config where
  members :=
    [Json.named extensionsKey (.list [.text ".java".toList]),
      Json.named suffixKey (.text ".contender".toList), Json.named sleepKey (.int 50),
      Json.named (kindKey .mutualExclusion) (.int 50), Json.named (kindKey .barrier) (.int 50),
      Json.named (kindKey .latch) (.int 50), Json.named (kindKey .semaphore) (.int 50),
      Json.named delayLowKey (.int 100), Json.named delayHighKey (.int 1000),
      Json.named lowerKey (.int 0), Json.named upperKey (.int 100), Json.named maxLogsKey (.int 5),
      Json.named logFolderKey (.text "logs".toList)]

def get? (c : Config) (key : Text) : Option Json := Members.get? c.members key

def get (c : Config) (key : Text) : Json := (c.get? key).getD .null

def set (c : Config) (key : Text) (v : Json) : Config := ⟨Members.set c.members (.ofText key) v⟩

def update (c : Config) (new : Members) : Config := ⟨Members.update c.members new⟩

def toText : Json → Except Fault RawText
  | .str t => .ok t
  | _ => .error .wrongType

def lowered : Json → Except Fault Text
  | .str t => .ok (Text.lower t.toText)
  | _ => .error .notSupported

/-- The extensions of source files, in lower case. A text stands for its characters, an object
for its names. -/
def extensions (c : Config) : Except Fault (List Text) :=
  match c.get extensionsKey with
  | .list items => items.mapM lowered
  | .str t => .ok (t.toText.map fun ch => Text.lower [ch])
  | .object ms => .ok (ms.map fun m => Text.lower m.1.toText)
  | _ => .error .wrongType

def suffix (c : Config) : Except Fault RawText := toText (c.get suffixKey)

def logFolder (c : Config) : Except Fault RawText := toText (c.get logFolderKey)

def scope (c : Config) : Scope := ⟨c.get lowerKey, c.get upperKey⟩

def policy (c : Config) : Policy Json where
  probability k := c.get (kindKey k)
  sleepProbability := c.get sleepKey
  delayLow := c.get delayLowKey
  delayHigh := c.get delayHighKey

end Config

end SchedulingNoise
