import SchedulingNoise.Config.Basic

namespace SchedulingNoise.Config

structure NumberField where
  key : Text
  low : Int
  high : Int
  sample : Int
deriving DecidableEq, Repr

def numberFields : List NumberField :=
  [⟨sleepKey, 0, 100, 50⟩, ⟨kindKey .mutualExclusion, 0, 100, 50⟩, ⟨kindKey .barrier, 0, 100, 50⟩,
    ⟨kindKey .latch, 0, 100, 50⟩, ⟨kindKey .semaphore, 0, 100, 50⟩,
    ⟨delayLowKey, 0, 600000, 100⟩, ⟨delayHighKey, 0, 600000, 1000⟩, ⟨lowerKey, 0, 100, 0⟩,
    ⟨upperKey, 0, 100, 100⟩, ⟨maxLogsKey, 1, 100, 5⟩]

def orderedPairs : List (Text × Text) := [(delayLowKey, delayHighKey), (lowerKey, upperKey)]

inductive Complaint
  | notObject (typeName : String)
  | notInteger (field : NumberField) (value : Json)
  | outside (field : NumberField) (value : Int)
  | unordered (lowKey highKey : Text) (low high : Json)
  | extensionsNoList (value : Json)
  | extensionsNoTexts
  | extensionsNoDots
  | suffix (value : Json)
  | logFolder (typeName : String)
deriving Repr

def valueLines (key : Text) (lines : List String) : String :=
  "\n".intercalate (["ERROR: Invalid config value", s!"  Field: {Text.str key}"] ++ lines)

def Complaint.message : Complaint → String
  | .notObject typeName =>
    "\n".intercalate ["ERROR: Invalid config file", s!"  Value: {typeName}",
      "  Expected: JSON object with settings"]
  | .notInteger f v =>
    valueLines f.key [s!"  Value: {Text.str v.shown} ({v.typeName})",
      "  Expected: number (integer)", s!"  Example: {f.sample}",
      s!"  Valid range: {f.low} to {f.high}"]
  | .outside f n =>
    valueLines f.key [s!"  Value: {n}", s!"  Expected: number between {f.low} and {f.high}",
      s!"  Example: {f.sample}"]
  | .unordered lowKey highKey low high =>
    "\n".intercalate ["ERROR: Invalid config value",
      s!"  Fields: {Text.str lowKey}, {Text.str highKey}",
      s!"  Value: {Text.str low.plain} > {Text.str high.plain}",
      s!"  Expected: {Text.str lowKey} must not exceed {Text.str highKey}"]
  | .extensionsNoList v =>
    valueLines extensionsKey [s!"  Value: {Text.str v.shown} ({v.typeName})",
      "  Expected: list of strings", "  Example: ['.java']"]
  | .extensionsNoTexts =>
    valueLines extensionsKey ["  Problem: List contains non-string values",
      "  Expected: All entries must be strings", "  Example: ['.java']"]
  | .extensionsNoDots =>
    valueLines extensionsKey ["  Problem: Extensions must start with '.'",
      "  Example: ['.java'] (note the dots)"]
  | .suffix v =>
    valueLines suffixKey [s!"  Value: {Text.str v.shown}",
      "  Expected: extension string starting with '.'", "  Example: '.contender'"]
  | .logFolder typeName => s!"log_folder must be a string, got {typeName}"

def checkNumber (ms : Members) (f : NumberField) : List Complaint :=
  match Members.get? ms f.key with
  | none => []
  | some (.int n) => if n < f.low || f.high < n then [.outside f n] else []
  | some v => [.notInteger f v]

/-- The number that a value is as an integer; the truth values count as one and zero. -/
def integer? : Json → Option Int
  | .int n => some n
  | .bool b => some (if b then 1 else 0)
  | _ => none

/-- Compares the values that would hold after an update of the defaults. -/
def checkPair (ms : Members) (keys : Text × Text) : List Complaint :=
  let merged := default.update ms
  let low := merged.get keys.1
  let high := merged.get keys.2
  match integer? low, integer? high with
  | some a, some b => if b < a then [.unordered keys.1 keys.2 low high] else []
  | _, _ => []

def isText : Json → Bool
  | .str _ => true
  | _ => false

def startsWithDot : Json → Bool
  | .str (.char '.' :: _) => true
  | _ => false

def checkExtensions (ms : Members) : List Complaint :=
  match Members.get? ms extensionsKey with
  | none => []
  | some (.list items) =>
    if !items.all isText then [.extensionsNoTexts]
    else if !items.all startsWithDot then [.extensionsNoDots]
    else []
  | some v => [.extensionsNoList v]

def checkSuffix (ms : Members) : List Complaint :=
  match Members.get? ms suffixKey with
  | none => []
  | some (.str (.char '.' :: _ :: _)) => []
  | some v => [.suffix v]

def checkLogFolder (ms : Members) : List Complaint :=
  match Members.get? ms logFolderKey with
  | none => []
  | some (.str _) => []
  | some v => [.logFolder v.typeName]

def complaints : Json → List Complaint
  | .object ms =>
    numberFields.flatMap (checkNumber ms) ++ orderedPairs.flatMap (checkPair ms) ++
      checkExtensions ms ++ checkSuffix ms ++ checkLogFolder ms
  | v => [.notObject v.typeName]

def requiredKeys : List Text := [extensionsKey, suffixKey]

def checkRequired : (keys : Option (List Text)) → Except Fault Unit
  | none => .error (.invalid .noConfig)
  | some keys =>
    match requiredKeys.find? fun k => !keys.contains k with
    | some k => .error (.invalid (.noAttribute (Text.str k)))
    | none => .ok ()

end SchedulingNoise.Config
