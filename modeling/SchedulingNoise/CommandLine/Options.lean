import SchedulingNoise.Number.Decimal
import SchedulingNoise.Text.Quoted

/-! Command line options.

A long option may be shortened as long as it stays unambiguous, a value may follow an equals
sign or, for a short option, directly. One source may be given without an option. Behind two
dashes nothing is an option. -/
namespace SchedulingNoise

/-- What is given for an option that takes a value. Two dashes for a value are none. -/
inductive Given (α : Type)
  | nothing
  | value (x : α)
deriving DecidableEq, Repr

def Given.value? : Given α → Option α
  | .nothing => none
  | .value x => some x

structure Options where
  sourceArgument : Option Text := none
  source : Option (Given Text) := none
  config : Option (Given Text) := none
  auto : Bool := false
  seed : Option (Given Int) := none
  lower : Option (Given Int) := none
  upper : Option (Given Int) := none
  revert : Bool := false
  freeze : Bool := false
  dryRun : Bool := false
  showPlan : Bool := false
  noProgress : Bool := false
deriving DecidableEq, Repr

namespace Options

inductive Refusal
  | ambiguous (argument : Text) (candidates : List Text)
  | noValue (option : Text)
  | notInteger (option value : Text)
  | unwanted (option value : Text)
  | unrecognized (arguments : List Text)
  | help
deriving DecidableEq, Repr

def Refusal.message (r : Refusal) : String :=
  let error (problem : String) : String := s!"contender: error: {problem}"
  let about (o : Text) (what : String) : String := error s!"argument {Text.str o}: {what}"
  match r with
  | .ambiguous arg names =>
    let list := Text.str (Text.join ", ".toList names)
    error s!"ambiguous option: {Text.str arg} could match {list}"
  | .noValue o => about o "expected one argument"
  | .notInteger o v => about o s!"invalid int value: {Text.str v.quoted}"
  | .unwanted o v => about o s!"ignored explicit argument {Text.str v.quoted}"
  | .unrecognized args => error ("unrecognized arguments: " ++ Text.str (Text.join [' '] args))
  | .help => ""

def Refusal.exitCode (r : Refusal) : Nat := if r = .help then 0 else 2

inductive Effect
  | flag (set : Options → Options)
  | value (set : Given Text → Options → Options)
  | integer (set : Given Int → Options → Options)
  | help

structure Spec where
  spellings : List Text
  purpose : String
  effect : Effect

def Spec.title (s : Spec) : Text := Text.join ['/'] s.spellings

def spec (spellings : List String) (purpose : String) (effect : Effect) : Spec :=
  ⟨spellings.map String.toList, purpose, effect⟩

def specs : List Spec :=
  [spec ["-h", "--help"] "Show this help and exit" .help,
    spec ["--source", "-s"] "Source folder or file"
      (.value fun t o => { o with source := some t }),
    spec ["--config", "-c"] "Path to config.json file"
      (.value fun t o => { o with config := some t }),
    spec ["--auto"] "Generate noise from the policy (ignores annotations)"
      (.flag fun o => { o with auto := true }),
    spec ["--seed"] "Seed for the random choices of --auto"
      (.integer fun n o => { o with seed := some n }),
    spec ["--lower"] "Automatic scope start, percent of each file (overrides config)"
      (.integer fun n o => { o with lower := some n }),
    spec ["--upper"] "Automatic scope end, percent of each file (overrides config)"
      (.integer fun n o => { o with upper := some n }),
    spec ["--revert"] "Restore instrumented files from their backups"
      (.flag fun o => { o with revert := true }),
    spec ["--freeze"] "Write points as @PreemptionPoint annotations instead of noise"
      (.flag fun o => { o with freeze := true }),
    spec ["--dry-run"] "Show what would be done without making changes"
      (.flag fun o => { o with dryRun := true }),
    spec ["--show-plan"] "Show the detailed plan and exit (no changes)"
      (.flag fun o => { o with showPlan := true }),
    spec ["--no-progress"] "Hide the progress bar"
      (.flag fun o => { o with noProgress := true })]

def Spec.helpLine (s : Spec) : String :=
  let names := Text.str (Text.join ", ".toList s.spellings)
  s!"  {names}: {s.purpose}"

def helpText : String :=
  "\n".intercalate <|
    ["usage: contender [options] [source]", "",
      "Inject scheduling noise in front of Java synchronization call sites.", ""] ++
    specs.map Spec.helpLine

def table : List (Text × Spec) := specs.flatMap fun s => s.spellings.map fun t => (t, s)

def twoDashes : Text := ['-', '-']

inductive Word
  /-- An option, and whether one dash or two stood before it. -/
  | option (spec : Spec) (short : Bool) (value : Option Text)
  | unknown (argument : Text)
  | plain (argument : Text)
  | dashes

def withoutFeed (t : Text) : Text := if t.getLast? = some '\n' then t.dropLast else t

def isNegativeNumber (t : Text) : Bool :=
  match withoutFeed t with
  | '-' :: rest =>
    let isDigit (c : Char) := (Text.digitValue? c).isSome
    let whole := rest.takeWhile isDigit
    match rest.dropWhile isDigit with
    | [] => !whole.isEmpty
    | '.' :: part => !part.isEmpty && part.all isDigit
    | _ => false
  | _ => false

def candidates (arg : Text) : List (Text × Spec × Option Text) :=
  match arg with
  | '-' :: '-' :: _ =>
    let (front, value) := match Text.partition? '=' arg with
      | some (front, value) => (front, some value)
      | none => (arg, none)
    (table.filter fun e => front.isPrefixOf e.1).map fun e => (e.1, e.2, value)
  | _ =>
    table.filterMap fun e =>
      if e.1 = arg.take 2 then some (e.1, e.2, some (arg.drop 2))
      else if arg.isPrefixOf e.1 then some (e.1, e.2, none)
      else none

def spelled? (arg : Text) : Option Spec := (table.find? (·.1 = arg)).map (·.2)

def named? (arg : Text) : Option (Spec × Option Text) :=
  match spelled? arg with
  | some s => some (s, none)
  | none => do
    let (front, value) ← Text.partition? '=' arg
    let s ← spelled? front
    pure (s, some value)

def isShort (arg : Text) : Bool := !(twoDashes.isPrefixOf arg)

def classify (arg : Text) : Except Refusal Word :=
  if arg.head? ≠ some '-' || arg.length = 1 then .ok (.plain arg)
  else match named? arg with
    | some (s, value) => .ok (.option s (isShort arg) value)
    | none =>
      match candidates arg with
      | [(_, s, value)] => .ok (.option s (isShort arg) value)
      | [] =>
        if isNegativeNumber arg || ' ' ∈ arg then .ok (.plain arg) else .ok (.unknown arg)
      | many => .error (.ambiguous arg (many.map (·.1)))

def classifyAll : List Text → Except Refusal (List Word)
  | [] => .ok []
  | arg :: rest =>
    if arg = twoDashes then .ok (.dashes :: rest.map .plain)
    else do
      let w ← classify arg
      let ws ← classifyAll rest
      pure (w :: ws)

structure State where
  options : Options := {}
  sourceGiven : Bool := false
  extras : List Text := []

def argumentText : Word → Text
  | .plain t => t
  | .unknown t => t
  | .dashes => twoDashes
  | .option _ _ _ => []

def isOption : Word → Bool
  | .option _ _ _ => true
  | .unknown _ => true
  | _ => false

def givenText (value : Text) : Given Text :=
  if value = twoDashes then .nothing else .value value

def givenInteger? (value : Text) : Option (Given Int) :=
  if value = twoDashes then some .nothing else (Decimal.parse? value).map .value

def supply (st : State) (s : Spec) (value : Text) : Except Refusal State :=
  match s.effect with
  | .value set => .ok { st with options := set (givenText value) st.options }
  | .integer set =>
    match givenInteger? value with
    | some n => .ok { st with options := set n st.options }
    | none => .error (.notInteger s.title value)
  | .flag _ => .error (.unwanted s.title value)
  | .help => .error (.unwanted s.title value)

def isPlain : Word → Bool
  | .plain _ => true
  | _ => false

/-- What comes of letters behind the short option for help: each of them is a short option, and the
last one may have a value. If all is well with them, help is shown. -/
def cluster (title : Text) (rest : List Word) : Text → Refusal
  | [] => .help
  | c :: more =>
    match spelled? ['-', c] with
    | none => .unwanted title (c :: more)
    | some s =>
      match s.effect with
      | .help => cluster s.title rest more
      | .flag _ => cluster s.title rest more
      | _ => if more.isEmpty && !(rest.head?.any isPlain) then .noValue s.title else .help

def supplyOwn (st : State) (s : Spec) (short : Bool) (value : Text) (rest : List Word) :
    Except Refusal State :=
  match s.effect with
  | .help =>
    .error (if short && !value.isEmpty then cluster s.title rest value else .unwanted s.title value)
  | _ => supply st s value

/-- What follows the last option: the source, maybe between dashes, and extras. -/
def finish (st : State) (words : List Word) : State :=
  if st.sourceGiven then { st with extras := st.extras ++ words.map argumentText }
  else
    let words := match words with
      | .dashes :: rest => rest
      | ws => ws
    match words with
    | [] => st
    | w :: rest =>
      let rest := match rest with
        | .dashes :: more => more
        | ws => ws
      { options := { st.options with sourceArgument := some (argumentText w) }
        sourceGiven := true
        extras := st.extras ++ rest.map argumentText }

def collect (st : State) : List Word → Except Refusal State
  | [] => .ok st
  | w :: rest =>
    if !(w :: rest).any isOption then .ok (finish st (w :: rest))
    else match w with
      | .option s short (some value) => do collect (← supplyOwn st s short value rest) rest
      | .option s _ none =>
        match s.effect with
        | .flag set => collect { st with options := set st.options } rest
        | .help => .error .help
        | _ =>
          match rest with
          | .plain value :: rest => do collect (← supply st s value) rest
          | _ => .error (.noValue s.title)
      | .unknown t => collect { st with extras := st.extras ++ [t] } rest
      | w =>
        if st.sourceGiven then collect { st with extras := st.extras ++ [argumentText w] } rest
        else
          collect { st with
            options := { st.options with sourceArgument := some (argumentText w) }
            sourceGiven := true } rest

def ofArguments (args : List Text) : Except Refusal Options := do
  let words ← classifyAll args
  let st ← collect {} words
  if st.extras.isEmpty then pure st.options else throw (.unrecognized st.extras)

end Options

end SchedulingNoise
