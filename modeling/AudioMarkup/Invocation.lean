import AudioMarkup.Script.Basic

/-!
The command line. An invocation names an input file, an output file, the kind of output and a
settings file; each may be left out and none may be given twice.

A value in an argument of its own is checked when the next option begins or the arguments end. So
an unknown option is reported before a bad value in front of it.
-/

namespace AudioMarkup

structure Invocation where
  input? : Option String
  outfile? : Option String
  settings? : Option String
  output : Output
  deriving DecidableEq, Repr, Inhabited

/-- Why arguments are not run. A request for help or for the version counts. -/
inductive Invocation.Refusal where
  | invalidValue
  | argumentConflict
  | unknownArgument
  | tooManyValues
  | help
  | version
  deriving DecidableEq, Repr, Inhabited

namespace Invocation

def Refusal.label : Refusal → String
  | .invalidValue => "InvalidValue"
  | .argumentConflict => "ArgumentConflict"
  | .unknownArgument => "UnknownArgument"
  | .tooManyValues => "TooManyValues"
  | .help => "DisplayHelp"
  | .version => "DisplayVersion"

inductive Slot where
  | input | outfile | output | settings
  deriving DecidableEq, Repr, Inhabited

inductive Choice where
  | set (slot : Slot)
  | refuse (refusal : Refusal)
  deriving DecidableEq, Repr

def Choice.ofLongName? : String → Option Choice
  | "outfile" => some (.set .outfile)
  | "emit" => some (.set .output)
  | "config" => some (.set .settings)
  | "help" => some (.refuse .help)
  | "version" => some (.refuse .version)
  | _ => none

def Choice.ofShortName? : Char → Option Choice
  | 'o' => some (.set .outfile)
  | 'h' => some (.refuse .help)
  | 'V' => some (.refuse .version)
  | _ => none

def outputOfName? : String → Option Output
  | "js" => some .script
  | "tokens" => some .tokens
  | "ast" => some .tree
  | _ => none

/-- The arguments read so far: the checked values, a slot that waits for its value or has one that
is unchecked, and whether all further arguments are input files. -/
structure Progress where
  values : List (Slot × String)
  waiting? : Option (Slot × Option String)
  hasInput : Bool
  onlyInputs : Bool
  deriving DecidableEq, Repr, Inhabited

namespace Progress

def start : Progress := { values := [], waiting? := none, hasInput := false, onlyInputs := false }

/-- Values may not be empty, and a kind of output has to be known. -/
def isValid (slot : Slot) (value : String) : Bool :=
  match slot with
  | .output => (outputOfName? value).isSome
  | _ => !value.isEmpty

def store (progress : Progress) (slot : Slot) (value : String) : Except Refusal Progress :=
  if (progress.values.lookup slot).isSome then throw .argumentConflict
  else if isValid slot value then pure { progress with values := (slot, value) :: progress.values }
  else throw .invalidValue

def settle (progress : Progress) : Except Refusal Progress :=
  match progress.waiting? with
  | none => pure progress
  | some (_, none) => throw .invalidValue
  | some (slot, some value) => { progress with waiting? := none }.store slot value

def choose (progress : Progress) (choice? : Option Choice) (attached? : Option String) :
    Except Refusal Progress :=
  match choice?, attached? with
  | none, _ => throw .unknownArgument
  | some (.set slot), some value => do (← progress.settle).store slot value
  | some (.set slot), none => do
    pure { ← progress.settle with waiting? := some (slot, none) }
  | some (.refuse _), some _ => throw .tooManyValues
  | some (.refuse refusal), none => do
    let _ ← progress.settle
    throw refusal

/-- An option with a long name, after which an equals sign may attach a value. -/
def chooseLong (progress : Progress) (text : List Char) : Except Refusal Progress :=
  let name := String.ofList (text.takeWhile (· != '='))
  match text.dropWhile (· != '=') with
  | [] => progress.choose (Choice.ofLongName? name) none
  | _ :: value => progress.choose (Choice.ofLongName? name) (some (String.ofList value))

def chooseShort (progress : Progress) (name : Char) (rest : List Char) :
    Except Refusal Progress :=
  match Choice.ofShortName? name, rest with
  | some (.set slot), '=' :: value => progress.choose (some (.set slot)) (some (String.ofList value))
  | some (.set slot), c :: value =>
    progress.choose (some (.set slot)) (some (String.ofList (c :: value)))
  | choice?, _ => progress.choose choice? none

def takeInput (progress : Progress) (value : String) : Except Refusal Progress :=
  if progress.hasInput then throw .unknownArgument
  else do
    pure { ← progress.settle with waiting? := some (.input, some value), hasInput := true }

def takeValue (progress : Progress) (value : String) : Except Refusal Progress :=
  match progress.waiting? with
  | some (slot, none) => pure { progress with waiting? := some (slot, some value) }
  | _ => progress.takeInput value

def step (progress : Progress) (argument : String) : Except Refusal Progress :=
  if progress.onlyInputs then progress.takeInput argument
  else
    match argument.toList with
    | ['-', '-'] => pure { progress with onlyInputs := true }
    | '-' :: '-' :: rest => progress.chooseLong rest
    | '-' :: name :: rest => progress.chooseShort name rest
    | _ => progress.takeValue argument

def finish (progress : Progress) : Except Refusal Invocation := do
  let progress ← progress.settle
  let value? (slot : Slot) := progress.values.lookup slot
  pure { input? := value? .input
         outfile? := value? .outfile
         settings? := value? .settings
         output := ((value? .output).bind outputOfName?).getD .script }

end Progress

def helpText : String :=
  "Compile Web Audio Markup Language into JavaScript\n\n" ++
  "Usage: waml [OPTIONS] [INPUT]\n\n" ++
  "Arguments:\n" ++
  "  [INPUT]  Source file; reads standard input when omitted\n\n" ++
  "Options:\n" ++
  "  -o, --outfile <OUTFILE>  Write output to this file instead of standard output\n" ++
  "      --emit <EMIT>        What to emit [default: js] [possible values: js, tokens, ast]\n" ++
  "      --config <CONFIG>    Configuration file (defaults to ~/.waml/config.yaml)\n" ++
  "  -h, --help               Print help\n" ++
  "  -V, --version            Print version\n"

def parse (arguments : List String) : Except Refusal Invocation := do
  (← arguments.foldlM Progress.step .start).finish

end Invocation
end AudioMarkup
