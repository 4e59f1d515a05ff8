import AudioMarkup.Settings
import AudioMarkup.Text.Hidden

/-!
The log: events, which of them are shown, and their lines.
-/

namespace AudioMarkup.Log

inductive Level where
  | error | warn | info | debug | trace
  deriving DecidableEq, Repr, Inhabited

def Level.rank : Level → Nat
  | .error => 1
  | .warn => 2
  | .info => 3
  | .debug => 4
  | .trace => 5

def Level.label : Level → String
  | .error => "ERROR"
  | .warn => " WARN"
  | .info => " INFO"
  | .debug => "DEBUG"
  | .trace => "TRACE"

def Level.colour : Level → String
  | .error => "31"
  | .warn => "33"
  | .info => "32"
  | .debug => "34"
  | .trace => "35"

inductive Value where
  | bare (text : String)
  | quoted (text : String)
  deriving DecidableEq, Repr, Inhabited

structure Event where
  level : Level
  message : String
  fields : List (String × Value)
  deriving DecidableEq, Repr, Inhabited

def Event.plain (level : Level) (message : String) : Event := ⟨level, message, []⟩

/-! ### Which events are shown -/

structure Threshold where
  rank : Nat
  deriving DecidableEq, Repr, Inhabited

/-- The threshold that a level's name or number stands for. Nothing at all means errors. -/
def Threshold.ofText? (text : String) : Option Threshold :=
  match text.toLower with
  | "off" | "0" => some ⟨0⟩
  | "" | "error" | "1" => some ⟨1⟩
  | "warn" | "2" => some ⟨2⟩
  | "info" | "3" => some ⟨3⟩
  | "debug" | "4" => some ⟨4⟩
  | "trace" | "5" => some ⟨5⟩
  | _ => none

/-- What is shown: errors if the log is disabled, else what the environment asks for, else what the
settings ask for. -/
def Threshold.choose (settings : LogSettings) (requested? : Option String) : Threshold :=
  if settings.enabled then
    match requested?.bind ofText? with
    | some threshold => threshold
    | none => (ofText? settings.level).getD ⟨1⟩
  else ⟨1⟩

def Threshold.shows (threshold : Threshold) (event : Event) : Bool :=
  event.level.rank ≤ threshold.rank

/-! ### Lines -/

def coded (c : Char) : List Char :=
  "\\u\x7b".toList ++ Nat.toDigits 16 c.toNat ++ ['\x7d']

def quotedChar (c : Char) : List Char :=
  if c = '"' then ['\\', '"']
  else if c = '\\' then ['\\', '\\']
  else if c = '\n' then ['\\', 'n']
  else if c = '\r' then ['\\', 'r']
  else if c = '\t' then ['\\', 't']
  else if c = '\x00' then ['\\', '0']
  else if Text.isHidden c then coded c
  else [c]

def Value.render : Value → String
  | .bare text => text
  | .quoted text => String.ofList ('"' :: text.toList.flatMap quotedChar ++ ['"'])

/-- A character of a message. What could steer a terminal is shown by its code. -/
def messageChar (c : Char) : List Char :=
  if c = '\x1b' then "\\x1b".toList
  else if c = '\x07' then "\\x07".toList
  else if c = '\x08' then "\\x08".toList
  else if c = '\x0c' then "\\x0c".toList
  else if c = '\x7f' then "\\x7f".toList
  else if 0x80 ≤ c.toNat && c.toNat ≤ 0x9f then coded c
  else [c]

def styled (colorize : Bool) (code text : String) : String :=
  if colorize then "\x1b[" ++ code ++ "m" ++ text ++ "\x1b[0m" else text

def renderField (colorize : Bool) (field : String × Value) : String :=
  " " ++ styled colorize "3" field.1 ++ styled colorize "2" "=" ++ field.2.render

def Event.render (colorize : Bool) (time : String) (event : Event) : String :=
  styled colorize "2" time ++ " " ++ styled colorize event.level.colour event.level.label ++ " " ++
    String.ofList (event.message.toList.flatMap messageChar) ++
    String.join (event.fields.map (renderField colorize))

def lines (settings : LogSettings) (requested? : Option String) (time : String)
    (events : List Event) : List String :=
  (events.filter (Threshold.choose settings requested?).shows).map
    (Event.render settings.colorize time)

end AudioMarkup.Log
