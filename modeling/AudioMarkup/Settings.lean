import AudioMarkup.Program.Parse
import AudioMarkup.Yaml.Parse

/-!
Settings of the compiler, from a YAML document. What a document does not set has a default, and
what it sets beyond the known keys is ignored. A known key may be given only once.
-/

namespace AudioMarkup

structure LogSettings where
  enabled : Bool
  colorize : Bool
  level : String
  deriving DecidableEq, Repr, Inhabited

structure Settings where
  context : String
  log : LogSettings
  deriving DecidableEq, Repr, Inhabited

inductive Settings.Fault where
  | yaml (fault : Yaml.Fault)
  | invalidContext (context : String)
  deriving DecidableEq, Repr, Inhabited

def LogSettings.default : LogSettings := { enabled := true, colorize := true, level := "info" }

namespace Settings

def default : Settings := { context := defaultContext, log := .default }

def Fault.message : Fault → String
  | .yaml fault => "invalid YAML: " ++ fault.message
  | .invalidContext context => "context '" ++ context ++ "' is not a valid identifier"

/-- A letter, an underscore or a dollar sign. Letters are ASCII. -/
def isIdentifierStart (c : Char) : Bool := c.isAlpha || c == '_' || c == '$'

def isIdentifier (name : String) : Bool :=
  match name.toList with
  | [] => false
  | first :: rest =>
    isIdentifierStart first && rest.all fun c => isIdentifierStart c || c.isDigit

end Settings

namespace Yaml

/-- The fields of a mapping, or none where nothing is written. The keys have to be scalars. -/
def Node.fields : Node → Except Fault (List (String × Node))
  | .scalar "" true => pure []
  | .mapping entries => entries.mapM fun (key, value) =>
    match key with
    | .scalar name _ => pure (name, value)
    | _ => throw .textExpected
  | _ => throw .mappingExpected

def Node.text : Node → Except Fault String
  | .scalar text _ => pure text
  | _ => throw .textExpected

def Node.boolean : Node → Except Fault Bool
  | .scalar text true =>
    if ["true", "True", "TRUE"].contains text then pure true
    else if ["false", "False", "FALSE"].contains text then pure false
    else throw .booleanExpected
  | _ => throw .booleanExpected

/-- The value of a field, read in some way, or the default if the field is absent. -/
def field {α : Type} (fields : List (String × Node)) (name : String)
    (read : Node → Except Fault α) (default : α) : Except Fault α :=
  match fields.filter (·.1 == name) with
  | [] => pure default
  | [(_, node)] => read node
  | _ => throw .duplicateKey

end Yaml

def LogSettings.ofNode (node : Yaml.Node) : Except Yaml.Fault LogSettings := do
  let fields ← node.fields
  let enabled ← Yaml.field fields "enabled" Yaml.Node.boolean LogSettings.default.enabled
  let colorize ← Yaml.field fields "colorize" Yaml.Node.boolean LogSettings.default.colorize
  let level ← Yaml.field fields "level" Yaml.Node.text LogSettings.default.level
  pure { enabled, colorize, level }

namespace Settings

def ofNode (node : Yaml.Node) : Except Yaml.Fault Settings := do
  let fields ← node.fields
  let context ← Yaml.field fields "context" Yaml.Node.text default.context
  let log ← Yaml.field fields "logging" LogSettings.ofNode default.log
  pure { context, log }

def decode (text : String) : Except Yaml.Fault Settings := Yaml.Node.parse text >>= ofNode

/-- The settings that a text spells, if it is decoded in the given way. The context has to be an
identifier. -/
def parseWith (decode : String → Except Yaml.Fault Settings) (text : String) :
    Except Fault Settings :=
  match decode text with
  | .error fault => .error (.yaml fault)
  | .ok settings =>
    if isIdentifier settings.context then .ok settings
    else .error (.invalidContext settings.context)

end Settings
end AudioMarkup
