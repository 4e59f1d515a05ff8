import AudioMarkup.Program.Parse
import AudioMarkup.Token.Scan

/-!
Scripts. A script is one function that is called on the spot: it creates the audio context, and
then each definition adds its statements. Nodes without a name get one from their class and a
number.

A statement is one line; it declares a local name, sets or calls something on a declared one, or
puts an accessor on the object that the script is run on.

The outputs for a text are its script, its tokens and its tree.
-/

namespace AudioMarkup

/-! ### Statements -/

inductive Access where
  /-- The value of an audio parameter. -/
  | parameter
  /-- A field of the node. -/
  | field
  /-- The local name itself. -/
  | binding
  deriving DecidableEq, Repr, Inhabited

def Access.target (parent : String) (property : Property) : Access → String
  | .parameter => parent ++ "." ++ property.name ++ ".value"
  | .field => parent ++ "." ++ property.name
  | .binding => parent

inductive Statement where
  /-- Declares a node that the context creates. -/
  | create (name factory arguments : String)
  /-- Declares a name for a value. -/
  | declare (name value : String)
  | setParameter (parent : String) (property : Property) (value : String)
  | setText (parent : String) (property : Property) (text : String)
  | call (parent method arguments : String)
  | setter (parent : String) (property : Property) (access : Access)
  | getter (parent : String) (property : Property) (access : Access)
  deriving DecidableEq, Repr, Inhabited

def Statement.accessors (parent : String) (property : Property) (access : Access) :
    List Statement :=
  [.setter parent property access, .getter parent property access]

def Statement.render (context : String) : Statement → String
  | .create name factory arguments =>
    "var " ++ name ++ "=" ++ context ++ "." ++ factory ++ "(" ++ arguments ++ ");"
  | .declare name value => "var " ++ name ++ "=" ++ value ++ ";"
  | .setParameter parent property value =>
    parent ++ "." ++ property.name ++ ".value=" ++ value ++ ";"
  | .setText parent property text =>
    parent ++ "." ++ property.name ++ "=" ++ Text.quote text ++ ";"
  | .call parent method arguments => parent ++ "." ++ method ++ "(" ++ arguments ++ ");"
  | .setter parent property access =>
    "this.set_" ++ parent ++ "_" ++ property.name ++ "=function(v)\x7b" ++
      access.target parent property ++ "=v;\x7d;"
  | .getter parent property access =>
    "this.get_" ++ parent ++ "_" ++ property.name ++ "=function()\x7breturn " ++
      access.target parent property ++ ";\x7d;"

/-! ### Scripts -/

structure Script where
  context : String
  statements : Array Statement
  named : List NodeClass
  deriving DecidableEq, Repr, Inhabited

def NodeClass.generatedName (nodeClass : NodeClass) (number : Nat) : String :=
  generatedMark ++ nodeClass.name ++ "_" ++ toString number

def Node.statements (name : String) : Node → List Statement
  | .constant value => [.declare name value.scriptText]
  | .oscillator source =>
    .create name "createOscillator" "" ::
      (source.detune?.map fun detune => .setParameter name .detune detune.scriptText).toList ++
      [.setParameter name .frequency source.frequency.scriptText,
       match source.wave? with
       | some wave => .call name "setPeriodicWave" wave.scriptText
       | none => .setText name .waveType source.waveType,
       .call name "start" ""]
  | .periodicWave wave =>
    [.create name "createPeriodicWave"
      ("new Float32Array(" ++ wave.real.scriptText ++ "),new Float32Array(" ++
        wave.imaginary.scriptText ++ ")")]

def NodeClass.exposed : NodeClass → List (Property × Access)
  | .constant => [(.value, .binding)]
  | .oscillator => [(.detune, .parameter), (.frequency, .parameter), (.waveType, .field)]
  | .periodicWave => []

def NodeClass.accessors (nodeClass : NodeClass) (name : String) : List Statement :=
  nodeClass.exposed.flatMap fun (property, access) => Statement.accessors name property access

/-- The statements for a definition under a name. Only a name of its own is exported. -/
def Definition.statements (name : String) (definition : Definition) : List Statement :=
  definition.node.statements name ++
    if definition.exported && definition.name?.isSome then
      definition.node.nodeClass.accessors name
    else []

namespace Script

def empty (context : String) : Script where
  context := context
  statements := #[]
  named := []

def add (script : Script) (statements : List Statement) : Script :=
  { script with statements := script.statements ++ statements }

def freshName (script : Script) (nodeClass : NodeClass) : String × Script :=
  (nodeClass.generatedName (script.named.count nodeClass + 1),
    { script with named := nodeClass :: script.named })

def addDefinition (script : Script) (definition : Definition) : Script :=
  match definition.name? with
  | some name => script.add (definition.statements name)
  | none =>
    let (name, script) := script.freshName definition.node.nodeClass
    script.add (definition.statements name)

def render (script : Script) : String :=
  "(function()\x7b\nvar " ++ script.context ++
    "=new (window.AudioContext||window.webkitAudioContext)();\n" ++
    String.join (script.statements.toList.map fun statement =>
      statement.render script.context ++ "\n") ++
    "\x7d)();\n"

end Script

def Program.toScript (context : String) (program : Program) : Script :=
  program.definitions.foldl Script.addDefinition (.empty context)

/-! ### From markup to output -/

def Program.ofText (context source : String) : Except Diagnostic Program :=
  Program.ofTokens context (Token.scan source)

def Program.scriptText (context : String) (program : Program) : String :=
  (program.toScript context).render

def compile (context source : String) : Except Diagnostic String :=
  (Program.ofText context source).map (·.scriptText context)

inductive Output where
  | script | tokens | tree
  deriving DecidableEq, Repr, Inhabited

/-- The output for a text. Tokens are written whether or not they spell a program. -/
def Output.render (context source : String) : Output → Except Diagnostic String
  | .script => compile context source
  | .tokens => .ok (Json.list ((Token.scan source).map Token.tree)).pretty
  | .tree => (Program.ofText context source).map (·.tree.pretty)

end AudioMarkup
