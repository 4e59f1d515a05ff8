import AudioMarkup.Series.Basic

/-!
Nodes of the audio graph. A node has a class; the class fixes which properties it has, what shape
their values have, and their values at first.
-/

namespace AudioMarkup

inductive NodeClass where
  | constant | oscillator | periodicWave
  deriving DecidableEq, Repr, Inhabited

namespace NodeClass

def name : NodeClass → String
  | .constant => "Constant"
  | .oscillator => "Oscillator"
  | .periodicWave => "PeriodicWave"

def all : List NodeClass := [.constant, .oscillator, .periodicWave]

def ofName? (name : String) : Option NodeClass := all.find? (·.name == name)

end NodeClass

inductive Shape where
  | text | expression | series
  deriving DecidableEq, Repr, Inhabited

def Shape.label : Shape → String
  | .text => "String"
  | .expression => "Expression"
  | .series => "Array"

inductive Property where
  | value | detune | frequency | waveType | periodicWave | real | imaginary
  deriving DecidableEq, Repr, Inhabited

namespace Property

def name : Property → String
  | .value => "value"
  | .detune => "detune"
  | .frequency => "frequency"
  | .waveType => "type"
  | .periodicWave => "periodicWave"
  | .real => "real"
  | .imaginary => "img"

def label : Property → String
  | .value => "Value"
  | .detune => "Detune"
  | .frequency => "Frequency"
  | .waveType => "Type"
  | .periodicWave => "PeriodicWave"
  | .real => "Real"
  | .imaginary => "Img"

def shape : Property → Shape
  | .value | .detune | .frequency | .periodicWave => .expression
  | .waveType => .text
  | .real | .imaginary => .series

def all : List Property :=
  [.value, .detune, .frequency, .waveType, .periodicWave, .real, .imaginary]

def ofLabel? (label : String) : Option Property := all.find? (·.label == label)

end Property

def NodeClass.properties : NodeClass → List Property
  | .constant => [.value]
  | .oscillator => [.detune, .frequency, .waveType, .periodicWave]
  | .periodicWave => [.real, .imaginary]

def NodeClass.property? (nodeClass : NodeClass) (name : String) : Option Property :=
  nodeClass.properties.find? (·.name == name)

inductive PropertyValue where
  | text (text : String)
  | expression (expr : Expr)
  | series (series : Series)
  deriving DecidableEq, Repr, Inhabited

def PropertyValue.shape : PropertyValue → Shape
  | .text _ => .text
  | .expression _ => .expression
  | .series _ => .series

structure Oscillator where
  detune? : Option Expr
  frequency : Expr
  waveType : String
  wave? : Option Expr
  deriving DecidableEq, Repr, Inhabited

structure PeriodicWave where
  real : Series
  imaginary : Series
  deriving DecidableEq, Repr, Inhabited

inductive Node where
  | constant (value : Expr)
  | oscillator (source : Oscillator)
  | periodicWave (wave : PeriodicWave)
  deriving DecidableEq, Repr, Inhabited

namespace Node

def nodeClass : Node → NodeClass
  | .constant _ => .constant
  | .oscillator _ => .oscillator
  | .periodicWave _ => .periodicWave

def concertPitch : Expr := .number ⟨0x407b800000000000⟩

def initial : NodeClass → Node
  | .constant => .constant (.number ⟨0⟩)
  | .oscillator =>
    .oscillator { detune? := none, frequency := concertPitch, waveType := "sine", wave? := none }
  | .periodicWave => .periodicWave { real := .list [], imaginary := .list [] }

@[simp] theorem nodeClass_initial (nodeClass : NodeClass) :
    (initial nodeClass).nodeClass = nodeClass := by
  cases nodeClass <;> rfl

/-- The node with one property set. There is none if the node has no such property or the value is
of another shape. -/
def set? : Node → Property → PropertyValue → Option Node
  | .constant _, .value, .expression expr => some (.constant expr)
  | .oscillator source, .detune, .expression expr =>
    some (.oscillator { source with detune? := some expr })
  | .oscillator source, .frequency, .expression expr =>
    some (.oscillator { source with frequency := expr })
  | .oscillator source, .waveType, .text text =>
    some (.oscillator { source with waveType := text })
  | .oscillator source, .periodicWave, .expression expr =>
    some (.oscillator { source with wave? := some expr })
  | .periodicWave wave, .real, .series series => some (.periodicWave { wave with real := series })
  | .periodicWave wave, .imaginary, .series series =>
    some (.periodicWave { wave with imaginary := series })
  | _, _, _ => none

/-- The property can be set exactly if the class has it and the value has its shape. -/
theorem set?_isSome_iff (node : Node) (property : Property) (value : PropertyValue) :
    (node.set? property value).isSome ↔
      property ∈ node.nodeClass.properties ∧ value.shape = property.shape := by
  cases node <;> cases property <;> cases value <;>
    simp [set?, nodeClass, NodeClass.properties, PropertyValue.shape, Property.shape]

theorem nodeClass_set? {node updated : Node} {property : Property} {value : PropertyValue}
    (changed : node.set? property value = some updated) : updated.nodeClass = node.nodeClass := by
  unfold set? at changed
  split at changed <;> cases changed <;> rfl

/-- The node after properties were set one after the other; a setting that does not apply is
skipped. -/
def setAll (node : Node) (settings : List (Property × PropertyValue)) : Node :=
  settings.foldl (fun node (property, value) => (node.set? property value).getD node) node

theorem setAll_cons (node : Node) (property : Property) (value : PropertyValue)
    (settings : List (Property × PropertyValue)) :
    node.setAll ((property, value) :: settings) =
      ((node.set? property value).getD node).setAll settings := rfl

end Node
end AudioMarkup
