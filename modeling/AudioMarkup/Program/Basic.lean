import AudioMarkup.Json
import AudioMarkup.Node.Basic

/-!
Programs: definitions of nodes in the order in which they were written.

As a JSON tree, a case of a type is an object with one field, named for the case; absent parts are
null.
-/

namespace AudioMarkup

structure Definition where
  name? : Option String
  exported : Bool
  node : Node
  deriving DecidableEq, Repr, Inhabited

structure Program where
  definitions : List Definition
  deriving DecidableEq, Repr, Inhabited

/-! ### Trees -/

def Token.tree (token : Token) : Json :=
  .object [("line", .natural token.line), ("column", .natural token.column),
    ("text", .text token.text), ("kind", .text token.kind.label)]

def Expr.tree : Expr → Json
  | .number value => .tagged "Number" (.number value)
  | .reference name => .tagged "Reference" (.text name)
  | .operation operator left right =>
    .tagged "Operation" (.object
      [("op", .text operator.label), ("left", left.tree), ("right", right.tree)])
  | .call function argument =>
    .tagged "FunctionCall" (.object
      [("function", .text function.label), ("arg", argument.tree)])
  | .group inner => .tagged "Inner" inner.tree

def Series.tree : Series → Json
  | .list items => .tagged "Literal" (.list (items.map Expr.tree))
  | .range index lower upper body =>
    .tagged "Comprehension" (.object
      [("variable", .text index), ("from", lower.tree), ("to", upper.tree), ("body", body.tree)])

def Node.tree : Node → Json
  | .constant value => .tagged "Constant" (.object [("value", value.tree)])
  | .oscillator source =>
    .tagged "Oscillator" (.object
      [("detune", .optional (source.detune?.map Expr.tree)),
       ("frequency", source.frequency.tree),
       ("wave_type", .text source.waveType),
       ("periodic_wave", .optional (source.wave?.map Expr.tree))])
  | .periodicWave wave =>
    .tagged "PeriodicWave" (.object [("real", wave.real.tree), ("img", wave.imaginary.tree)])

def Definition.tree (definition : Definition) : Json :=
  .object [("name", .optional (definition.name?.map .text)), ("exported", .bool definition.exported),
    ("node", definition.node.tree)]

def Program.tree (program : Program) : Json :=
  .object [("definitions", .list (program.definitions.map Definition.tree))]

end AudioMarkup
