import AudioMarkup.Binary64.Text
import AudioMarkup.Token.Basic

/-!
Expressions: numbers, references to defined names, four operators, calls of mathematical functions,
and parentheses. Parentheses are kept as written, because the operators are not given any
precedence here: the tree of a chain of operators leans to the right.

The script text of an expression is a sequence of pieces in the order of its leaves; no blank and no
parenthesis is added.
-/

namespace AudioMarkup

inductive Operator where
  | add | sub | mul | div
  deriving DecidableEq, Repr, Inhabited

namespace Operator

def label : Operator → String
  | .add => "Add"
  | .sub => "Sub"
  | .mul => "Mul"
  | .div => "Div"

def symbol : Operator → String
  | .add => "+"
  | .sub => "-"
  | .mul => "*"
  | .div => "/"

def all : List Operator := [.add, .sub, .mul, .div]

def ofLabel? (label : String) : Option Operator := all.find? (·.label == label)

def ofKind? : Token.Kind → Option Operator
  | .plus => some .add
  | .minus => some .sub
  | .star => some .mul
  | .slash => some .div
  | _ => none

end Operator

inductive MathFunction where
  | sin | cos | tan | sqrt | abs | exp | log | floor | ceil | round
  deriving DecidableEq, Repr, Inhabited

namespace MathFunction

def label : MathFunction → String
  | .sin => "Sin"
  | .cos => "Cos"
  | .tan => "Tan"
  | .sqrt => "Sqrt"
  | .abs => "Abs"
  | .exp => "Exp"
  | .log => "Log"
  | .floor => "Floor"
  | .ceil => "Ceil"
  | .round => "Round"

def scriptName : MathFunction → String
  | .sin => "Math.sin"
  | .cos => "Math.cos"
  | .tan => "Math.tan"
  | .sqrt => "Math.sqrt"
  | .abs => "Math.abs"
  | .exp => "Math.exp"
  | .log => "Math.log"
  | .floor => "Math.floor"
  | .ceil => "Math.ceil"
  | .round => "Math.round"

def all : List MathFunction :=
  [.sin, .cos, .tan, .sqrt, .abs, .exp, .log, .floor, .ceil, .round]

def ofLabel? (label : String) : Option MathFunction := all.find? (·.label == label)

end MathFunction

inductive Expr where
  | number (value : Binary64)
  | reference (name : String)
  | operation (operator : Operator) (left right : Expr)
  | call (function : MathFunction) (argument : Expr)
  | group (inner : Expr)
  deriving DecidableEq, Repr, Inhabited

/-! ### Builtins

The names that start with an at sign. Each is a constant or a function. -/

inductive Builtin where
  | constant (value : Binary64)
  | function (function : MathFunction)
  deriving DecidableEq, Repr

def Binary64.pi : Binary64 := ⟨0x400921fb54442d18⟩

def Binary64.euler : Binary64 := ⟨0x4005bf0a8b145769⟩

def Builtin.find? : String → Option Builtin
  | "@pi" => some (.constant .pi)
  | "@e" => some (.constant .euler)
  | "@sin" => some (.function .sin)
  | "@cos" => some (.function .cos)
  | "@tan" => some (.function .tan)
  | "@sqrt" => some (.function .sqrt)
  | "@abs" => some (.function .abs)
  | "@exp" => some (.function .exp)
  | "@log" => some (.function .log)
  | "@floor" => some (.function .floor)
  | "@ceil" => some (.function .ceil)
  | "@round" => some (.function .round)
  | _ => none

/-! ### Script text -/

inductive Expr.Piece where
  | verbatim (text : String)
  | openGroup
  | openCall (function : String)
  | close
  deriving DecidableEq, Repr, Inhabited

def Expr.Piece.render : Expr.Piece → String
  | .verbatim text => text
  | .openGroup => "("
  | .openCall function => function ++ "("
  | .close => ")"

def Expr.Piece.renderAll (pieces : List Expr.Piece) : String :=
  String.join (pieces.map Expr.Piece.render)

def Expr.pieces : Expr → List Expr.Piece
  | .number value => [.verbatim value.scriptText]
  | .reference name => [.verbatim name]
  | .operation operator left right => left.pieces ++ .verbatim operator.symbol :: right.pieces
  | .call function argument => .openCall function.scriptName :: argument.pieces ++ [.close]
  | .group inner => .openGroup :: inner.pieces ++ [.close]

def Expr.scriptText (expr : Expr) : String := Expr.Piece.renderAll expr.pieces

end AudioMarkup
