import AudioMarkup.Binary64.Decimal
import AudioMarkup.Expr.Basic
import AudioMarkup.Stream

/-!
Reading expressions. An expression is an operand, or an operand, an operator and an expression: a
chain of operators is read from the left and its tree leans to the right.

The depth of a tree is limited. Reading with so many levels left hands one level less to what
stands in parentheses and to what follows an operator, so the recursion is on the levels.
-/

namespace AudioMarkup

structure Scope where
  names : List String
  index? : Option String
  deriving DecidableEq, Repr, Inhabited

namespace Scope

def ofNames (names : List String) : Scope := ⟨names, none⟩

/-- The scope inside a range. Its index replaces any other index. -/
def withIndex (scope : Scope) (index : String) : Scope := { scope with index? := some index }

def resolves (scope : Scope) (name : String) : Bool :=
  scope.index? == some name || scope.names.contains name

end Scope

/-- How many levels an expression may have below its root. -/
def nestingLimit : Nat := 256

namespace Expr

open Parse

def operandStart : List Token.Kind := [.number, .name, .className, .leftParen, .builtin]

/-- What follows an opening parenthesis, with the closing one. The token is the one to blame if
there is no level left. -/
def parseGroup (deeper? : Option (Parse Expr)) (blamed : Token) : Parse Expr :=
  match deeper? with
  | none => fail (.nestingTooDeep nestingLimit) blamed
  | some deeper => do
    let inner ← deeper
    let _ ← expect .rightParen
    pure inner

def parseBuiltin (deeper? : Option (Parse Expr)) (token : Token) : Parse Expr :=
  match Builtin.find? token.text with
  | some (.constant value) => pure (.number value)
  | some (.function function) => do
    let _ ← expect .leftParen
    let argument ← parseGroup deeper? token
    pure (.call function argument)
  | none => fail .unknownBuiltin token

def parseOperandFrom (scope : Scope) (deeper? : Option (Parse Expr)) (token : Token) : Parse Expr :=
  match token.kind with
  | .number =>
    match Numeral.read? token.text with
    | some value => pure (.number value)
    | none => fail .unexpectedToken token
  | .builtin => parseBuiltin deeper? token
  | .leftParen => do
    let inner ← parseGroup deeper? token
    pure (.group inner)
  | _ =>
    if scope.resolves token.text then pure (.reference token.text)
    else fail .undefinedReference token

def parseOperand (scope : Scope) (deeper? : Option (Parse Expr)) : Parse Expr := do
  let token ← expectAny operandStart
  parseOperandFrom scope deeper? token

def operatorOf? (token : Token) : Option (Operator × Token) :=
  (Operator.ofKind? token.kind).map (·, token)

/-- What may follow a left operand: an operator with all that is to its right. -/
def parseTail (deeper? : Option (Parse Expr)) (left : Expr) : Parse Expr := do
  match ← takeMap operatorOf? with
  | none => pure left
  | some (operator, token) =>
    match deeper? with
    | none => fail (.nestingTooDeep nestingLimit) token
    | some deeper => do
      let right ← deeper
      pure (.operation operator left right)

/-- An expression whose parts below the root are read by another step, if a level is left. -/
def parseChain (scope : Scope) (deeper? : Option (Parse Expr)) : Parse Expr := do
  let left ← parseOperand scope deeper?
  parseTail deeper? left

def parseWithin (scope : Scope) : Nat → Parse Expr
  | 0 => parseChain scope none
  | levels + 1 => parseChain scope (some (parseWithin scope levels))

def parse (scope : Scope) : Parse Expr := parseWithin scope nestingLimit

/-! ### Progress -/

private theorem neverRewinds_parseGroup {deeper? : Option (Parse Expr)} (blamed : Token)
    (progress : ∀ deeper ∈ deeper?, deeper.Advances) : (parseGroup deeper? blamed).NeverRewinds := by
  cases deeper? with
  | none => exact (advances_fail _ _).neverRewinds
  | some deeper =>
    exact ((progress deeper rfl).bind fun _ =>
      (advances_expect _).neverRewinds.bind fun _ => neverRewinds_pure _).neverRewinds

private theorem neverRewinds_parseOperandFrom (scope : Scope) {deeper? : Option (Parse Expr)}
    (token : Token) (progress : ∀ deeper ∈ deeper?, deeper.Advances) :
    (parseOperandFrom scope deeper? token).NeverRewinds := by
  have group := neverRewinds_parseGroup token progress
  unfold parseOperandFrom parseBuiltin
  split
  · split
    · exact neverRewinds_pure _
    · exact (advances_fail _ _).neverRewinds
  · split
    · exact neverRewinds_pure _
    · exact (advances_expect _).neverRewinds.bind fun _ => group.bind fun _ => neverRewinds_pure _
    · exact (advances_fail _ _).neverRewinds
  · exact group.bind fun _ => neverRewinds_pure _
  · split
    · exact neverRewinds_pure _
    · exact (advances_fail _ _).neverRewinds

private theorem neverRewinds_parseTail {deeper? : Option (Parse Expr)} (left : Expr)
    (progress : ∀ deeper ∈ deeper?, deeper.Advances) : (parseTail deeper? left).NeverRewinds := by
  refine (neverRewinds_takeMap _).bind fun taken? => ?_
  cases taken? with
  | none => exact neverRewinds_pure _
  | some taken =>
    cases deeper? with
    | none => exact (advances_fail _ _).neverRewinds
    | some deeper =>
      exact ((progress deeper rfl).bind fun _ => neverRewinds_pure _).neverRewinds

private theorem advances_parseChain (scope : Scope) {deeper? : Option (Parse Expr)}
    (progress : ∀ deeper ∈ deeper?, deeper.Advances) : (parseChain scope deeper?).Advances :=
  ((advances_expectAny _).bind fun token =>
    neverRewinds_parseOperandFrom scope token progress).bind fun left =>
      neverRewinds_parseTail left progress

theorem advances_parseWithin (scope : Scope) (levels : Nat) :
    (parseWithin scope levels).Advances := by
  induction levels with
  | zero => exact advances_parseChain scope (by simp)
  | succ levels ih =>
    exact advances_parseChain scope fun deeper same => by cases same; exact ih

theorem advances_parse (scope : Scope) : (parse scope).Advances :=
  advances_parseWithin scope nestingLimit

end Expr
end AudioMarkup
