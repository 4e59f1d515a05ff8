import AudioMarkup.Token.Basic

/-!
Diagnostics: why a text is not a program, and at which token. The fault says what is wrong; the
wording and the position are computed from the fault and the token.
-/

namespace AudioMarkup

inductive Fault where
  | unexpectedToken
  | unknownNodeClass
  | unknownProperty (className : String)
  | unknownBuiltin
  | alreadyDefined
  | undefinedReference
  | anonymousExport
  | nestingTooDeep (limit : Nat)
  | reservedName
  | exhaustedInput
  deriving DecidableEq, Repr, Inhabited

/-- The name of the kind of fault. A class without a node is an unexpected token. -/
def Fault.label : Fault → String
  | .unexpectedToken => "UnexpectedToken"
  | .unknownNodeClass => "UnexpectedToken"
  | .unknownProperty _ => "UnknownProperty"
  | .unknownBuiltin => "UnknownBuiltin"
  | .alreadyDefined => "AlreadyDefined"
  | .undefinedReference => "UndefinedReference"
  | .anonymousExport => "AnonymousExport"
  | .nestingTooDeep _ => "NestingTooDeep"
  | .reservedName => "ReservedName"
  | .exhaustedInput => "ExhaustedInput"

def Fault.isNestingTooDeep : Fault → Bool
  | .nestingTooDeep _ => true
  | _ => false

structure Diagnostic where
  fault : Fault
  token : Token
  deriving DecidableEq, Repr, Inhabited

namespace Diagnostic

def line (diagnostic : Diagnostic) : Nat := diagnostic.token.line

def column (diagnostic : Diagnostic) : Nat := diagnostic.token.startColumn

def message (diagnostic : Diagnostic) : String :=
  let text := diagnostic.token.text
  match diagnostic.fault with
  | .unexpectedToken => "unexpected token '" ++ text ++ "'"
  | .unknownNodeClass => "unknown node type '" ++ text ++ "'"
  | .unknownProperty className => "unknown property '" ++ text ++ "' for " ++ className
  | .unknownBuiltin => "unknown builtin '" ++ text ++ "'"
  | .alreadyDefined => "object '" ++ text ++ "' is already defined"
  | .undefinedReference => "undefined reference '" ++ text ++ "'"
  | .anonymousExport => "cannot export anonymous " ++ text
  | .nestingTooDeep limit => "expression nested deeper than " ++ toString limit ++ " levels"
  | .reservedName => "name '" ++ text ++ "' is reserved for generated code"
  | .exhaustedInput => "unexpected end of input"

def render (diagnostic : Diagnostic) : String :=
  "[" ++ toString diagnostic.line ++ ":" ++ toString diagnostic.column ++ "] " ++
    diagnostic.fault.label ++ ": " ++ diagnostic.message

end Diagnostic
end AudioMarkup
