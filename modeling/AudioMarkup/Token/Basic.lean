/-!
Tokens of the markup: a text, its kind, and the place where it ends. Columns count code points
and start at zero, lines start at one.

How text becomes tokens is not defined here.
-/

namespace AudioMarkup

inductive Token.Kind where
  | leftParen | rightParen | leftBrace | rightBrace | leftBracket | rightBracket
  | comma | arrow | colon | plus | minus | star | slash
  | string | number | name | className | builtin | endOfInput
  deriving DecidableEq, Repr, Inhabited

/-- A token, with the line and column at which its text ends. -/
structure Token where
  line : Nat
  column : Nat
  text : String
  kind : Token.Kind
  deriving DecidableEq, Repr, Inhabited

def Token.Kind.label : Token.Kind → String
  | .leftParen => "LParen"
  | .rightParen => "RParen"
  | .leftBrace => "LBrace"
  | .rightBrace => "RBrace"
  | .leftBracket => "LBracket"
  | .rightBracket => "RBracket"
  | .comma => "Comma"
  | .arrow => "Arrow"
  | .colon => "Colon"
  | .plus => "Plus"
  | .minus => "Minus"
  | .star => "Star"
  | .slash => "Slash"
  | .string => "String"
  | .number => "Number"
  | .name => "Name"
  | .className => "Class"
  | .builtin => "Builtin"
  | .endOfInput => "Eof"

def Token.Kind.all : List Token.Kind :=
  [.leftParen, .rightParen, .leftBrace, .rightBrace, .leftBracket, .rightBracket,
   .comma, .arrow, .colon, .plus, .minus, .star, .slash,
   .string, .number, .name, .className, .builtin, .endOfInput]

def Token.Kind.ofLabel? (label : String) : Option Token.Kind :=
  Token.Kind.all.find? (·.label == label)

theorem Token.Kind.ofLabel?_label (kind : Token.Kind) :
    Token.Kind.ofLabel? kind.label = some kind := by
  cases kind <;> decide

def Token.Kind.ofPunctuation? : Char → Option Token.Kind
  | '(' => some .leftParen
  | ')' => some .rightParen
  | '\x7b' => some .leftBrace
  | '\x7d' => some .rightBrace
  | '[' => some .leftBracket
  | ']' => some .rightBracket
  | ',' => some .comma
  | '>' => some .arrow
  | ':' => some .colon
  | '+' => some .plus
  | '-' => some .minus
  | '*' => some .star
  | '/' => some .slash
  | _ => none

/-- The column of the first code point of the text. A text broken over several lines can be longer
than its column says, and then starts at column zero. -/
def Token.startColumn (token : Token) : Nat :=
  token.column - token.text.length

/-- Keywords are ordinary names with a meaning in certain places. -/
def Token.isKeyword (token : Token) (word : String) : Bool :=
  token.kind == .name && token.text == word

end AudioMarkup
