import AudioMarkup.Text.Basic
import AudioMarkup.Token.Basic

/-!
Cutting text into lexemes. The scanner is a state machine over the characters of a text: `step`
takes one character, `finish` is what the end of the text does. It accepts every text.

A quote opens a string, which ends at the next quote or at the end of the text; line feeds inside
it are dropped and there are no escapes. Outside strings a lexeme ends at a blank, at a quote, or
at a punctuation character.

A lexeme without a kind gets one from its text: punctuation, a number, a builtin, a class, or,
failing all of these, a name.
-/

namespace AudioMarkup

structure Lexeme where
  line : Nat
  column : Nat
  text : String
  kind? : Option Token.Kind
  deriving DecidableEq, Repr, Inhabited

structure Scanner where
  line : Nat
  column : Nat
  pending : String
  inString : Bool
  lexemes : Array Lexeme

namespace Scanner

def start : Scanner where
  line := 1
  column := 0
  pending := ""
  inString := false
  lexemes := #[]

def emit (scanner : Scanner) (text : String) (kind? : Option Token.Kind) : Scanner :=
  { scanner with lexemes := scanner.lexemes.push ⟨scanner.line, scanner.column, text, kind?⟩ }

def flush (scanner : Scanner) : Scanner :=
  if scanner.pending.isEmpty then scanner
  else { scanner.emit scanner.pending none with pending := "" }

def advance (scanner : Scanner) : Scanner :=
  { scanner with column := scanner.column + 1 }

def breakLine (scanner : Scanner) : Scanner :=
  { scanner with line := scanner.line + 1, column := 0 }

def collect (scanner : Scanner) (c : Char) : Scanner :=
  { scanner with pending := scanner.pending.push c, column := scanner.column + 1 }

def openString (scanner : Scanner) : Scanner :=
  { scanner.flush.advance with inString := true }

/-- Completes the string under way; an empty one counts. -/
def closeString (scanner : Scanner) : Scanner :=
  { scanner.emit scanner.pending (some .string) with pending := "", inString := false }

def stepInString (scanner : Scanner) (c : Char) : Scanner :=
  if c = '"' then scanner.closeString.advance
  else if c = '\n' then scanner.breakLine
  else scanner.collect c

def stepBare (scanner : Scanner) (c : Char) : Scanner :=
  if c = '"' then scanner.openString
  else if c = '\n' then scanner.flush.breakLine
  else if Text.isBlank c then scanner.flush.advance
  else match Token.Kind.ofPunctuation? c with
    | some kind => scanner.flush.advance.emit c.toString (some kind)
    | none => scanner.collect c

def step (scanner : Scanner) (c : Char) : Scanner :=
  if scanner.inString then scanner.stepInString c else scanner.stepBare c

def finish (scanner : Scanner) : List Lexeme :=
  (if scanner.inString then scanner.closeString else scanner.flush).lexemes.toList

end Scanner

def Lexeme.scan (source : String) : List Lexeme :=
  (source.toList.foldl Scanner.step Scanner.start).finish

/-! ### Kinds -/

def Text.isDigits (text : List Char) : Bool :=
  !text.isEmpty && text.all Char.isDigit

/-- A run of digits, with a fraction of one or more digits if there is a point. -/
def Text.isDecimal (text : List Char) : Bool :=
  match text.dropWhile (· != '.') with
  | [] => Text.isDigits text
  | _ :: fraction => Text.isDigits (text.takeWhile (· != '.')) && Text.isDigits fraction

def Text.isNumeral : List Char → Bool
  | '-' :: rest => Text.isDecimal rest
  | text => Text.isDecimal text

def Token.Kind.ofText (text : String) : Token.Kind :=
  match text.toList with
  | [] => .name
  | first :: rest =>
    match rest, Token.Kind.ofPunctuation? first with
    | [], some kind => kind
    | _, _ =>
      if Text.isNumeral (first :: rest) then .number
      else if first = '@' then .builtin
      else if Text.isCapital first then .className
      else .name

def Lexeme.classify (lexeme : Lexeme) : Token where
  line := lexeme.line
  column := lexeme.column
  text := lexeme.text
  kind := lexeme.kind?.getD (Token.Kind.ofText lexeme.text)

def Token.scan (source : String) : List Token :=
  (Lexeme.scan source).map Lexeme.classify

end AudioMarkup
