/-!
A small YAML: mappings and sequences in block and flow form, with keys marked by a question mark or
not, plain and quoted scalars, comments and document marks. Anchors, aliases, tags, directives and
block scalars are refused.

A scalar can run over several lines: the blanks around a line break are dropped, a single break
becomes a blank, and of several breaks the first is dropped. Otherwise scalars are kept as written.
What a scalar means is left to the reader of the node.
-/

namespace AudioMarkup.Yaml

inductive Fault where
  | controlCharacter
  | unexpectedCharacter
  | unsupported
  | missingColon
  | misplacedEntry
  | misplacedKey
  | misplacedValue
  | unexpectedColon
  | unclosedQuote
  | documentMarkInQuote
  | unknownEscape
  | tabIndentation
  | unexpectedToken
  | secondDocument
  | mappingExpected
  | textExpected
  | booleanExpected
  | duplicateKey
  deriving DecidableEq, Repr, Inhabited

def Fault.message : Fault → String
  | .controlCharacter => "control characters are not allowed"
  | .unexpectedCharacter => "found character that cannot start any token"
  | .unsupported => "found a construct that is not supported"
  | .missingColon => "could not find expected ':'"
  | .misplacedEntry => "block sequence entries are not allowed in this context"
  | .misplacedKey => "mapping keys are not allowed in this context"
  | .misplacedValue => "mapping values are not allowed in this context"
  | .unexpectedColon => "found unexpected ':'"
  | .unclosedQuote => "found unexpected end of stream"
  | .documentMarkInQuote => "found unexpected document indicator"
  | .unknownEscape => "found unknown escape character"
  | .tabIndentation => "found a tab character that violates indentation"
  | .unexpectedToken => "did not find expected node content"
  | .secondDocument => "more than one document"
  | .mappingExpected => "expected a mapping"
  | .textExpected => "expected a string"
  | .booleanExpected => "expected a boolean"
  | .duplicateKey => "duplicate field"

inductive Token where
  | documentStart | documentEnd
  | blockSequenceStart | blockMappingStart | blockEnd
  | flowSequenceStart | flowSequenceEnd | flowMappingStart | flowMappingEnd
  | blockEntry | flowEntry | key | value
  | scalar (text : String) (plain : Bool)
  deriving DecidableEq, Repr, Inhabited

inductive Node where
  | scalar (text : String) (plain : Bool)
  | sequence (items : List Node)
  | mapping (entries : List (Node × Node))
  deriving Repr, Inhabited

def Node.absent : Node := .scalar "" true

/-! ### Scalars -/

def isSpace (c : Char) : Bool := c == ' ' || c == '\t'

def isBreak (c : Char) : Bool :=
  c == '\n' || c == '\r' || c == '\u0085' || c == '\u2028' || c == '\u2029'

def isGap (c : Char) : Bool := isSpace c || isBreak c

def atGap : List Char → Bool
  | [] => true
  | c :: _ => isGap c

structure Place where
  index : Nat
  line : Nat
  column : Nat
  deriving DecidableEq, Repr, Inhabited

/-- The place after some characters. A carriage return and a line feed are one line break. -/
def Place.after (place : Place) : List Char → Place
  | '\r' :: '\n' :: rest => after ⟨place.index + 2, place.line + 1, 0⟩ rest
  | c :: rest =>
    if isBreak c then after ⟨place.index + c.utf8Size, place.line + 1, 0⟩ rest
    else after ⟨place.index + c.utf8Size, place.line, place.column + 1⟩ rest
  | [] => place

structure Cursor where
  place : Place
  rest : List Char
  deriving Repr, Inhabited

def Cursor.drop (cursor : Cursor) (count : Nat) : Cursor :=
  ⟨cursor.place.after (cursor.rest.take count), cursor.rest.drop count⟩

def breakLength : List Char → Nat
  | '\r' :: '\n' :: _ => 2
  | _ => 1

/-- One of the marks between documents follows. They stand at the start of a line. -/
def Cursor.atDocumentMark (cursor : Cursor) : Bool :=
  cursor.place.column == 0 &&
    match cursor.rest with
    | '-' :: '-' :: '-' :: rest => atGap rest
    | '.' :: '.' :: '.' :: rest => atGap rest
    | _ => false

def breaksOf : List Char → List Char
  | [] => []
  | '\r' :: '\n' :: rest => '\n' :: breaksOf rest
  | c :: rest =>
    if c == '\n' || c == '\r' || c == '\u0085' then '\n' :: breaksOf rest
    else if isBreak c then c :: breaksOf rest
    else breaksOf rest

def foldGap (gap : List Char) : List Char :=
  match breaksOf gap with
  | [] => gap
  | ['\n'] => [' ']
  | '\n' :: more => more
  | breaks => breaks

/-! ### Plain scalars -/

/-- A plain scalar inside a flow collection may not have a colon before such a character. -/
def endsFlowColon (c : Char) : Bool := [',', '?', '[', ']', '\x7b', '\x7d'].contains c

def endsFlowPlain (c : Char) : Bool := [',', '[', ']', '\x7b', '\x7d'].contains c

def plainRun (inFlow : Bool) (before : List Char) : List Char → Except Fault (List Char)
  | [] => pure before.reverse
  | c :: rest =>
    if isGap c then pure before.reverse
    else if inFlow && c == ':' && rest.head?.any endsFlowColon then throw .unexpectedColon
    else if (c == ':' && atGap rest) || (inFlow && endsFlowPlain c) then pure before.reverse
    else plainRun inFlow (c :: before) rest

/-- A tab stands in the indentation of a line, before the column that the scalar has to reach. -/
def tabIndents (indent : Int) (place : Place) (broken : Bool) : List Char → Bool
  | [] => false
  | c :: rest =>
    (broken && c == '\t' && (place.column : Int) < indent) ||
      tabIndents indent (place.after [c]) (broken || isBreak c) rest

/-- Reads on in a plain scalar, after some text and a gap that counts only if more text follows.
The flag of the result tells whether the scalar ended after a line break. -/
def plainFrom (inFlow : Bool) (indent : Int) :
    Nat → Cursor → String → List Char → Except Fault (String × Bool × Cursor)
  | 0, cursor, text, gap => pure (text, gap.any isBreak, cursor)
  | fuel + 1, cursor, text, gap =>
    if cursor.atDocumentMark || cursor.rest.head? == some '#' then
      pure (text, gap.any isBreak, cursor)
    else do
      let run ← plainRun inFlow [] cursor.rest
      if run.isEmpty then pure (text, gap.any isBreak, cursor)
      else
        let text := text ++ String.ofList (foldGap gap ++ run)
        let cursor := cursor.drop run.length
        let gap := cursor.rest.takeWhile isGap
        if gap.isEmpty then pure (text, false, cursor)
        else if tabIndents indent cursor.place false gap then throw .tabIndentation
        else
          let cursor := cursor.drop gap.length
          if !inFlow && (cursor.place.column : Int) < indent then
            pure (text, gap.any isBreak, cursor)
          else plainFrom inFlow indent fuel cursor text gap

def plainScalar (inFlow : Bool) (indent : Int) (length : Nat) (cursor : Cursor) :
    Except Fault (String × Bool × Cursor) :=
  plainFrom inFlow indent length cursor "" []

/-! ### Quoted scalars -/

def hexValue? (digits : List Char) : Option Nat :=
  digits.foldl (fun total? c => total?.bind fun total =>
    if '0' ≤ c && c ≤ '9' then some (total * 16 + (c.toNat - '0'.toNat))
    else if 'a' ≤ c && c ≤ 'f' then some (total * 16 + (c.toNat - 'a'.toNat + 10))
    else if 'A' ≤ c && c ≤ 'F' then some (total * 16 + (c.toNat - 'A'.toNat + 10))
    else none) (some 0)

def codedChar? (digits : List Char) (count : Nat) : Option Char :=
  if digits.length = count then
    (hexValue? digits).bind fun code => if code.isValidChar then some (Char.ofNat code) else none
  else none

/-- The character of an escape, and how many characters after the backslash write it. -/
def escaped? : List Char → Option (Char × Nat)
  | '0' :: _ => some ('\x00', 1)
  | 'a' :: _ => some ('\x07', 1)
  | 'b' :: _ => some ('\x08', 1)
  | 't' :: _ => some ('\t', 1)
  | '\t' :: _ => some ('\t', 1)
  | 'n' :: _ => some ('\n', 1)
  | 'v' :: _ => some ('\x0b', 1)
  | 'f' :: _ => some ('\x0c', 1)
  | 'r' :: _ => some ('\r', 1)
  | 'e' :: _ => some ('\x1b', 1)
  | ' ' :: _ => some (' ', 1)
  | '"' :: _ => some ('"', 1)
  | '/' :: _ => some ('/', 1)
  | '\\' :: _ => some ('\\', 1)
  | 'N' :: _ => some ('\u0085', 1)
  | '_' :: _ => some ('\u00a0', 1)
  | 'L' :: _ => some ('\u2028', 1)
  | 'P' :: _ => some ('\u2029', 1)
  | 'x' :: rest => (codedChar? (rest.take 2) 2).map (·, 3)
  | 'u' :: rest => (codedChar? (rest.take 4) 4).map (·, 5)
  | 'U' :: rest => (codedChar? (rest.take 8) 8).map (·, 9)
  | _ => none

/-- The characters of a quoted scalar up to a blank or the closing quote, after some characters in
reverse. The flag tells whether an escaped line break was met, which joins two lines. -/
def quotedRun (quote : Char) :
    Nat → List Char → Cursor → Except Fault (List Char × Bool × Cursor)
  | 0, before, cursor => pure (before.reverse, false, cursor)
  | fuel + 1, before, cursor =>
    match cursor.rest with
    | [] => pure (before.reverse, false, cursor)
    | c :: rest =>
      if isGap c then pure (before.reverse, false, cursor)
      else if c == quote then
        if quote == '\x27' && rest.head? == some quote then
          quotedRun quote fuel (quote :: before) (cursor.drop 2)
        else pure (before.reverse, false, cursor)
      else if quote == '"' && c == '\\' then
        if rest.head?.any isBreak then
          pure (before.reverse, true, cursor.drop (1 + breakLength rest))
        else
          match escaped? rest with
          | none => throw .unknownEscape
          | some (character, length) =>
            quotedRun quote fuel (character :: before) (cursor.drop (1 + length))
      else quotedRun quote fuel (c :: before) (cursor.drop 1)

def quotedFrom (quote : Char) (length : Nat) :
    Nat → Cursor → String → Except Fault (String × Cursor)
  | 0, _, _ => throw .unclosedQuote
  | fuel + 1, cursor, text => do
    if cursor.atDocumentMark then throw .documentMarkInQuote
    if cursor.rest.isEmpty then throw .unclosedQuote
    let (run, joined, cursor) ← quotedRun quote length [] cursor
    if cursor.rest.head? == some quote then pure (text ++ String.ofList run, cursor.drop 1)
    else
      let gap := cursor.rest.takeWhile isGap
      let between := if joined then breaksOf gap else foldGap gap
      quotedFrom quote length fuel (cursor.drop gap.length) (text ++ String.ofList (run ++ between))

def quotedScalar (quote : Char) (length : Nat) (cursor : Cursor) :
    Except Fault (String × Cursor) :=
  quotedFrom quote length (length + 1) (cursor.drop 1) ""

end AudioMarkup.Yaml
