import AudioMarkup.Yaml.Basic

/-!
Tokens of YAML. Indentation becomes tokens: a column further right than the current one opens a
collection, a column further left closes those it leaves.

That something is a key shows only at the colon after it, unless a question mark says so before. So
the scanner remembers where a key may have begun, and puts the key's token there when the colon
comes. A key without a question mark fits on one line and in 1024 bytes.
-/

namespace AudioMarkup.Yaml

/-- A place where a key may have begun, and the number of tokens before it. A key is required
where a line begins in the column of a mapping. -/
structure PossibleKey where
  position : Nat
  place : Place
  required : Bool
  deriving Repr, Inhabited

/-- The state of the scanner. The column of the innermost block collection is -1 outside all of
them. There is a possible key for each open flow collection and one for the block around them.
The length is that of the whole text and bounds every loop over it. -/
structure Scanner where
  length : Nat
  cursor : Cursor
  indent : Int
  outerIndents : List Int
  key? : Option PossibleKey
  outerKeys : List (Option PossibleKey)
  keyAllowed : Bool
  tokens : Array Token
  deriving Inhabited

namespace Scanner

def start (text : List Char) : Scanner where
  length := text.length
  cursor := ⟨⟨0, 0, 0⟩, text⟩
  indent := -1
  outerIndents := []
  key? := none
  outerKeys := []
  keyAllowed := true
  tokens := #[]

def inFlow (scanner : Scanner) : Bool := !scanner.outerKeys.isEmpty

def column (scanner : Scanner) : Int := scanner.cursor.place.column

def emit (scanner : Scanner) (token : Token) : Scanner :=
  { scanner with tokens := scanner.tokens.push token }

def insert (scanner : Scanner) (position : Nat) (token : Token) : Scanner :=
  { scanner with tokens := scanner.tokens.insertIdxIfInBounds position token }

def skip (scanner : Scanner) (count : Nat) : Scanner :=
  { scanner with cursor := scanner.cursor.drop count }

/-- Skips a byte order mark at the start of a line. What follows it is not at the start of the line
any more. -/
def skipMark (scanner : Scanner) : Scanner :=
  if scanner.column == 0 && scanner.cursor.rest.head? == some '\ufeff' then scanner.skip 1
  else scanner

/-- Skips blanks, comments and line breaks. In a block a tab is no blank where a key may begin. -/
def skipGap : Nat → Scanner → Scanner
  | 0, scanner => scanner
  | fuel + 1, scanner =>
    let scanner := scanner.skipMark
    let tabs := scanner.inFlow || !scanner.keyAllowed
    let blanks := scanner.cursor.rest.takeWhile fun c => c == ' ' || (tabs && c == '\t')
    let scanner := scanner.skip blanks.length
    let scanner :=
      if scanner.cursor.rest.head? == some '#' then
        scanner.skip (scanner.cursor.rest.takeWhile (!isBreak ·)).length
      else scanner
    if scanner.cursor.rest.head?.any isBreak then
      let scanner := scanner.skip (breakLength scanner.cursor.rest)
      skipGap fuel (if scanner.inFlow then scanner else { scanner with keyAllowed := true })
    else scanner

/-- Gives up the possible key; a required one may not be given up. -/
def dropKey (scanner : Scanner) : Except Fault Scanner :=
  if scanner.key?.any (·.required) then throw .missingColon
  else pure { scanner with key? := none }

def isStale (place : Place) (key : PossibleKey) : Bool :=
  key.place.line < place.line || key.place.index + 1024 < place.index

def dropStaleKeys (scanner : Scanner) : Except Fault Scanner := do
  let place := scanner.cursor.place
  let refresh (key? : Option PossibleKey) : Except Fault (Option PossibleKey) :=
    match key? with
    | some key =>
      if isStale place key then if key.required then throw .missingColon else pure none
      else pure (some key)
    | none => pure none
  pure { scanner with
    key? := ← refresh scanner.key?
    outerKeys := ← scanner.outerKeys.mapM refresh }

def saveKey (scanner : Scanner) : Except Fault Scanner := do
  if scanner.keyAllowed then
    let required := !scanner.inFlow && scanner.indent == scanner.column
    let scanner ← scanner.dropKey
    pure { scanner with key? := some ⟨scanner.tokens.size, scanner.cursor.place, required⟩ }
  else pure scanner

def closeBlocks (column : Int) : List Int → Scanner → Scanner
  | outer :: rest, scanner =>
    if column < scanner.indent then
      closeBlocks column rest { scanner.emit .blockEnd with indent := outer, outerIndents := rest }
    else scanner
  | [], scanner => scanner

def unindent (scanner : Scanner) (column : Int) : Scanner :=
  if scanner.inFlow then scanner else closeBlocks column scanner.outerIndents scanner

def indentTo (scanner : Scanner) (column : Int) (position : Nat) (token : Token) : Scanner :=
  if !scanner.inFlow && scanner.indent < column then
    { scanner.insert position token with
      indent := column, outerIndents := scanner.indent :: scanner.outerIndents }
  else scanner

def scanDocumentMark (scanner : Scanner) (token : Token) : Except Fault Scanner := do
  let scanner ← (scanner.unindent (-1)).dropKey
  pure ({ scanner with keyAllowed := false }.skip 3 |>.emit token)

def openFlow (scanner : Scanner) (token : Token) : Except Fault Scanner := do
  let scanner ← scanner.saveKey
  let scanner := { scanner with
    outerKeys := scanner.key? :: scanner.outerKeys, key? := none, keyAllowed := true }
  pure (scanner.skip 1 |>.emit token)

def closeFlow (scanner : Scanner) (token : Token) : Except Fault Scanner := do
  let scanner ← scanner.dropKey
  let scanner := match scanner.outerKeys with
    | outer :: rest => { scanner with key? := outer, outerKeys := rest }
    | [] => scanner
  pure ({ scanner with keyAllowed := false }.skip 1 |>.emit token)

def scanFlowEntry (scanner : Scanner) : Except Fault Scanner := do
  let scanner ← scanner.dropKey
  pure ({ scanner with keyAllowed := true }.skip 1 |>.emit .flowEntry)

def scanBlockEntry (scanner : Scanner) : Except Fault Scanner := do
  if !scanner.inFlow && !scanner.keyAllowed then throw .misplacedEntry
  let scanner := scanner.indentTo scanner.column scanner.tokens.size .blockSequenceStart
  let scanner ← scanner.dropKey
  pure ({ scanner with keyAllowed := true }.skip 1 |>.emit .blockEntry)

/-- A question mark before a key. In a flow collection no other key may begin until the next
comma. -/
def scanKey (scanner : Scanner) : Except Fault Scanner := do
  if !scanner.inFlow && !scanner.keyAllowed then throw .misplacedKey
  let scanner := scanner.indentTo scanner.column scanner.tokens.size .blockMappingStart
  let scanner ← scanner.dropKey
  pure ({ scanner with keyAllowed := !scanner.inFlow }.skip 1 |>.emit .key)

def scanValue (scanner : Scanner) : Except Fault Scanner := do
  match scanner.key? with
  | some key =>
    let scanner := scanner.insert key.position .key
    let scanner := scanner.indentTo key.place.column key.position .blockMappingStart
    pure ({ scanner with key? := none, keyAllowed := false }.skip 1 |>.emit .value)
  | none =>
    if !scanner.inFlow && !scanner.keyAllowed then throw .misplacedValue
    let scanner := scanner.indentTo scanner.column scanner.tokens.size .blockMappingStart
    pure ({ scanner with keyAllowed := !scanner.inFlow }.skip 1 |>.emit .value)

def scanQuoted (scanner : Scanner) (quote : Char) : Except Fault Scanner := do
  let scanner ← scanner.saveKey
  let (text, cursor) ← quotedScalar quote scanner.length scanner.cursor
  pure ({ scanner with keyAllowed := false, cursor }.emit (.scalar text false))

def scanPlain (scanner : Scanner) : Except Fault Scanner := do
  let scanner ← scanner.saveKey
  let (text, broken, cursor) ←
    plainScalar scanner.inFlow (scanner.indent + 1) scanner.length scanner.cursor
  pure ({ scanner with keyAllowed := broken, cursor }.emit (.scalar text true))

def indicators : List Char :=
  ['-', '?', ':', ',', '[', ']', '\x7b', '\x7d', '#', '&', '*', '!', '|', '>', '\x27', '"', '%', '@',
   '\x60']

def scanToken (scanner : Scanner) (c : Char) (rest : List Char) : Except Fault Scanner :=
  if scanner.cursor.atDocumentMark then
    scanner.scanDocumentMark (if c == '-' then .documentStart else .documentEnd)
  else if c == '[' then scanner.openFlow .flowSequenceStart
  else if c == '\x7b' then scanner.openFlow .flowMappingStart
  else if c == ']' then scanner.closeFlow .flowSequenceEnd
  else if c == '\x7d' then scanner.closeFlow .flowMappingEnd
  else if c == ',' then scanner.scanFlowEntry
  else if c == '-' && atGap rest then scanner.scanBlockEntry
  else if c == '?' && (scanner.inFlow || atGap rest) then scanner.scanKey
  else if c == ':' && (scanner.inFlow || atGap rest) then scanner.scanValue
  else if c == '\x27' || c == '"' then scanner.scanQuoted c
  else if ['*', '&', '!', '|', '>', '%'].contains c then throw .unsupported
  else if !(isGap c || indicators.contains c) || c == '-' || c == '?' || c == ':' then
    scanner.scanPlain
  else throw .unexpectedCharacter

def finish (scanner : Scanner) : Except Fault (Array Token) := do
  let scanner ← (scanner.unindent (-1)).dropKey
  pure scanner.tokens

/-- Scans to the end of the text. Every round takes at least one character. -/
def run : Nat → Scanner → Except Fault (Array Token)
  | 0, scanner => scanner.finish
  | fuel + 1, scanner => do
    let scanner ← (skipGap (scanner.length + 1) scanner).dropStaleKeys
    let scanner := scanner.unindent scanner.column
    match scanner.cursor.rest with
    | [] => scanner.finish
    | c :: rest => run fuel (← scanner.scanToken c rest)

end Scanner

def isAllowed (c : Char) : Bool :=
  c == '\t' || c == '\n' || c == '\r' || (' ' ≤ c && c ≤ '~') || c == '\u0085' ||
    ('\u00a0' ≤ c && c ≤ '\ufffd') || 0x10000 ≤ c.toNat

def Token.scan (source : String) : Except Fault (List Token) := do
  let text := source.toList
  if !text.all isAllowed then throw .controlCharacter
  let tokens ← Scanner.run (text.length + 1) (.start text)
  pure tokens.toList

end AudioMarkup.Yaml
