import AudioMarkup.Yaml.Scan

/-!
Documents of YAML. A text holds one document; if it holds none, the document is absent.

The readers below take a number of steps that is large enough for the tokens at hand: every call
is paid for by a token or by an enclosing call that took one.
-/

namespace AudioMarkup.Yaml

mutual

/-- A node. In a block, collections by indentation may follow; as a value in a mapping, so may the
entries of a sequence in the column of the mapping. -/
def parseNode (inBlock entries : Bool) : Nat → List Token → Except Fault (Node × List Token)
  | 0, _ => throw .unexpectedToken
  | fuel + 1, tokens =>
    match tokens with
    | .scalar text plain :: rest => pure (.scalar text plain, rest)
    | .flowSequenceStart :: rest => do
      let (items, rest) ← parseFlowSequence true fuel rest
      pure (.sequence items, rest)
    | .flowMappingStart :: rest => do
      let (fields, rest) ← parseFlowMapping true fuel rest
      pure (.mapping fields, rest)
    | .blockSequenceStart :: rest =>
      if inBlock then do
        let (items, rest) ← parseBlockSequence fuel rest
        pure (.sequence items, rest)
      else throw .unexpectedToken
    | .blockMappingStart :: rest =>
      if inBlock then do
        let (fields, rest) ← parseBlockMapping fuel rest
        pure (.mapping fields, rest)
      else throw .unexpectedToken
    | .blockEntry :: _ =>
      if entries then do
        let (items, rest) ← parseEntries fuel tokens
        pure (.sequence items, rest)
      else throw .unexpectedToken
    | _ => throw .unexpectedToken

def parseOptional (inBlock entries : Bool) (stops : List Token) :
    Nat → List Token → Except Fault (Node × List Token)
  | 0, _ => throw .unexpectedToken
  | fuel + 1, tokens =>
    if tokens.head?.any stops.contains then pure (.absent, tokens)
    else parseNode inBlock entries fuel tokens

def parseBlockSequence : Nat → List Token → Except Fault (List Node × List Token)
  | 0, _ => throw .unexpectedToken
  | fuel + 1, tokens =>
    match tokens with
    | .blockEntry :: rest => do
      let (item, rest) ← parseOptional true false [.blockEntry, .blockEnd] fuel rest
      let (items, rest) ← parseBlockSequence fuel rest
      pure (item :: items, rest)
    | .blockEnd :: rest => pure ([], rest)
    | _ => throw .unexpectedToken

/-- The entries of a sequence in the column of the mapping around it. -/
def parseEntries : Nat → List Token → Except Fault (List Node × List Token)
  | 0, _ => throw .unexpectedToken
  | fuel + 1, tokens =>
    match tokens with
    | .blockEntry :: rest => do
      let (item, rest) ← parseOptional true false [.blockEntry, .key, .value, .blockEnd] fuel rest
      let (items, rest) ← parseEntries fuel rest
      pure (item :: items, rest)
    | _ => pure ([], tokens)

def parseBlockMapping : Nat → List Token → Except Fault (List (Node × Node) × List Token)
  | 0, _ => throw .unexpectedToken
  | fuel + 1, tokens =>
    match tokens with
    | .key :: rest => do
      let (key, rest) ← parseOptional true true [.key, .value, .blockEnd] fuel rest
      let (value, rest) ← match rest with
        | .value :: rest => parseOptional true true [.key, .value, .blockEnd] fuel rest
        | rest => pure (.absent, rest)
      let (fields, rest) ← parseBlockMapping fuel rest
      pure ((key, value) :: fields, rest)
    | .blockEnd :: rest => pure ([], rest)
    | _ => throw .unexpectedToken

/-- The items of a flow sequence, up to its closing bracket. A pair is a mapping with one field. A
question mark without a key takes the place of the mark that follows it, which is passed over. -/
def parseFlowSequence (first : Bool) : Nat → List Token → Except Fault (List Node × List Token)
  | 0, _ => throw .unexpectedToken
  | fuel + 1, tokens => do
    let tokens ← parseFlowEntry first .flowSequenceEnd tokens
    match tokens with
    | .flowSequenceEnd :: rest => pure ([], rest)
    | .key :: rest => do
      let (key, rest) ← match rest with
        | .value :: rest | .flowEntry :: rest | .flowSequenceEnd :: rest => pure (.absent, rest)
        | rest => parseNode false false fuel rest
      let (value, rest) ← match rest with
        | .value :: rest => parseOptional false false [.flowEntry, .flowSequenceEnd] fuel rest
        | rest => pure (.absent, rest)
      let (items, rest) ← parseFlowSequence false fuel rest
      pure (.mapping [(key, value)] :: items, rest)
    | tokens => do
      let (item, rest) ← parseNode false false fuel tokens
      let (items, rest) ← parseFlowSequence false fuel rest
      pure (item :: items, rest)

/-- The fields of a flow mapping, up to its closing brace. A key may lack its value, and a question
mark its key. -/
def parseFlowMapping (first : Bool) :
    Nat → List Token → Except Fault (List (Node × Node) × List Token)
  | 0, _ => throw .unexpectedToken
  | fuel + 1, tokens => do
    let tokens ← parseFlowEntry first .flowMappingEnd tokens
    match tokens with
    | .flowMappingEnd :: rest => pure ([], rest)
    | .key :: rest => do
      let (key, rest) ← parseOptional false false [.value, .flowEntry, .flowMappingEnd] fuel rest
      let (value, rest) ← match rest with
        | .value :: rest => parseOptional false false [.flowEntry, .flowMappingEnd] fuel rest
        | rest => pure (.absent, rest)
      let (fields, rest) ← parseFlowMapping false fuel rest
      pure ((key, value) :: fields, rest)
    | tokens => do
      let (key, rest) ← parseNode false false fuel tokens
      let (fields, rest) ← parseFlowMapping false fuel rest
      pure ((key, .absent) :: fields, rest)

/-- The comma between two items of a flow collection. One may also stand before the end. -/
def parseFlowEntry (first : Bool) (close : Token) (tokens : List Token) :
    Except Fault (List Token) :=
  match tokens with
  | .flowEntry :: rest => if first then throw .unexpectedToken else pure rest
  | token :: _ => if first || token == close then pure tokens else throw .unexpectedToken
  | [] => throw .unexpectedToken

end

def parseContent (tokens : List Token) : Except Fault (Node × List Token) :=
  match tokens with
  | [] | .documentStart :: _ | .documentEnd :: _ => pure (.absent, tokens)
  | _ => parseNode true false (2 * tokens.length + 2) tokens

def parseEnd : List Token → Except Fault Unit
  | [] => pure ()
  | .documentEnd :: rest => parseEnd rest
  | .documentStart :: _ => throw .secondDocument
  | _ => throw .unexpectedToken

def Node.parse (source : String) : Except Fault Node := do
  match ← Token.scan source with
  | [] => pure .absent
  | .documentEnd :: _ => throw .unexpectedToken
  | .documentStart :: tokens => do
    let (node, rest) ← parseContent tokens
    parseEnd rest
    pure node
  | tokens => do
    let (node, rest) ← parseContent tokens
    parseEnd rest
    pure node

end AudioMarkup.Yaml
