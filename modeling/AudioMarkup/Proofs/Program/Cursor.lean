import AudioMarkup.Proofs.Binary64.Numerals
import AudioMarkup.Proofs.Cursor
import AudioMarkup.Proofs.Program.Layout

/-!
Programs read by position. The readers are those of expressions, series and definitions, with two
differences: each look at a token may crash, and a property is set in the round that reads it, which
crashes if the node has no such property or the value is not of its shape.

`Cursor.readProgram_eq` states that none of this happens, whatever the tokens are, and that the
program or the diagnostic is that of `Program.ofTokens`.
-/

namespace AudioMarkup
namespace Cursor

section Readers

variable (tokens : Array Token)

/-! ### Expressions -/

def readGroup (deeper? : Option (Cursor Expr)) (blamed : Token) : Cursor Expr :=
  match deeper? with
  | none => fail (.nestingTooDeep nestingLimit) blamed
  | some deeper => do
    let inner ← deeper
    let _ ← expect tokens .rightParen
    pure inner

def readBuiltin (deeper? : Option (Cursor Expr)) (token : Token) : Cursor Expr :=
  match Builtin.find? token.text with
  | some (.constant value) => pure (.number value)
  | some (.function function) => do
    let _ ← expect tokens .leftParen
    let argument ← readGroup tokens deeper? token
    pure (.call function argument)
  | none => fail .unknownBuiltin token

def readNumber (token : Token) : Cursor Expr :=
  match Numeral.read? token.text with
  | some value => pure (.number value)
  | none => fail .unexpectedToken token

def readOperand (scope : Scope) (deeper? : Option (Cursor Expr)) : Cursor Expr := do
  let token ← expectAny tokens Expr.operandStart
  match token.kind with
  | .number => readNumber token
  | .builtin => readBuiltin tokens deeper? token
  | .leftParen => do
    let inner ← readGroup tokens deeper? token
    pure (.group inner)
  | _ =>
    if scope.resolves token.text then pure (.reference token.text)
    else fail .undefinedReference token

def readTail (deeper? : Option (Cursor Expr)) (left : Expr) : Cursor Expr := do
  match ← takeMap tokens Expr.operatorOf? with
  | none => pure left
  | some (operator, token) =>
    match deeper? with
    | none => fail (.nestingTooDeep nestingLimit) token
    | some deeper => do
      let right ← deeper
      pure (.operation operator left right)

def readChain (scope : Scope) (deeper? : Option (Cursor Expr)) : Cursor Expr := do
  let left ← readOperand tokens scope deeper?
  readTail tokens deeper? left

def readWithin (scope : Scope) : Nat → Cursor Expr
  | 0 => readChain tokens scope none
  | levels + 1 => readChain tokens scope (some (readWithin scope levels))

def readExpr (scope : Scope) : Cursor Expr := readWithin tokens scope nestingLimit

/-! ### Series -/

def readItems (scope : Scope) : Cursor Series := do
  let addItem (items : Array Expr) : Cursor (Array Expr) := do
    let item ← readExpr tokens scope
    pure (items.push item)
  let items ← delimited tokens .leftBracket .rightBracket addItem #[]
  pure (.list items.toList)

def readRangeKeyword : Cursor Unit := do
  let token ← expect tokens .name
  if token.isKeyword Series.rangeKeyword then pure () else fail .unexpectedToken token

def readRange (scope : Scope) : Cursor Series := do
  let _ ← expect tokens .leftBracket
  let index ← expect tokens .name
  let _ ← expect tokens .comma
  let inner := scope.withIndex index.text
  let lower ← readExpr tokens inner
  readRangeKeyword tokens
  let upper ← readExpr tokens inner
  let _ ← expect tokens .comma
  let body ← readExpr tokens inner
  let _ ← expect tokens .rightBracket
  pure (.range index.text lower upper body)

/-- A series. The position is kept, and set again for the second attempt. -/
def readSeries (scope : Scope) : Cursor Series := do
  let start ← get
  recover (readItems tokens scope) fun diagnostic => do
    if diagnostic.fault.isNestingTooDeep then fail diagnostic.fault diagnostic.token
    else
      set start
      readRange tokens scope

/-! ### Definitions -/

def readValue (scope : Scope) : Shape → Cursor PropertyValue
  | .text => do
    let token ← expect tokens .string
    pure (.text token.text)
  | .expression => do
    let expr ← readExpr tokens scope
    pure (.expression expr)
  | .series => do
    let series ← readSeries tokens scope
    pure (.series series)

def assign (node : Node) (property : Property) (value : PropertyValue) : Cursor Node :=
  match node.set? property value with
  | some node => pure node
  | none => crash (.noSetting node property value)

def readProperty (nodeClass : NodeClass) : Cursor Property := do
  let token ← expect tokens .name
  match nodeClass.property? token.text with
  | none => fail (.unknownProperty nodeClass.name) token
  | some property => do
    let _ ← expect tokens .colon
    pure property

def readSetting (nodeClass : NodeClass) (scope : Scope) (node : Node) : Cursor Node := do
  let property ← readProperty tokens nodeClass
  let value ← readValue tokens scope property.shape
  assign node property value

def readSettings (scope : Scope) (node : Node) : Cursor Node :=
  delimited tokens .leftBrace .rightBrace (readSetting tokens node.nodeClass scope) node

def readClass : Cursor (Token × NodeClass) := do
  let token ← expect tokens .className
  match NodeClass.ofName? token.text with
  | none => fail .unknownNodeClass token
  | some nodeClass => pure (token, nodeClass)

def readName (context : String) (defined : List String) : Cursor (Option String) := do
  match ← takeIf tokens (fun token => token.kind == .name || token.kind == .className) with
  | none => pure none
  | some token =>
    if isReservedName context token.text then fail .reservedName token
    else if defined.contains token.text then fail .alreadyDefined token
    else pure (some token.text)

def readExport (classToken : Token) (name? : Option String) : Cursor Bool := do
  match ← peek? tokens with
  | none => pure false
  | some token =>
    if token.isKeyword Definition.exportKeyword then
      if name?.isNone then fail .anonymousExport classToken
      let _ ← next tokens
      pure true
    else pure false

def readDefinition (context : String) (defined : List String) : Cursor Definition := do
  let (token, nodeClass) ← readClass tokens
  let name? ← readName tokens context defined
  let node ← readSettings tokens (.ofNames defined) (Node.initial nodeClass)
  let exported ← readExport tokens token name?
  pure { name?, exported, node }

/-! ### Programs -/

def readDefinitions (context : String) : Nat → List String → Array Definition →
    Cursor (Array Definition)
  | 0, _, _ => crash .noRound
  | rounds + 1, defined, definitions => do
    if ← hasNext tokens then
      let definition ← readDefinition tokens context defined
      readDefinitions context rounds (definition.name?.toList ++ defined)
        (definitions.push definition)
    else pure definitions

end Readers

/-- The tokens with the end marker behind them, which is placed where the last token ends. -/
def marked (tokens : List Token) : Array Token :=
  (tokens ++ [(Stream.ofTokens tokens).stop]).toArray

def readProgram (context : String) (tokens : List Token) : Except Halt Program :=
  match readDefinitions (marked tokens) context (marked tokens).size [] #[] 0 with
  | .ok definitions _ => .ok { definitions := definitions.toList }
  | .error halt _ => .error halt

/-! ### No crash -/

variable {tokens : Array Token} {deeper? : Option (Cursor Expr)} {below? : Option (Parse Expr)}

private theorem simulates_readGroup (blamed : Token)
    (deeper : Option.Rel (Simulates tokens Eq) deeper? below?) :
    Simulates tokens Eq (readGroup tokens deeper? blamed) (Expr.parseGroup below? blamed) := by
  cases deeper with
  | none => exact simulates_fail _ blamed
  | some simulates =>
      apply simulates.andThen
      intro inner
      apply (simulates_expect _).andThen
      intro _
      exact simulates_pure rfl

private theorem simulates_readBuiltin (token : Token)
    (deeper : Option.Rel (Simulates tokens Eq) deeper? below?) :
    Simulates tokens Eq (readBuiltin tokens deeper? token) (Expr.parseBuiltin below? token) := by
  rw [readBuiltin, Expr.parseBuiltin]
  cases Builtin.find? token.text with
  | none => exact simulates_fail _ token
  | some builtin =>
      cases builtin with
      | constant value => exact simulates_pure rfl
      | function function =>
          apply (simulates_expect _).andThen
          intro _
          apply (simulates_readGroup token deeper).andThen
          intro argument
          exact simulates_pure rfl

theorem simulates_readOperand (scope : Scope)
    (deeper : Option.Rel (Simulates tokens Eq) deeper? below?) :
    Simulates tokens Eq (readOperand tokens scope deeper?) (Expr.parseOperand scope below?) := by
  apply (simulates_expectAny _).andThen
  intro token
  have reference : Simulates tokens Eq
      (if scope.resolves token.text then pure (Expr.reference token.text)
        else fail .undefinedReference token)
      (if scope.resolves token.text then pure (Expr.reference token.text)
        else Parse.fail .undefinedReference token) := by
    split
    · exact simulates_pure rfl
    · exact simulates_fail _ token
  rw [Expr.parseOperandFrom]
  generalize token.kind = kind
  cases kind with
  | number =>
      rw [readNumber]
      cases Numeral.read? token.text with
      | none => exact simulates_fail _ token
      | some value => exact simulates_pure rfl
  | builtin => exact simulates_readBuiltin token deeper
  | leftParen =>
      apply (simulates_readGroup token deeper).andThen
      intro inner
      exact simulates_pure rfl
  | _ => exact reference

private theorem simulates_readTail (left : Expr)
    (deeper : Option.Rel (Simulates tokens Eq) deeper? below?) :
    Simulates tokens Eq (readTail tokens deeper? left) (Expr.parseTail below? left) := by
  apply (simulates_takeMap _).andThen
  intro pair?
  cases pair? with
  | none => exact simulates_pure rfl
  | some pair =>
      cases deeper with
      | none => exact simulates_fail _ pair.2
      | some simulates =>
          apply simulates.andThen
          intro right
          exact simulates_pure rfl

theorem simulates_readWithin (scope : Scope) (levels : Nat) :
    Simulates tokens Eq (readWithin tokens scope levels) (Expr.parseWithin scope levels) := by
  have chain {deeper? : Option (Cursor Expr)} {below? : Option (Parse Expr)}
      (deeper : Option.Rel (Simulates tokens Eq) deeper? below?) :
      Simulates tokens Eq (readChain tokens scope deeper?) (Expr.parseChain scope below?) := by
    apply (simulates_readOperand scope deeper).andThen
    intro left
    exact simulates_readTail left deeper
  induction levels with
  | zero => exact chain .none
  | succ levels ih => exact chain (.some ih)

theorem simulates_readExpr (scope : Scope) :
    Simulates tokens Eq (readExpr tokens scope) (Expr.parse scope) :=
  simulates_readWithin scope nestingLimit

/-- A round of the loop over the items. -/
theorem simulates_push_readExpr (scope : Scope) (collected : Array Expr) (_ : True) :
    Simulates tokens (fun after item => after = collected.push item ∧ True)
      (do
        let item ← readExpr tokens scope
        pure (collected.push item))
      (Expr.parse scope) := by
  rw [← bind_pure (Expr.parse scope)]
  apply (simulates_readExpr scope).andThen
  intro item
  exact simulates_pure ⟨rfl, trivial⟩

theorem simulates_readItems (scope : Scope) :
    Simulates tokens Eq (readItems tokens scope) (Series.parseItems scope) := by
  apply (simulates_delimited (Series.neverRewinds_item scope) (simulates_push_readExpr scope)
    trivial).bind
  rintro _ items rfl
  apply simulates_pure
  rw [List.foldl_push_eq_append]
  simp

private theorem simulates_readRangeKeyword :
    Simulates tokens Eq (readRangeKeyword tokens) Series.expectRangeKeyword := by
  apply (simulates_expect _).andThen
  intro token
  split
  · exact simulates_pure rfl
  · exact simulates_fail _ token

theorem simulates_readRange (scope : Scope) :
    Simulates tokens Eq (readRange tokens scope) (Series.parseRange scope) := by
  apply (simulates_expect _).andThen
  intro _
  apply (simulates_expect _).andThen
  intro index
  apply (simulates_expect _).andThen
  intro _
  apply (simulates_readExpr _).andThen
  intro lower
  apply simulates_readRangeKeyword.andThen
  intro _
  apply (simulates_readExpr _).andThen
  intro upper
  apply (simulates_expect _).andThen
  intro _
  apply (simulates_readExpr _).andThen
  intro body
  apply (simulates_expect _).andThen
  intro _
  exact simulates_pure rfl

theorem simulates_readSeries (scope : Scope) :
    Simulates tokens Eq (readSeries tokens scope) (Series.parse scope) := by
  intro position stream follows
  have items := simulates_readItems scope position stream follows
  rw [Series.parse]
  show Matches tokens Eq (recover (readItems tokens scope) _ position) _
  rw [recover]
  generalize readItems tokens scope position = result at items
  generalize Series.parseItems scope stream = otherResult at items
  cases items with
  | ok same followsItems => exact .ok same followsItems
  | @refused diagnostic stopped _ followsItems =>
      dsimp only
      split
      · exact .refused followsItems
      · exact simulates_readRange scope position stream follows

theorem simulates_readValue (scope : Scope) (shape : Shape) :
    Simulates tokens (fun value other => value = other ∧ value.shape = shape)
      (readValue tokens scope shape) (PropertyValue.parse scope shape) := by
  cases shape with
  | text =>
      apply (simulates_expect _).andThen
      intro token
      exact simulates_pure ⟨rfl, rfl⟩
  | expression =>
      apply (simulates_readExpr scope).andThen
      intro expr
      exact simulates_pure ⟨rfl, rfl⟩
  | series =>
      apply (simulates_readSeries scope).andThen
      intro series
      exact simulates_pure ⟨rfl, rfl⟩

private theorem simulates_readProperty (nodeClass : NodeClass) :
    Simulates tokens (fun property other => property = other ∧ property ∈ nodeClass.properties)
      (readProperty tokens nodeClass) (Definition.parseProperty nodeClass) := by
  apply (simulates_expect _).andThen
  intro token
  cases found : nodeClass.property? token.text with
  | none => exact simulates_fail _ token
  | some property =>
      apply (simulates_expect _).andThen
      intro _
      exact simulates_pure ⟨rfl, List.mem_of_find?_eq_some found⟩

private theorem assign_of_mem {node : Node} {property : Property} {value : PropertyValue}
    (listed : property ∈ node.nodeClass.properties) (shape : value.shape = property.shape) :
    ∃ updated, node.set? property value = some updated ∧
      assign node property value = pure updated := by
  obtain ⟨updated, changed⟩ := Option.isSome_iff_exists.mp
    ((node.set?_isSome_iff property value).mpr ⟨listed, shape⟩)
  refine ⟨updated, changed, ?_⟩
  rw [assign, changed]

/-- A property is read from the list of its class, and its value by its shape. So it can always be
set. -/
theorem simulates_readSetting (scope : Scope) {nodeClass : NodeClass} (node : Node)
    (good : node.nodeClass = nodeClass) :
    Simulates tokens
      (fun after setting => after = (node.set? setting.1 setting.2).getD node ∧
        after.nodeClass = nodeClass)
      (readSetting tokens nodeClass scope node) (Definition.parseSetting nodeClass scope) := by
  apply (simulates_readProperty nodeClass).bind
  rintro property _ ⟨rfl, listed⟩
  apply (simulates_readValue scope property.shape).bind
  rintro value _ ⟨rfl, shape⟩
  rw [← good] at listed
  obtain ⟨updated, changed, assigned⟩ := assign_of_mem listed shape
  rw [assigned]
  refine simulates_pure ⟨?_, (Node.nodeClass_set? changed).trans good⟩
  rw [changed, Option.getD_some]

private theorem simulates_readSettings (scope : Scope) (nodeClass : NodeClass) :
    Simulates tokens (fun node settings => node = (Node.initial nodeClass).setAll settings)
      (readSettings tokens scope (Node.initial nodeClass))
      (Definition.parseSettings nodeClass scope) := by
  rw [readSettings, Node.nodeClass_initial]
  exact simulates_delimited _ (simulates_readSetting scope) (Node.nodeClass_initial nodeClass)

private theorem simulates_readClass :
    Simulates tokens Eq (readClass tokens) Definition.parseClass := by
  apply (simulates_expect _).andThen
  intro token
  cases NodeClass.ofName? token.text with
  | none => exact simulates_fail _ token
  | some nodeClass => exact simulates_pure rfl

private theorem simulates_readName (context : String) (defined : List String) :
    Simulates tokens Eq (readName tokens context defined)
      (Definition.parseName context defined) := by
  apply (simulates_takeIf _).andThen
  intro token?
  cases token? with
  | none => exact simulates_pure rfl
  | some token =>
      dsimp only
      split
      · exact simulates_fail _ token
      · split
        · exact simulates_fail _ token
        · exact simulates_pure rfl

private theorem simulates_readExport (classToken : Token) (name? : Option String) :
    Simulates tokens Eq (readExport tokens classToken name?)
      (Definition.parseExport classToken name?) := by
  intro position stream follows
  rw [readExport, bind_of_ok (peek?_of_follows follows), Definition.parseExport.eq_def,
    Stream.peek?]
  cases ahead : stream.ahead with
  | nil => exact .ok rfl follows
  | cons token rest =>
      dsimp only [List.head?_cons, List.tail_cons]
      split
      · cases name? with
        | none => exact .refused follows
        | some name =>
            show Matches tokens Eq ((next tokens >>= fun _ => pure true) position) _
            rw [bind_of_ok (next_of_follows follows ahead)]
            exact .ok rfl (follows.tail ahead)
      · exact .ok rfl follows

theorem simulates_readDefinition (context : String) (defined : List String) :
    Simulates tokens Eq (readDefinition tokens context defined)
      (Definition.parse context defined) := by
  apply simulates_readClass.andThen
  intro classRead
  apply (simulates_readName context defined).andThen
  intro name?
  apply (simulates_readSettings _ classRead.2).bind
  rintro _ settings rfl
  apply (simulates_readExport classRead.1 name?).andThen
  intro exported
  exact simulates_pure rfl

/-- Each definition reads a token at least, and there are more rounds than tokens. -/
theorem simulates_readDefinitions (context : String) {rounds : Nat} (defined : List String)
    (read : Array Definition) {position : Nat} {stream : Stream}
    (enough : stream.remaining < rounds) (follows : Follows tokens position stream) :
    Matches tokens (fun definitions others => definitions = read ++ others.toArray)
      (readDefinitions tokens context rounds defined read position)
      (Program.parseDefinitions context defined stream) := by
  induction rounds generalizing defined read position stream with
  | zero => exact absurd enough (Nat.not_lt_zero _)
  | succ rounds ih =>
      rw [readDefinitions, bind_of_ok (hasNext_of_follows follows),
        Program.parseDefinitions_eq_bind]
      by_cases more : stream.hasNext = true
      · rw [if_pos more, if_pos more]
        apply (simulates_readDefinition context defined position stream follows).bind
        rintro definition _ positionAfter after definitionRead rfl followsAfter
        have fewer : after.remaining < rounds := by
          have advanced := Definition.advances_parse _ _ _ _ _ definitionRead
          omega
        rw [← bind_pure (readDefinitions tokens context rounds _ _)]
        apply (ih _ _ fewer followsAfter).bind
        rintro _ others positionFinal final _ rfl followsFinal
        exact .ok (by simp) followsFinal
      · rw [if_neg more, if_neg more]
        exact .ok (by simp) follows

theorem readProgram_eq (context : String) (tokens : List Token) :
    readProgram context tokens = (Program.ofTokens context tokens).mapError .refused := by
  have follows : Follows (marked tokens) 0 (.ofTokens tokens) := ⟨[], rfl, rfl⟩
  have enough : (Stream.ofTokens tokens).remaining < (marked tokens).size := by
    rw [follows.size]
    omega
  have outcome := simulates_readDefinitions context [] #[] enough follows
  rw [readProgram, Program.ofTokens_eq]
  generalize readDefinitions (marked tokens) context (marked tokens).size [] #[] 0 = result
    at outcome
  generalize Program.parseDefinitions context [] (.ofTokens tokens) = otherResult at outcome
  cases outcome with
  | ok same _ =>
      rw [same]
      simp [Except.mapError]
  | refused => rfl

/-! ### Scanned tokens -/

private theorem number_of_wellFormed {word : Word} (wellFormed : word.WellFormed)
    (number : word.kind = .number) : ∃ value, Numeral.read? word.text = some value := by
  cases wellFormed with
  | punctuation mark =>
      exact absurd number ((Scanner.punctuation_facts mark).2.2.2 .number (by decide))
  | quoted _ => cases number
  | bare _ => exact Numeral.exists_read?_of_isNumeral (Scanner.isNumeral_of_ofText number)

private theorem kind_ne_endOfInput {word : Word} (wellFormed : word.WellFormed) :
    word.kind ≠ .endOfInput := by
  cases wellFormed with
  | punctuation mark => exact (Scanner.punctuation_facts mark).2.2.2 .endOfInput (by decide)
  | quoted _ => exact fun impossible => by cases impossible
  | bare _ => exact Scanner.ofText_ne _ (by decide)

private theorem endOfInput_iff (source : String) (index : Nat) :
    (∃ token, (marked (Token.scan source))[index]? = some token ∧ token.kind = .endOfInput) ↔
      index = (Token.scan source).length := by
  have marker : (Stream.ofTokens (Token.scan source)).stop.kind = .endOfInput := by
    rw [Stream.ofTokens]
    split <;> rfl
  rw [marked, List.getElem?_toArray]
  constructor
  · rintro ⟨token, found, ends⟩
    rcases Nat.lt_trichotomy index (Token.scan source).length with before | rfl | behind
    · rw [List.getElem?_append_left before] at found
      have wellFormed := Token.wellFormed_of_mem_scan (List.mem_of_getElem? found)
      exact absurd ends (kind_ne_endOfInput wellFormed)
    · rfl
    · have outside : (Token.scan source ++ [(Stream.ofTokens (Token.scan source)).stop])[index]? =
          none := by
        rw [List.getElem?_eq_none_iff, List.length_append, List.length_singleton]
        omega
      rw [outside] at found
      cases found
  · rintro rfl
    exact ⟨_, List.getElem?_concat_length .., marker⟩

/-- Reading never crashes: no look goes outside the tokens, no property is set that its node does
not have, and every loop ends. Of the tokens that are scanned from a text, each number can be read,
and none but the marker behind them is an end of input. -/
theorem readProgram_never_crashes :
    (∀ context tokens,
      readProgram context tokens = (Program.ofTokens context tokens).mapError .refused ∧
      ∀ crash, readProgram context tokens ≠ .error (.crashed crash)) ∧
    (∀ text, Token.Kind.ofText text = .number → ∃ value, Numeral.read? text = some value) ∧
    ∀ source,
      (∀ token ∈ Token.scan source, token.kind = .number →
        ∃ value, readNumber token = pure (.number value)) ∧
      ∀ index, (∃ token, (marked (Token.scan source))[index]? = some token ∧
        token.kind = .endOfInput) ↔ index = (Token.scan source).length := by
  refine ⟨fun context tokens => ⟨readProgram_eq context tokens, fun crash crashed => ?_⟩,
    fun text number => Numeral.exists_read?_of_isNumeral (Scanner.isNumeral_of_ofText number),
    fun source => ⟨fun token member number => ?_, fun index => ?_⟩⟩
  · rw [readProgram_eq] at crashed
    cases read : Program.ofTokens context tokens with
    | ok program =>
        rw [read] at crashed
        cases crashed
    | error diagnostic =>
        rw [read] at crashed
        cases crashed
  · obtain ⟨value, read⟩ := number_of_wellFormed (Token.wellFormed_of_mem_scan member) number
    rw [Token.word] at read
    exact ⟨value, by rw [readNumber, read]⟩
  · exact endOfInput_iff source index

/-- A series is read twice and the second attempt comes upon an end of input among the tokens. The
text has a number and ends with it. -/
theorem readProgram_of_marker_in_series :
    readProgram "audioCtx" [⟨1, 12, "PeriodicWave", .className⟩, ⟨1, 13, "\x7b", .leftBrace⟩,
        ⟨1, 17, "real", .name⟩, ⟨1, 18, ":", .colon⟩, ⟨1, 19, "[", .leftBracket⟩,
        ⟨1, 20, "k", .name⟩, ⟨1, 20, "", .endOfInput⟩] =
      .error (.refused ⟨.unexpectedToken, ⟨1, 20, "", .endOfInput⟩⟩) ∧
    (∃ value, readNumber ⟨1, 4, "0.5", .number⟩ = pure (.number value)) ∧
    ∃ token, (marked (Token.scan "[0.5"))[2]? = some token ∧ token.kind = .endOfInput := by
  obtain ⟨reading, _, scanned⟩ := readProgram_never_crashes
  refine ⟨?_, (scanned "[0.5").1 _ (by decide +kernel) rfl, ((scanned "[0.5").2 2).mpr ?_⟩
  · rw [(reading _ _).1]
    decide +kernel
  · decide +kernel

end Cursor
end AudioMarkup
