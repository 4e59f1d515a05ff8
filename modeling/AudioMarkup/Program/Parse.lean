import AudioMarkup.Program.Basic
import AudioMarkup.Series.Parse

/-!
Reading programs. A definition is a class, a name if there is one, the properties in braces and the
export mark if there is one. A name can be referred to after its definition, not within it.
-/

namespace AudioMarkup

open Parse

def defaultContext : String := "audioCtx"

/-- How the names begin that a script gives to nodes without one. -/
def generatedMark : String := "__"

/-- A script declares the context and the generated names itself. -/
def isReservedName (context name : String) : Bool :=
  name == context || generatedMark.toList.isPrefixOf name.toList

namespace PropertyValue

def parse (scope : Scope) : Shape → Parse PropertyValue
  | .text => do
    let token ← expect .string
    pure (.text token.text)
  | .expression => do
    let expr ← Expr.parse scope
    pure (.expression expr)
  | .series => do
    let series ← Series.parse scope
    pure (.series series)

end PropertyValue

namespace Definition

def parseProperty (nodeClass : NodeClass) : Parse Property := do
  let token ← expect .name
  match nodeClass.property? token.text with
  | none => fail (.unknownProperty nodeClass.name) token
  | some property => do
    let _ ← expect .colon
    pure property

def parseSetting (nodeClass : NodeClass) (scope : Scope) : Parse (Property × PropertyValue) := do
  let property ← parseProperty nodeClass
  let value ← PropertyValue.parse scope property.shape
  pure (property, value)

theorem neverRewinds_parseSetting (nodeClass : NodeClass) (scope : Scope) :
    (parseSetting nodeClass scope).NeverRewinds := by
  refine NeverRewinds.bind ?_ fun property => ?_
  · refine (advances_expect _).neverRewinds.bind fun token => ?_
    split
    · exact (advances_fail _ _).neverRewinds
    · exact (advances_expect _).neverRewinds.bind fun _ => neverRewinds_pure _
  · refine NeverRewinds.bind ?_ fun value => neverRewinds_pure _
    cases property.shape with
    | text => exact (advances_expect _).neverRewinds.bind fun _ => neverRewinds_pure _
    | expression =>
      exact (Expr.advances_parse scope).neverRewinds.bind fun _ => neverRewinds_pure _
    | series =>
      exact (Series.advances_parse scope).neverRewinds.bind fun _ => neverRewinds_pure _

def parseSettings (nodeClass : NodeClass) (scope : Scope) :
    Parse (List (Property × PropertyValue)) :=
  delimited .leftBrace .rightBrace (parseSetting nodeClass scope)
    (neverRewinds_parseSetting nodeClass scope)

def parseClass : Parse (Token × NodeClass) := do
  let token ← expect .className
  match NodeClass.ofName? token.text with
  | none => fail .unknownNodeClass token
  | some nodeClass => pure (token, nodeClass)

/-- The name of a definition, if one follows. It has to be new and may not be reserved. -/
def parseName (context : String) (defined : List String) : Parse (Option String) := do
  match ← takeIf (fun token => token.kind == .name || token.kind == .className) with
  | none => pure none
  | some token =>
    if isReservedName context token.text then fail .reservedName token
    else if defined.contains token.text then fail .alreadyDefined token
    else pure (some token.text)

def exportKeyword : String := "export"

/-- The export mark, if one follows. A definition without a name cannot be exported. -/
def parseExport (classToken : Token) (name? : Option String) : Parse Bool := fun stream =>
  match stream.peek? with
  | none => .ok false stream
  | some token =>
    if token.isKeyword exportKeyword then
      match name? with
      | none => .error ⟨.anonymousExport, classToken⟩ stream
      | some _ => .ok true { stream with ahead := stream.ahead.tail }
    else .ok false stream

def parse (context : String) (defined : List String) : Parse Definition := do
  let (classToken, nodeClass) ← parseClass
  let name? ← parseName context defined
  let settings ← parseSettings nodeClass (.ofNames defined)
  let exported ← parseExport classToken name?
  pure { name?, exported, node := (Node.initial nodeClass).setAll settings }

/-! ### Progress -/

theorem advances_parseClass : parseClass.Advances := by
  refine (advances_expect _).bind fun token => ?_
  split
  · exact (advances_fail _ _).neverRewinds
  · exact neverRewinds_pure _

theorem neverRewinds_parseName (context : String) (defined : List String) :
    (parseName context defined).NeverRewinds := by
  refine (neverRewinds_takeIf _).bind fun token? => ?_
  cases token? with
  | none => exact neverRewinds_pure _
  | some token =>
    dsimp only
    split
    · exact (advances_fail _ _).neverRewinds
    · split
      · exact (advances_fail _ _).neverRewinds
      · exact neverRewinds_pure _

theorem neverRewinds_parseExport (classToken : Token) (name? : Option String) :
    (parseExport classToken name?).NeverRewinds := by
  intro before exported after success
  unfold parseExport at success
  split at success
  · cases success
    exact Nat.le_refl _
  · split at success
    · split at success
      · cases success
      · cases success
        simp [Stream.remaining]
    · cases success
      exact Nat.le_refl _

theorem advances_parse (context : String) (defined : List String) :
    (parse context defined).Advances := by
  refine advances_parseClass.bind fun (classToken, nodeClass) => ?_
  refine (neverRewinds_parseName context defined).bind fun name? => ?_
  refine (advances_delimited _ _ _ _).neverRewinds.bind fun settings => ?_
  exact (neverRewinds_parseExport classToken name?).bind fun _ => neverRewinds_pure _

end Definition

namespace Program

def parseDefinitions (context : String) (defined : List String) (stream : Stream) :
    EStateM.Result Diagnostic Stream (List Definition) :=
  if stream.hasNext then
    match definitionRead : Definition.parse context defined stream with
    | .error diagnostic stopped => .error diagnostic stopped
    | .ok definition rest =>
      have : rest.remaining < stream.remaining :=
        Definition.advances_parse _ _ _ _ _ definitionRead
      match parseDefinitions context (definition.name?.toList ++ defined) rest with
      | .error diagnostic stopped => .error diagnostic stopped
      | .ok others final => .ok (definition :: others) final
  else .ok [] stream
termination_by stream.remaining

def parse (context : String) : Parse Program := do
  let definitions ← parseDefinitions context []
  pure { definitions }

def ofTokens (context : String) (tokens : List Token) : Except Diagnostic Program :=
  match parse context (.ofTokens tokens) with
  | .ok program _ => .ok program
  | .error diagnostic _ => .error diagnostic

end Program
end AudioMarkup
