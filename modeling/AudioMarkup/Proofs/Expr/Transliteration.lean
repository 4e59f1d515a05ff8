import AudioMarkup.Expr.Basic
import AudioMarkup.Proofs.Expr.Grammar
import AudioMarkup.Token.Scan

/-!
The script text of an expression against the tokens it was read from. Each token has a text of its
own in a script, `Token.transliteration?`, that depends on no other token; the text of an expression
is made of these texts in the order of the tokens. So the tree in between loses nothing, adds
nothing and moves nothing, although it has no place for the parentheses of a call.
-/

namespace AudioMarkup

def Token.transliteration? (token : Token) : Option String :=
  match token.kind with
  | .number => (Numeral.read? token.text).map Binary64.scriptText
  | .builtin =>
    match Builtin.find? token.text with
    | some (.constant value) => some value.scriptText
    | some (.function function) => some function.scriptName
    | none => none
  | .leftParen => some "("
  | .rightParen => some ")"
  | .name => some token.text
  | .className => some token.text
  | kind => (Operator.ofKind? kind).map Operator.symbol

namespace Expr

/-! ### The text of a tree by the texts of its parts -/

@[simp] theorem Piece.renderAll_append (first second : List Piece) :
    Piece.renderAll (first ++ second) = Piece.renderAll first ++ Piece.renderAll second := by
  simp only [Piece.renderAll, List.map_append, String.join_append]

@[simp] theorem Piece.renderAll_cons (piece : Piece) (rest : List Piece) :
    Piece.renderAll (piece :: rest) = piece.render ++ Piece.renderAll rest := by
  simp only [Piece.renderAll, List.map_cons, String.join_cons]

@[simp] theorem Piece.renderAll_nil : Piece.renderAll [] = "" := by
  simp only [Piece.renderAll, List.map_nil, String.join_nil]

private theorem Piece.renderAll_verbatim (text : String) :
    Piece.renderAll [.verbatim text] = text := by
  rw [renderAll_cons, renderAll_nil, String.append_empty]
  rfl

theorem scriptText_number (value : Binary64) : scriptText (.number value) = value.scriptText :=
  Piece.renderAll_verbatim value.scriptText

theorem scriptText_reference (name : String) : scriptText (.reference name) = name :=
  Piece.renderAll_verbatim name

private theorem Piece.renderAll_closed (pieces : List Piece) :
    Piece.renderAll (pieces ++ [.close]) = Piece.renderAll pieces ++ ")" := by
  rw [renderAll_append, renderAll_cons, renderAll_nil, String.append_empty]
  rfl

theorem scriptText_operation (operator : Operator) (left right : Expr) :
    scriptText (.operation operator left right) =
      left.scriptText ++ (operator.symbol ++ right.scriptText) := by
  change Piece.renderAll (left.pieces ++ .verbatim operator.symbol :: right.pieces) = _
  rw [Piece.renderAll_append, Piece.renderAll_cons]
  rfl

theorem scriptText_call (function : MathFunction) (argument : Expr) :
    scriptText (.call function argument) =
      function.scriptName ++ ("(" ++ (argument.scriptText ++ ")")) := by
  change Piece.renderAll (.openCall function.scriptName :: (argument.pieces ++ [.close])) = _
  rw [Piece.renderAll_cons, Piece.renderAll_closed]
  exact String.append_assoc ..

theorem scriptText_group (inner : Expr) :
    scriptText (.group inner) = "(" ++ (inner.scriptText ++ ")") := by
  change Piece.renderAll (.openGroup :: (inner.pieces ++ [.close])) = _
  rw [Piece.renderAll_cons, Piece.renderAll_closed]
  rfl

/-! ### The text of a token -/

private theorem transliteration?_operator {token : Token} {operator : Operator}
    (kind : Operator.ofKind? token.kind = some operator) :
    token.transliteration? = some operator.symbol := by
  unfold Operator.ofKind? at kind
  split at kind <;> rename_i found
  · cases kind
    simp only [Token.transliteration?, found, Operator.ofKind?, Option.map_some]
  · cases kind
    simp only [Token.transliteration?, found, Operator.ofKind?, Option.map_some]
  · cases kind
    simp only [Token.transliteration?, found, Operator.ofKind?, Option.map_some]
  · cases kind
    simp only [Token.transliteration?, found, Operator.ofKind?, Option.map_some]
  · cases kind

private theorem transliteration?_word {token : Token}
    (word : token.kind = .name ∨ token.kind = .className) :
    token.transliteration? = some token.text := by
  rcases word with name | className
  · simp only [Token.transliteration?, name]
  · simp only [Token.transliteration?, className]

theorem Spelling.transliteration {tokens : List Token} {expr : Expr}
    (spelled : Spelling tokens expr) :
    ∃ texts : List String, tokens.map Token.transliteration? = texts.map some ∧
      expr.scriptText = String.join texts := by
  induction spelled with
  | @number token value number read =>
      refine ⟨[value.scriptText], ?_, ?_⟩
      · simp only [List.map_cons, List.map_nil, Token.transliteration?, number, read,
          Option.map_some]
      · simp only [scriptText_number, String.join_cons, String.join_nil, String.append_empty]
  | @constant token value builtin found =>
      refine ⟨[value.scriptText], ?_, ?_⟩
      · simp only [List.map_cons, List.map_nil, Token.transliteration?, builtin, found]
      · simp only [scriptText_number, String.join_cons, String.join_nil, String.append_empty]
  | @reference token word =>
      refine ⟨[token.text], ?_, ?_⟩
      · simp only [List.map_cons, List.map_nil, transliteration?_word word]
      · simp only [scriptText_reference, String.join_cons, String.join_nil, String.append_empty]
  | @operation leftTokens rightTokens token operator left right _ kind _ leftIh rightIh =>
      obtain ⟨leftTexts, leftMapped, leftJoined⟩ := leftIh
      obtain ⟨rightTexts, rightMapped, rightJoined⟩ := rightIh
      refine ⟨leftTexts ++ operator.symbol :: rightTexts, ?_, ?_⟩
      · simp only [List.map_append, List.map_cons, leftMapped, rightMapped,
          transliteration?_operator kind]
      · rw [scriptText_operation, leftJoined, rightJoined, String.join_append, String.join_cons]
  | @call token opening closing tokens function argument builtin found opened _ closed ih =>
      obtain ⟨texts, mapped, joined⟩ := ih
      refine ⟨function.scriptName :: "(" :: (texts ++ [")"]), ?_, ?_⟩
      · simp only [List.map_append, List.map_cons, List.map_nil, mapped, Token.transliteration?,
          builtin, found, opened, closed]
      · simp only [scriptText_call, joined, String.join_append, String.join_cons, String.join_nil,
          String.append_empty]
  | @group opening closing tokens inner opened _ closed ih =>
      obtain ⟨texts, mapped, joined⟩ := ih
      refine ⟨"(" :: (texts ++ [")"]), ?_, ?_⟩
      · simp only [List.map_append, List.map_cons, List.map_nil, mapped, Token.transliteration?,
          opened, closed]
      · simp only [scriptText_group, joined, String.join_append, String.join_cons, String.join_nil,
          String.append_empty]

/-- The text of an expression is made of the texts of the tokens that were consumed for it. -/
theorem scriptText_eq_join_transliteration (scope : Scope) (before after : Stream) (expr : Expr)
    (success : parse scope before = .ok expr after) :
    ∃ consumed : List Token, ∃ texts : List String,
      before.ahead = consumed ++ after.ahead ∧ before.stop = after.stop ∧
        consumed.map Token.transliteration? = texts.map some ∧
        expr.scriptText = String.join texts := by
  obtain ⟨consumed, rfl, spelled, _⟩ := sound_parseWithin scope nestingLimit _ _ _ success
  obtain ⟨texts, mapped, joined⟩ := spelled.transliteration
  exact ⟨consumed, texts, rfl, rfl, mapped, joined⟩

theorem scriptText_eq_join_transliteration_of_product :
    ∃ expr : Expr, ∃ after : Stream, ∃ consumed : List Token, ∃ texts : List String,
      parse (.ofNames ["a", "B"]) (.ofTokens (Token.scan "@sin(a-2)*(B+@pi),")) =
        .ok expr after ∧
      Token.scan "@sin(a-2)*(B+@pi)," = consumed ++ after.ahead ∧ after.ahead.length = 1 ∧
      consumed.map Token.transliteration? = texts.map some ∧
      expr.scriptText = String.join texts := by
  have read : parse (.ofNames ["a", "B"]) (.ofTokens (Token.scan "@sin(a-2)*(B+@pi),")) =
      .ok (.operation .mul
          (.call .sin (.operation .sub (.reference "a") (.number ⟨0x4000000000000000⟩)))
          (.group (.operation .add (.reference "B") (.number .pi))))
        { ahead := [{ line := 1, column := 18, text := ",", kind := .comma }]
          stop := { line := 1, column := 18, text := "", kind := .endOfInput } } := by
    decide +kernel
  obtain ⟨consumed, texts, ahead, _, mapped, joined⟩ :=
    scriptText_eq_join_transliteration _ _ _ _ read
  exact ⟨_, _, consumed, texts, read, ahead, rfl, mapped, joined⟩

end Expr
end AudioMarkup
