import AudioMarkup.Proofs.Blame
import AudioMarkup.Proofs.Program.Layout
import AudioMarkup.Proofs.Token.Places
import AudioMarkup.Script.Basic

/-!
Where diagnostics point to. Each reader is settled on known tokens: when it fails, it calls the
input exhausted at its end, or blames one of the tokens.

Main statement: a token that is blamed is one of those of the text, and its line and column are
where its text starts, unless it is a literal that is broken over several lines.
-/

namespace AudioMarkup

open Parse

variable {Known : Token → Prop}

/-! ### Expressions -/

namespace Expr

variable {deeper? : Option (Parse Expr)} {token : Token}

private theorem settles_parseGroup (known : Known token)
    (deeper : ∀ step ∈ deeper?, Settles Known (fun _ => True) step) :
    Settles Known (fun _ => True) (parseGroup deeper? token) := by
  cases deeper? with
  | none => exact settles_fail known (by simp)
  | some step =>
      apply (deeper step rfl).bind
      intro inner _
      apply (settles_expect .rightParen).bind
      intro _ _
      exact settles_pure trivial

private theorem settles_parseBuiltin (known : Known token)
    (deeper : ∀ step ∈ deeper?, Settles Known (fun _ => True) step) :
    Settles Known (fun _ => True) (parseBuiltin deeper? token) := by
  rw [parseBuiltin]
  cases Builtin.find? token.text with
  | none => exact settles_fail known (by simp)
  | some builtin =>
      cases builtin with
      | constant value => exact settles_pure trivial
      | function function =>
          apply (settles_expect .leftParen).bind
          intro _ _
          apply (settles_parseGroup known deeper).bind
          intro argument _
          exact settles_pure trivial

theorem settles_parseOperand (scope : Scope)
    (deeper : ∀ step ∈ deeper?, Settles Known (fun _ => True) step) :
    Settles Known (fun _ => True) (parseOperand scope deeper?) := by
  apply (settles_expectAny operandStart).bind
  intro token known
  rw [parseOperandFrom]
  split
  · cases Numeral.read? token.text with
    | none => exact settles_fail known (by simp)
    | some value => exact settles_pure trivial
  · exact settles_parseBuiltin known deeper
  · apply (settles_parseGroup known deeper).bind
    intro inner _
    exact settles_pure trivial
  · cases scope.resolves token.text with
    | false => exact settles_fail known (by simp)
    | true => exact settles_pure trivial

theorem settles_parseTail (left : Expr)
    (deeper : ∀ step ∈ deeper?, Settles Known (fun _ => True) step) :
    Settles Known (fun _ => True) (parseTail deeper? left) := by
  have made : ∀ (token : Token) (pair : Operator × Token), Known token →
      operatorOf? token = some pair → Known pair.2 := by
    intro token pair known found
    obtain ⟨operator, _, rfl⟩ := Option.map_eq_some_iff.mp found
    exact known
  apply (settles_takeMap made).bind
  intro pair? known
  cases pair? with
  | none => exact settles_pure trivial
  | some pair =>
      cases deeper? with
      | none => exact settles_fail (known pair rfl) (by simp)
      | some step =>
          apply (deeper step rfl).bind
          intro right _
          exact settles_pure trivial

theorem settles_parseWithin (scope : Scope) (levels : Nat) :
    Settles Known (fun _ => True) (parseWithin scope levels) := by
  have chain (deeper? : Option (Parse Expr))
      (deeper : ∀ step ∈ deeper?, Settles Known (fun _ => True) step) :
      Settles Known (fun _ => True) (parseChain scope deeper?) := by
    apply (settles_parseOperand scope deeper).bind
    intro left _
    exact settles_parseTail left deeper
  induction levels with
  | zero =>
      apply chain none
      intro step impossible
      cases impossible
  | succ levels ih =>
      apply chain (some (parseWithin scope levels))
      intro step member
      cases member
      exact ih

theorem settles_parse (scope : Scope) : Settles Known (fun _ => True) (parse scope) :=
  settles_parseWithin scope nestingLimit

end Expr

/-! ### Series -/

namespace Series

theorem settles_parseItems (scope : Scope) :
    Settles Known (fun _ => True) (parseItems scope) := by
  apply (settles_delimited .leftBracket .rightBracket (neverRewinds_item scope)
    (Expr.settles_parse scope)).bind
  intro items _
  exact settles_pure trivial

private theorem settles_expectRangeKeyword :
    Settles Known (fun _ => True) expectRangeKeyword := by
  apply (settles_expect .name).bind
  intro token known
  cases token.isKeyword rangeKeyword with
  | false => exact settles_fail known (by simp)
  | true => exact settles_pure trivial

theorem settles_parseRange (scope : Scope) :
    Settles Known (fun _ => True) (parseRange scope) := by
  apply (settles_expect .leftBracket).bind
  intro _ _
  apply (settles_expect .name).bind
  intro index _
  apply (settles_expect .comma).bind
  intro _ _
  apply (Expr.settles_parse (scope.withIndex index.text)).bind
  intro lower _
  apply settles_expectRangeKeyword.bind
  intro _ _
  apply (Expr.settles_parse (scope.withIndex index.text)).bind
  intro upper _
  apply (settles_expect .comma).bind
  intro _ _
  apply (Expr.settles_parse (scope.withIndex index.text)).bind
  intro body _
  apply (settles_expect .rightBracket).bind
  intro _ _
  exact settles_pure trivial

/-- A range is read from where the items were, so a dropped diagnostic leaves no trace. -/
theorem settles_parse (scope : Scope) : Settles Known (fun _ => True) (parse scope) := by
  intro before within
  have items := settles_parseItems scope before within
  rw [parse]
  split
  · rename_i itemsRead
    rw [itemsRead] at items
    exact items
  · rename_i itemsRead
    split
    · rw [itemsRead] at items
      exact items
    · exact settles_parseRange scope before within

end Series

/-! ### Definitions -/

private theorem PropertyValue.settles_parse (scope : Scope) (shape : Shape) :
    Settles Known (fun _ => True) (PropertyValue.parse scope shape) := by
  cases shape with
  | text =>
      apply (settles_expect .string).bind
      intro _ _
      exact settles_pure trivial
  | expression =>
      apply (Expr.settles_parse scope).bind
      intro _ _
      exact settles_pure trivial
  | series =>
      apply (Series.settles_parse scope).bind
      intro _ _
      exact settles_pure trivial

namespace Definition

private theorem settles_parseProperty (nodeClass : NodeClass) :
    Settles Known (fun _ => True) (parseProperty nodeClass) := by
  apply (settles_expect .name).bind
  intro token known
  cases nodeClass.property? token.text with
  | none => exact settles_fail known (by simp)
  | some property =>
      apply (settles_expect .colon).bind
      intro _ _
      exact settles_pure trivial

theorem settles_parseSetting (nodeClass : NodeClass) (scope : Scope) :
    Settles Known (fun _ => True) (parseSetting nodeClass scope) := by
  apply (settles_parseProperty nodeClass).bind
  intro property _
  apply (PropertyValue.settles_parse scope property.shape).bind
  intro value _
  exact settles_pure trivial

private theorem settles_parseSettings (nodeClass : NodeClass) (scope : Scope) :
    Settles Known (fun _ => True) (parseSettings nodeClass scope) :=
  settles_delimited _ _ _ (settles_parseSetting nodeClass scope)

private theorem settles_parseClass :
    Settles Known (fun classRead => Known classRead.1) parseClass := by
  apply (settles_expect .className).bind
  intro token known
  cases NodeClass.ofName? token.text with
  | none => exact settles_fail known (by simp)
  | some nodeClass => exact settles_pure known

private theorem settles_parseName (context : String) (defined : List String) :
    Settles Known (fun _ => True) (parseName context defined) := by
  apply (settles_takeIf _).bind
  intro token? known
  cases token? with
  | none => exact settles_pure trivial
  | some token =>
      dsimp only
      split
      · exact settles_fail (known token rfl) (by simp)
      · split
        · exact settles_fail (known token rfl) (by simp)
        · exact settles_pure trivial

/-- An export without a name is blamed on the class, which has been read long before. -/
private theorem settles_parseExport {classToken : Token} (known : Known classToken)
    (name? : Option String) :
    Settles Known (fun _ => True) (parseExport classToken name?) := by
  intro before within
  unfold parseExport
  split
  · exact .ok (Stream.unread_nil _).symm trivial
  · rename_i token next
    split
    · cases name? with
      | none => exact .blamed (Stream.unread_nil _).symm (by simp) known
      | some name =>
          obtain ⟨rest, ahead⟩ := List.head?_eq_some_iff.mp next
          rw [ahead]
          exact .ok (Stream.eq_unread_of_ahead ahead) trivial
    · exact .ok (Stream.unread_nil _).symm trivial

theorem settles_parse (context : String) (defined : List String) :
    Settles Known (fun _ => True) (parse context defined) := by
  apply settles_parseClass.bind
  intro classRead known
  apply (settles_parseName context defined).bind
  intro name? _
  apply (settles_parseSettings classRead.2 (.ofNames defined)).bind
  intro settings _
  apply (settles_parseExport known name?).bind
  intro exported _
  exact settles_pure trivial

end Definition

/-! ### Programs -/

namespace Program

theorem settles_parseDefinitions (context : String) (defined : List String) :
    Settles Known (fun _ => True) (parseDefinitions context defined) := by
  intro before within
  -- A definition has at least one token, so fewer are left behind it.
  induction amount : before.remaining using Nat.strongRecOn generalizing before defined with
  | ind bound shorter =>
    rw [parseDefinitions_eq_bind]
    split
    · apply (Definition.settles_parse context defined before within).bind within
      intro definition rest definitionRead _ restWithin
      have fewer : rest.remaining < bound := by
        have advanced := Definition.advances_parse _ _ _ _ _ definitionRead
        omega
      apply (shorter _ fewer _ rest restWithin rfl).bind restWithin
      intro others final _ _ finalWithin
      exact settles_pure trivial final finalWithin
    · exact .ok (Stream.unread_nil _).symm trivial

/-- A list of tokens is refused at one of its tokens, or at its end. -/
theorem blamed_of_ofTokens {context : String} {tokens : List Token} {diagnostic : Diagnostic}
    (refused : ofTokens context tokens = .error diagnostic) :
    diagnostic = ⟨.exhaustedInput, (Stream.ofTokens tokens).stop⟩ ∨
      diagnostic.fault ≠ .exhaustedInput ∧ diagnostic.token ∈ tokens := by
  have settled : Settled (· ∈ tokens) (fun _ => True) (.ofTokens tokens)
      (parse context (.ofTokens tokens)) := by
    apply (settles_parseDefinitions context [] (.ofTokens tokens) fun _ member => member).bind
      fun _ member => member
    intro definitions rest _ _ restWithin
    exact settles_pure trivial rest restWithin
  rw [ofTokens] at refused
  generalize parse context (.ofTokens tokens) = result at settled refused
  cases settled with
  | ok _ _ => cases refused
  | exhausted _ _ =>
      cases refused
      exact .inl rfl
  | blamed _ other known =>
      cases refused
      exact .inr ⟨other, known⟩

/-- Unless the input is exhausted, the blamed token is one of the text, with the earlier ones before
it. The diagnostic points at where the text of the token starts exactly if no line feed is written
in it, and only literals can have one. -/
theorem diagnostic_at_start_iff_one_line (context source : String) (diagnostic : Diagnostic)
    (refused : ofText context source = .error diagnostic)
    (present : diagnostic.fault ≠ .exhaustedInput) :
    ∃ (index : Nat) (before written : List Char),
      (Token.scan source)[index]? = some diagnostic.token ∧
      diagnostic.token.Cut source.toList ((Token.scan source).take index) before written ∧
      ('\n' ∈ written → diagnostic.token.kind = .string) ∧
      ((diagnostic.line, diagnostic.column) = Text.place before ↔ '\n' ∉ written) := by
  rcases blamed_of_ofTokens refused with atEnd | ⟨_, member⟩
  · rw [atEnd] at present
    exact absurd rfl present
  · obtain ⟨index, found⟩ := List.getElem?_of_mem member
    obtain ⟨before, written, cut, placed⟩ := Token.exists_cut found
    exact ⟨index, before, written, found, cut,
      cut.kind_of_newline (Token.wellFormed_of_mem_scan member), cut.place_eq_iff placed⟩

/-- The name that is not defined is on the second line. -/
theorem diagnostic_at_start_iff_one_line_of_reference :
    ∃ (diagnostic : Diagnostic) (index : Nat) (before written : List Char),
      ofText "audioCtx" "Constant a\n\x7b value: b \x7d" = .error diagnostic ∧
      diagnostic.fault ≠ .exhaustedInput ∧
      diagnostic.token.Cut "Constant a\n\x7b value: b \x7d".toList
        ((Token.scan "Constant a\n\x7b value: b \x7d").take index) before written ∧
      Text.place before = (2, 9) := by
  have refused : ofText "audioCtx" "Constant a\n\x7b value: b \x7d" =
      .error ⟨.undefinedReference, ⟨2, 10, "b", .name⟩⟩ := by
    decide +kernel
  obtain ⟨index, before, written, _, cut, literal, starts⟩ :=
    diagnostic_at_start_iff_one_line _ _ _ refused (by decide)
  have oneLine : '\n' ∉ written := fun broken => absurd (literal broken) (by decide)
  exact ⟨_, index, before, written, refused, by decide, cut, (starts.mpr oneLine).symm⟩

/-- The literal is not expected where it stands. It starts on the first line, and the diagnostic
points at the second. -/
theorem diagnostic_of_broken_literal :
    ∃ diagnostic : Diagnostic,
      ofText "audioCtx" "Constant a \x7b value: \"ab\ncd\" \x7d" = .error diagnostic ∧
      diagnostic.fault = .unexpectedToken ∧ (diagnostic.line, diagnostic.column) = (2, 0) ∧
      (Token.scan "Constant a \x7b value: \"ab\ncd\" \x7d")[5]? = some diagnostic.token ∧
      diagnostic.token.Cut "Constant a \x7b value: \"ab\ncd\" \x7d".toList
        ((Token.scan "Constant a \x7b value: \"ab\ncd\" \x7d").take 5)
        "Constant a \x7b value: \"".toList "ab\ncd".toList ∧
      Text.place "Constant a \x7b value: \"".toList = (1, 21) := by
  refine ⟨⟨.unexpectedToken, ⟨2, 2, "abcd", .string⟩⟩, by decide +kernel, rfl, rfl,
    by decide +kernel, ?_, by decide⟩
  have split : "Constant a \x7b value: \"ab\ncd\" \x7d".toList =
      "Constant a \x7b value: ".toList ++ '"' :: ("ab\ncd".toList ++ "\" \x7d".toList) := by decide
  have opened : "Constant a \x7b value: \"".toList = "Constant a \x7b value: ".toList ++ ['"'] := by
    decide
  have ends : ∀ c ∈ "\" \x7d".toList.head?, c = '"' := by
    rintro c ⟨rfl⟩
    rfl
  rw [opened]
  exact .quoted rfl split (by decide) ends (by decide) (by decide +kernel)

end Program
end AudioMarkup
