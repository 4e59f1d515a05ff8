import AudioMarkup.Proofs.Parallel
import AudioMarkup.Script.Basic

/-!
Layout has no meaning. Each reader is run on two streams that match token by token; no decision
depends on where a token stands, so both runs succeed with the same value or blame tokens that
match.

For two texts with the same words, the tokens at the same index match, and so do the two tokens for
the end of input. This gives the place of a diagnostic in the one text from its place in the other.
-/

namespace AudioMarkup

open Parse

variable {Match : Token → Token → Prop}

/-! ### Expressions -/

namespace Expr

variable {deeper? : Option (Parse Expr)} {first second : Token}

private theorem parallel_parseGroup (faithful : Token.Faithful Match) (same : Match first second)
    (deeper : ∀ step ∈ deeper?, Parallel Match Eq step step) :
    Parallel Match Eq (parseGroup deeper? first) (parseGroup deeper? second) := by
  cases deeper? with
  | none => exact parallel_fail _ same
  | some step =>
      apply (deeper step rfl).bind
      rintro inner _ rfl
      apply (parallel_expect faithful .rightParen).bind
      intro _ _ _
      exact parallel_pure rfl

private theorem parallel_parseBuiltin (faithful : Token.Faithful Match)
    (same : Match first second) (deeper : ∀ step ∈ deeper?, Parallel Match Eq step step) :
    Parallel Match Eq (parseBuiltin deeper? first) (parseBuiltin deeper? second) := by
  rw [parseBuiltin, parseBuiltin, faithful.text same]
  cases Builtin.find? second.text with
  | none => exact parallel_fail _ same
  | some builtin =>
      cases builtin with
      | constant value => exact parallel_pure rfl
      | function function =>
          apply (parallel_expect faithful .leftParen).bind
          intro _ _ _
          apply (parallel_parseGroup faithful same deeper).bind
          rintro argument _ rfl
          exact parallel_pure rfl

private theorem parallel_parseOperandFrom (faithful : Token.Faithful Match) (scope : Scope)
    (same : Match first second) (deeper : ∀ step ∈ deeper?, Parallel Match Eq step step) :
    Parallel Match Eq (parseOperandFrom scope deeper? first)
      (parseOperandFrom scope deeper? second) := by
  rw [parseOperandFrom, parseOperandFrom, faithful.kind same, faithful.text same]
  split
  · cases Numeral.read? second.text with
    | none => exact parallel_fail _ same
    | some value => exact parallel_pure rfl
  · exact parallel_parseBuiltin faithful same deeper
  · apply (parallel_parseGroup faithful same deeper).bind
    rintro inner _ rfl
    exact parallel_pure rfl
  · cases scope.resolves second.text with
    | false => exact parallel_fail _ same
    | true => exact parallel_pure rfl

private def SameOperator (Match : Token → Token → Prop) (one other : Operator × Token) : Prop :=
  one.1 = other.1 ∧ Match one.2 other.2

private theorem parallel_parseTail (faithful : Token.Faithful Match) (left : Expr)
    (deeper : ∀ step ∈ deeper?, Parallel Match Eq step step) :
    Parallel Match Eq (parseTail deeper? left) (parseTail deeper? left) := by
  have made : ∀ first second, Match first second →
      Option.Rel (SameOperator Match) (operatorOf? first) (operatorOf? second) := by
    intro first second same
    rw [operatorOf?, operatorOf?, faithful.kind same]
    cases Operator.ofKind? second.kind with
    | none => exact .none
    | some operator => exact .some ⟨rfl, same⟩
  apply (parallel_takeMap made).bind
  intro first? second? taken
  cases taken with
  | none => exact parallel_pure rfl
  | @some one other pair =>
      obtain ⟨operator, token⟩ := one
      obtain ⟨_, otherToken⟩ := other
      obtain ⟨rfl, same⟩ := pair
      cases deeper? with
      | none => exact parallel_fail _ same
      | some step =>
          apply (deeper step rfl).bind
          rintro right _ rfl
          exact parallel_pure rfl

theorem parallel_parseWithin (faithful : Token.Faithful Match) (scope : Scope) (levels : Nat) :
    Parallel Match Eq (parseWithin scope levels) (parseWithin scope levels) := by
  have chain (deeper? : Option (Parse Expr))
      (deeper : ∀ step ∈ deeper?, Parallel Match Eq step step) :
      Parallel Match Eq (parseChain scope deeper?) (parseChain scope deeper?) := by
    apply Parallel.bind
    · apply (parallel_expectAny faithful operandStart).bind
      intro first second same
      exact parallel_parseOperandFrom faithful scope same deeper
    · rintro left _ rfl
      exact parallel_parseTail faithful left deeper
  induction levels with
  | zero =>
      apply chain none
      intro step impossible
      cases impossible
  | succ levels ih =>
      apply chain (some (parseWithin scope levels))
      intro step member
      cases member
      exact ih

theorem parallel_parse (faithful : Token.Faithful Match) (scope : Scope) :
    Parallel Match Eq (parse scope) (parse scope) :=
  parallel_parseWithin faithful scope nestingLimit

end Expr

/-! ### Series -/

namespace Series

private theorem parallel_parseItems (faithful : Token.Faithful Match) (scope : Scope) :
    Parallel Match Eq (parseItems scope) (parseItems scope) := by
  apply (parallel_delimited faithful .leftBracket .rightBracket (neverRewinds_item scope)
    (Expr.parallel_parse faithful scope)).bind
  rintro items _ rfl
  exact parallel_pure rfl

private theorem parallel_expectRangeKeyword (faithful : Token.Faithful Match) :
    Parallel Match Eq expectRangeKeyword expectRangeKeyword := by
  apply (parallel_expect faithful .name).bind
  intro first second same
  rw [faithful.isKeyword same]
  cases second.isKeyword rangeKeyword with
  | false => exact parallel_fail _ same
  | true => exact parallel_pure rfl

private theorem parallel_parseRange (faithful : Token.Faithful Match) (scope : Scope) :
    Parallel Match Eq (parseRange scope) (parseRange scope) := by
  apply (parallel_expect faithful .leftBracket).bind
  intro _ _ _
  apply (parallel_expect faithful .name).bind
  intro first second same
  rw [faithful.text same]
  apply (parallel_expect faithful .comma).bind
  intro _ _ _
  apply (Expr.parallel_parse faithful (scope.withIndex second.text)).bind
  rintro lower _ rfl
  apply (parallel_expectRangeKeyword faithful).bind
  intro _ _ _
  apply (Expr.parallel_parse faithful (scope.withIndex second.text)).bind
  rintro upper _ rfl
  apply (parallel_expect faithful .comma).bind
  intro _ _ _
  apply (Expr.parallel_parse faithful (scope.withIndex second.text)).bind
  rintro body _ rfl
  apply (parallel_expect faithful .rightBracket).bind
  intro _ _ _
  exact parallel_pure rfl

/-- The diagnostic that is dropped on the way to a range is dropped on both sides, as it is the
fault alone that decides. -/
theorem parallel_parse (faithful : Token.Faithful Match) (scope : Scope) :
    Parallel Match Eq (parse scope) (parse scope) := by
  intro left right parallel
  have items := parallel_parseItems faithful scope left right parallel
  rw [parse, parse]
  generalize parseItems scope left = leftItems at items
  generalize parseItems scope right = rightItems at items
  cases items with
  | ok same rest => exact .ok same rest
  | @error fault _ _ _ _ same rest =>
      dsimp only
      cases fault.isNestingTooDeep with
      | false => exact parallel_parseRange faithful scope left right parallel
      | true => exact .error same rest

end Series

/-! ### Definitions -/

theorem PropertyValue.parallel_parse (faithful : Token.Faithful Match) (scope : Scope)
    (shape : Shape) :
    Parallel Match Eq (PropertyValue.parse scope shape) (PropertyValue.parse scope shape) := by
  cases shape with
  | text =>
      apply (parallel_expect faithful .string).bind
      intro first second same
      rw [faithful.text same]
      exact parallel_pure rfl
  | expression =>
      apply (Expr.parallel_parse faithful scope).bind
      rintro expr _ rfl
      exact parallel_pure rfl
  | series =>
      apply (Series.parallel_parse faithful scope).bind
      rintro series _ rfl
      exact parallel_pure rfl

namespace Definition

private theorem parallel_parseProperty (faithful : Token.Faithful Match) (nodeClass : NodeClass) :
    Parallel Match Eq (parseProperty nodeClass) (parseProperty nodeClass) := by
  apply (parallel_expect faithful .name).bind
  intro first second same
  rw [faithful.text same]
  cases nodeClass.property? second.text with
  | none => exact parallel_fail _ same
  | some property =>
      apply (parallel_expect faithful .colon).bind
      intro _ _ _
      exact parallel_pure rfl

private theorem parallel_parseSettings (faithful : Token.Faithful Match) (nodeClass : NodeClass)
    (scope : Scope) :
    Parallel Match Eq (parseSettings nodeClass scope) (parseSettings nodeClass scope) := by
  apply parallel_delimited faithful
  apply (parallel_parseProperty faithful nodeClass).bind
  rintro property _ rfl
  apply (PropertyValue.parallel_parse faithful scope property.shape).bind
  rintro value _ rfl
  exact parallel_pure rfl

private def SameClass (Match : Token → Token → Prop) (one other : Token × NodeClass) : Prop :=
  Match one.1 other.1 ∧ one.2 = other.2

private theorem parallel_parseClass (faithful : Token.Faithful Match) :
    Parallel Match (SameClass Match) parseClass parseClass := by
  apply (parallel_expect faithful .className).bind
  intro first second same
  rw [faithful.text same]
  cases NodeClass.ofName? second.text with
  | none => exact parallel_fail _ same
  | some nodeClass => exact parallel_pure ⟨same, rfl⟩

private theorem parallel_parseName (faithful : Token.Faithful Match) (context : String)
    (defined : List String) :
    Parallel Match Eq (parseName context defined) (parseName context defined) := by
  have decided : ∀ first second, Match first second →
      (first.kind == .name || first.kind == .className) =
        (second.kind == .name || second.kind == .className) := by
    intro first second same
    rw [faithful.kind same]
  apply (parallel_takeIf decided).bind
  intro first? second? taken
  cases taken with
  | none => exact parallel_pure rfl
  | @some first second same =>
      dsimp only
      rw [faithful.text same]
      cases isReservedName context second.text with
      | true => exact parallel_fail _ same
      | false =>
          cases defined.contains second.text with
          | true => exact parallel_fail _ same
          | false => exact parallel_pure rfl

private theorem parallel_parseExport (faithful : Token.Faithful Match) {first second : Token}
    (same : Match first second) (name? : Option String) :
    Parallel Match Eq (parseExport first name?) (parseExport second name?) := by
  rintro ⟨leftAhead, leftStop⟩ ⟨rightAhead, rightStop⟩ ⟨ahead, stop⟩
  cases ahead with
  | nil => exact .ok rfl ⟨.nil, stop⟩
  | @cons leftNext rightNext _ _ sameNext rest =>
      simp only [parseExport, Stream.peek?, List.head?_cons, List.tail_cons,
        faithful.isKeyword sameNext]
      cases rightNext.isKeyword exportKeyword with
      | false => exact .ok rfl ⟨.cons sameNext rest, stop⟩
      | true =>
          cases name? with
          | none => exact .error same ⟨.cons sameNext rest, stop⟩
          | some name => exact .ok rfl ⟨rest, stop⟩

theorem parallel_parse (faithful : Token.Faithful Match) (context : String)
    (defined : List String) :
    Parallel Match Eq (parse context defined) (parse context defined) := by
  apply (parallel_parseClass faithful).bind
  rintro ⟨first, nodeClass⟩ ⟨second, _⟩ ⟨same, rfl⟩
  apply (parallel_parseName faithful context defined).bind
  rintro name? _ rfl
  apply (parallel_parseSettings faithful nodeClass (.ofNames defined)).bind
  rintro settings _ rfl
  apply (parallel_parseExport faithful same name?).bind
  rintro exported _ rfl
  exact parallel_pure rfl

end Definition

/-! ### Programs -/

namespace Program

theorem ofTokens_eq (context : String) (tokens : List Token) :
    ofTokens context tokens =
      match parseDefinitions context [] (.ofTokens tokens) with
      | .ok definitions _ => .ok { definitions }
      | .error diagnostic _ => .error diagnostic := by
  cases ended : parseDefinitions context [] (.ofTokens tokens) with
  | ok definitions after =>
      rw [ofTokens, parse, bind_of_ok ended]
      rfl
  | error diagnostic stopped => rw [ofTokens, parse, bind_of_error ended]

/-- One round of the loop over definitions, as a sequence of steps. -/
theorem parseDefinitions_eq_bind (context : String) (defined : List String) (stream : Stream) :
    parseDefinitions context defined stream =
      if stream.hasNext then
        (Definition.parse context defined >>= fun definition =>
          parseDefinitions context (definition.name?.toList ++ defined) >>= fun others =>
            pure (definition :: others)) stream
      else .ok [] stream := by
  rw [parseDefinitions]
  split
  · split
    · rename_i definitionRead
      rw [bind_of_error definitionRead]
    · rename_i definition rest definitionRead
      rw [bind_of_ok definitionRead]
      cases othersRead : parseDefinitions context (definition.name?.toList ++ defined) rest with
      | error diagnostic stopped => rw [bind_of_error othersRead]
      | ok others final =>
          rw [bind_of_ok othersRead]
          rfl
  · rfl

theorem parallel_parseDefinitions (faithful : Token.Faithful Match) (context : String)
    (defined : List String) :
    Parallel Match Eq (parseDefinitions context defined) (parseDefinitions context defined) := by
  intro left right parallel
  -- A definition has at least one token, so fewer are left on the left side.
  induction amount : left.remaining using Nat.strongRecOn generalizing left right defined with
  | ind bound shorter =>
    rw [parseDefinitions_eq_bind, parseDefinitions_eq_bind, parallel.hasNext_eq]
    cases right.hasNext with
    | false => exact .ok rfl parallel
    | true =>
        apply (Definition.parallel_parse faithful context defined left right parallel).bind
        rintro definition _ leftRest rightRest definitionRead _ rfl rest
        have fewer : leftRest.remaining < bound := by
          have advanced := Definition.advances_parse _ _ _ _ _ definitionRead
          omega
        apply (shorter _ fewer _ leftRest rightRest rest rfl).bind
        rintro others _ leftFinal rightFinal _ _ rfl afterOthers
        exact parallel_pure rfl leftFinal rightFinal afterOthers

end Program

/-! ### Places -/

/-- The tokens at the same index of two lists, or those for the end of input behind each list. -/
inductive Token.SamePlace (left right : List Token) : Token → Token → Prop where
  | token {index : Nat} {first second : Token} :
      left[index]? = some first → right[index]? = some second → SamePlace left right first second
  | stop : SamePlace left right (Stream.ofTokens left).stop (Stream.ofTokens right).stop

namespace Token

variable {left right : List Token}

theorem faithful_samePlace (alike : left.map Token.word = right.map Token.word) :
    Faithful (SamePlace left right) := by
  intro first second place
  cases place with
  | @token index _ _ atLeft atRight =>
      have sameAt := congrArg (·[index]?) alike
      simpa only [List.getElem?_map, atLeft, atRight, Option.map_some, Option.some.injEq]
        using sameAt
  | stop =>
      have word (tokens : List Token) : (Stream.ofTokens tokens).stop.word = ⟨.endOfInput, ""⟩ := by
        rw [Stream.ofTokens]
        cases tokens.getLast? with
        | none => rfl
        | some _ => rfl
      rw [word, word]

theorem parallel_ofTokens (alike : left.map Token.word = right.map Token.word) :
    (Stream.ofTokens left).Parallel (SamePlace left right) (Stream.ofTokens right) := by
  have sameLength : left.length = right.length := by simpa using congrArg List.length alike
  refine ⟨List.forall₂_iff_get.mpr ⟨sameLength, fun index leftBound rightBound => ?_⟩, .stop⟩
  exact .token (List.getElem?_eq_getElem leftBound) (List.getElem?_eq_getElem rightBound)

end Token

namespace Program

/-- How the programs of two lists of tokens compare: they are the same, or neither list is a program
and the fault is found at the same place. -/
inductive SameReading (left right : List Token) :
    Except Diagnostic Program → Except Diagnostic Program → Prop where
  | read {program : Program} : SameReading left right (.ok program) (.ok program)
  | refused {fault : Fault} {first second : Token} :
      Token.SamePlace left right first second →
      SameReading left right (.error ⟨fault, first⟩) (.error ⟨fault, second⟩)

theorem sameReading_ofTokens (context : String) {left right : List Token}
    (alike : left.map Token.word = right.map Token.word) :
    SameReading left right (ofTokens context left) (ofTokens context right) := by
  have outcome : SameOutcome (Token.SamePlace left right) Eq
      (parse context (.ofTokens left)) (parse context (.ofTokens right)) := by
    apply (parallel_parseDefinitions (Token.faithful_samePlace alike) context [] _ _
      (Token.parallel_ofTokens alike)).bind
    rintro definitions _ leftRest rightRest _ _ rfl rest
    exact parallel_pure rfl leftRest rightRest rest
  rw [ofTokens, ofTokens]
  generalize parse context (.ofTokens left) = leftEnded at outcome
  generalize parse context (.ofTokens right) = rightEnded at outcome
  cases outcome with
  | ok same _ =>
      cases same
      exact .read
  | error place _ => exact .refused place

end Program

/-- Texts with the same words have the same script, or the same fault with the same message at
tokens of the same place. -/
theorem compile_of_same_words (context first second : String)
    (alike : (Token.scan first).map Token.word = (Token.scan second).map Token.word) :
    (∃ script, compile context first = .ok script ∧ compile context second = .ok script) ∨
    ∃ here there : Diagnostic,
      compile context first = .error here ∧ compile context second = .error there ∧
      here.fault.label = there.fault.label ∧ here.message = there.message ∧
      ∃ one other, Token.SamePlace (Token.scan first) (Token.scan second) one other ∧
        (here.line, here.column) = (one.line, one.startColumn) ∧
        (there.line, there.column) = (other.line, other.startColumn) := by
  have reading := Program.sameReading_ofTokens context alike
  rw [compile, compile, Program.ofText, Program.ofText]
  generalize Program.ofTokens context (Token.scan first) = leftRead at reading
  generalize Program.ofTokens context (Token.scan second) = rightRead at reading
  cases reading with
  | @read program => exact .inl ⟨program.scriptText context, rfl, rfl⟩
  | @refused fault one other place =>
      have sameText := (Token.faithful_samePlace alike).text place
      refine .inr ⟨_, _, rfl, rfl, rfl, ?_, one, other, place, rfl, rfl⟩
      rw [Diagnostic.message, Diagnostic.message, sameText]

theorem compile_of_same_words_of_broken_line :
    (Token.scan "Constant a\n\x7bvalue:b\x7d").map Token.word =
      (Token.scan "Constant a \x7b value: b \x7d").map Token.word ∧
    ∃ here there : Diagnostic,
      compile "audioCtx" "Constant a\n\x7bvalue:b\x7d" = .error here ∧
      compile "audioCtx" "Constant a \x7b value: b \x7d" = .error there ∧
      here.fault.label = there.fault.label ∧ here.message = there.message ∧
      (here.line, here.column) = (2, 7) ∧ (there.line, there.column) = (1, 20) := by
  have alike : (Token.scan "Constant a\n\x7bvalue:b\x7d").map Token.word =
      (Token.scan "Constant a \x7b value: b \x7d").map Token.word := by decide +kernel
  have broken : compile "audioCtx" "Constant a\n\x7bvalue:b\x7d" =
      .error ⟨.undefinedReference, ⟨2, 8, "b", .name⟩⟩ := by decide +kernel
  have single : compile "audioCtx" "Constant a \x7b value: b \x7d" =
      .error ⟨.undefinedReference, ⟨1, 21, "b", .name⟩⟩ := by decide +kernel
  obtain ⟨script, read, _⟩ | ⟨here, there, hereFails, thereFails, labels, messages, _⟩ :=
    compile_of_same_words "audioCtx" _ _ alike
  · rw [broken] at read
    cases read
  · refine ⟨alike, here, there, hereFails, thereFails, labels, messages, ?_⟩
    rw [broken] at hereFails
    rw [single] at thereFails
    cases hereFails
    cases thereFails
    decide

end AudioMarkup
