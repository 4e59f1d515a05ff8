import AudioMarkup.Proofs.Expr.Grammar
import AudioMarkup.Series.Parse

/-!
The grammar of series. Both forms are described by their tokens, `Series.Spelling`, and by what is
asked of their expressions, `Series.Fits`: the index of a range is known in its bounds and in its
body and nowhere else.

Reading tries a list of items first. `Series.parse_eq_ok_iff` states that this order cannot be seen
from outside: a series is read exactly if it is spelled in one of the two forms and fits. What is
read as a range fails as a list of items, and not for its nesting, so it is always tried.
-/

namespace AudioMarkup.Series

open Parse

inductive Spelling : List Token → Series → Prop where
  | list {tokens : List Token} {items : List Expr} :
      DelimitedSpelling .leftBracket .rightBracket Expr.Spelling tokens items →
      Spelling tokens (.list items)
  | range {opening index afterIndex keyword afterUpper closing : Token}
      {lowerTokens upperTokens bodyTokens : List Token} {lower upper body : Expr} :
      opening.kind = .leftBracket → index.kind = .name → afterIndex.kind = .comma →
      Expr.Spelling lowerTokens lower → keyword.isKeyword rangeKeyword = true →
      Expr.Spelling upperTokens upper → afterUpper.kind = .comma →
      Expr.Spelling bodyTokens body → closing.kind = .rightBracket →
      Spelling
        (opening :: index :: afterIndex :: (lowerTokens ++ keyword ::
          (upperTokens ++ afterUpper :: (bodyTokens ++ [closing]))))
        (.range index.text lower upper body)

def Fits (scope : Scope) : Series → Prop
  | .list items => ∀ item ∈ items, item.Fits scope nestingLimit
  | .range index lower upper body =>
    ∀ part ∈ [lower, upper, body], part.Fits (scope.withIndex index) nestingLimit

variable {scope : Scope}

/-! ### Lists of items -/

private theorem admitted_starts {tokens : List Token} {expr : Expr}
    (admitted : Expr.Admitted scope nestingLimit tokens expr) :
    ∃ first rest, tokens = first :: rest ∧ first.kind ≠ .rightBracket := by
  obtain ⟨first, rest, rfl, starting⟩ := admitted.1.starts
  refine ⟨first, rest, rfl, fun closed => ?_⟩
  rw [closed] at starting
  simp [Expr.operandStart] at starting

theorem parseItems_eq_ok_iff {before after : Stream} {series : Series} :
    parseItems scope before = .ok series after ↔
      ∃ tokens items, before = after.unread tokens ∧ series = .list items ∧
        DelimitedSpelling .leftBracket .rightBracket Expr.Spelling tokens items ∧
        series.Fits scope := by
  constructor
  · intro success
    obtain ⟨items, afterItems, itemsRead, finished⟩ := bind_eq_ok.mp success
    obtain ⟨rfl, rfl⟩ := pure_eq_ok_iff.mp finished
    obtain ⟨tokens, rfl, spelled⟩ :=
      sound_delimited .leftBracket (Expr.sound_parseWithin scope nestingLimit) _ _ _ itemsRead
    obtain ⟨plain, fits⟩ := delimitedSpelling_and_iff.mp spelled
    exact ⟨tokens, items, rfl, rfl, plain, fits⟩
  · rintro ⟨tokens, items, rfl, rfl, spelled, fits⟩
    have itemsRead : delimited .leftBracket .rightBracket (Expr.parse scope)
        (neverRewinds_item scope) (after.unread tokens) = .ok items after :=
      complete_delimited .leftBracket (Expr.complete_parseWithin scope nestingLimit) (by decide)
        (Stream.noOperator_of_mark rfl) (fun _ _ => admitted_starts) _ _ _
        (delimitedSpelling_and_iff.mpr ⟨spelled, fits⟩) trivial
    exact bind_of_ok itemsRead

/-! ### Ranges -/

theorem expectRangeKeyword_eq_ok_iff {before after : Stream} :
    expectRangeKeyword before = .ok () after ↔
      ∃ token, token.isKeyword rangeKeyword = true ∧ before = after.unread [token] := by
  constructor
  · intro success
    obtain ⟨token, afterToken, tokenRead, finished⟩ := bind_eq_ok.mp success
    obtain ⟨_, rfl⟩ := expect_eq_ok_iff.mp tokenRead
    cases keyword : token.isKeyword rangeKeyword with
    | false =>
        rw [keyword] at finished
        exact absurd finished fail_ne_ok
    | true =>
        rw [keyword] at finished
        obtain ⟨_, rfl⟩ := pure_eq_ok_iff.mp finished
        exact ⟨token, keyword, rfl⟩
  · rintro ⟨token, keyword, rfl⟩
    have name : token.kind = .name := by
      simp only [Token.isKeyword, Bool.and_eq_true, beq_iff_eq] at keyword
      exact keyword.1
    rw [expectRangeKeyword, bind_of_ok (expect_unread after name), keyword]
    rfl

private theorem noOperator_of_keyword {token : Token} (after : Stream)
    (keyword : token.isKeyword rangeKeyword = true) : (after.unread [token]).NoOperator := by
  apply Stream.noOperator_unread
  simp only [Token.isKeyword, Bool.and_eq_true, beq_iff_eq] at keyword
  rw [keyword.1]
  rfl

theorem parseRange_eq_ok {before after : Stream} {series : Series}
    (success : parseRange scope before = .ok series after) :
    ∃ tokens index lower upper body, series = .range index lower upper body ∧
      before = after.unread tokens ∧ Spelling tokens (.range index lower upper body) ∧
      Fits scope (.range index lower upper body) := by
  obtain ⟨opening, _, openingRead, success⟩ := bind_eq_ok.mp success
  obtain ⟨index, _, indexRead, success⟩ := bind_eq_ok.mp success
  obtain ⟨afterIndex, _, afterIndexRead, success⟩ := bind_eq_ok.mp success
  obtain ⟨lower, _, lowerRead, success⟩ := bind_eq_ok.mp success
  obtain ⟨_, _, keywordRead, success⟩ := bind_eq_ok.mp success
  obtain ⟨upper, _, upperRead, success⟩ := bind_eq_ok.mp success
  obtain ⟨afterUpper, _, afterUpperRead, success⟩ := bind_eq_ok.mp success
  obtain ⟨body, _, bodyRead, success⟩ := bind_eq_ok.mp success
  obtain ⟨closing, _, closingRead, success⟩ := bind_eq_ok.mp success
  obtain ⟨rfl, rfl⟩ := pure_eq_ok_iff.mp success
  obtain ⟨closed, rfl⟩ := expect_eq_ok_iff.mp closingRead
  obtain ⟨bodyTokens, rfl, bodySpelled, bodyFits⟩ := Expr.sound_parseWithin _ _ _ _ _ bodyRead
  obtain ⟨secondComma, rfl⟩ := expect_eq_ok_iff.mp afterUpperRead
  obtain ⟨upperTokens, rfl, upperSpelled, upperFits⟩ := Expr.sound_parseWithin _ _ _ _ _ upperRead
  obtain ⟨keyword, isKeyword, rfl⟩ := expectRangeKeyword_eq_ok_iff.mp keywordRead
  obtain ⟨lowerTokens, rfl, lowerSpelled, lowerFits⟩ := Expr.sound_parseWithin _ _ _ _ _ lowerRead
  obtain ⟨firstComma, rfl⟩ := expect_eq_ok_iff.mp afterIndexRead
  obtain ⟨name, rfl⟩ := expect_eq_ok_iff.mp indexRead
  obtain ⟨opened, rfl⟩ := expect_eq_ok_iff.mp openingRead
  refine ⟨_, _, _, _, _, rfl, ?_, .range opened name firstComma lowerSpelled isKeyword upperSpelled
    secondComma bodySpelled closed, ?_⟩
  · simp only [Stream.unread_unread, List.cons_append, List.nil_append]
  · simp only [Fits, List.mem_cons, List.not_mem_nil, or_false, forall_eq_or_imp, forall_eq]
    exact ⟨lowerFits, upperFits, bodyFits⟩

section Range

variable {opening index afterIndex keyword afterUpper closing : Token}
variable {lowerTokens upperTokens bodyTokens : List Token} {lower upper body : Expr}

theorem parseRange_unread (after : Stream)
    (opened : opening.kind = .leftBracket) (name : index.kind = .name)
    (firstComma : afterIndex.kind = .comma) (lowerSpelled : Expr.Spelling lowerTokens lower)
    (isKeyword : keyword.isKeyword rangeKeyword = true)
    (upperSpelled : Expr.Spelling upperTokens upper) (secondComma : afterUpper.kind = .comma)
    (bodySpelled : Expr.Spelling bodyTokens body) (closed : closing.kind = .rightBracket)
    (fits : Fits scope (.range index.text lower upper body)) :
    parseRange scope (after.unread (opening :: index :: afterIndex :: (lowerTokens ++ keyword ::
        (upperTokens ++ afterUpper :: (bodyTokens ++ [closing]))))) =
      .ok (.range index.text lower upper body) after := by
  simp only [Fits, List.mem_cons, List.not_mem_nil, or_false, forall_eq_or_imp, forall_eq] at fits
  obtain ⟨lowerFits, upperFits, bodyFits⟩ := fits
  -- The streams after each part, from the last one to the first.
  let beforeClosing := after.unread [closing]
  let afterComma := beforeClosing.unread bodyTokens
  let beforeComma := afterComma.unread [afterUpper]
  let afterKeyword := beforeComma.unread upperTokens
  let beforeKeyword := afterKeyword.unread [keyword]
  let afterFirst := beforeKeyword.unread lowerTokens
  have split : after.unread (opening :: index :: afterIndex :: (lowerTokens ++ keyword ::
      (upperTokens ++ afterUpper :: (bodyTokens ++ [closing])))) =
      ((afterFirst.unread [afterIndex]).unread [index]).unread [opening] := by
    simp only [afterFirst, beforeKeyword, afterKeyword, beforeComma, afterComma, beforeClosing,
      Stream.unread_unread, List.cons_append, List.nil_append, List.append_assoc]
  have lowerRead : Expr.parse (scope.withIndex index.text) afterFirst = .ok lower beforeKeyword :=
    Expr.complete_parseWithin _ _ _ _ _ ⟨lowerSpelled, lowerFits⟩
      (noOperator_of_keyword afterKeyword isKeyword)
  have keywordRead : expectRangeKeyword beforeKeyword = .ok () afterKeyword :=
    expectRangeKeyword_eq_ok_iff.mpr ⟨keyword, isKeyword, rfl⟩
  have upperRead : Expr.parse (scope.withIndex index.text) afterKeyword = .ok upper beforeComma :=
    Expr.complete_parseWithin _ _ _ _ _ ⟨upperSpelled, upperFits⟩
      (Stream.noOperator_unread afterComma (by rw [secondComma]; rfl))
  have bodyRead : Expr.parse (scope.withIndex index.text) afterComma = .ok body beforeClosing :=
    Expr.complete_parseWithin _ _ _ _ _ ⟨bodySpelled, bodyFits⟩
      (Stream.noOperator_unread after (by rw [closed]; rfl))
  rw [split, parseRange, bind_of_ok (expect_unread _ opened), bind_of_ok (expect_unread _ name),
    bind_of_ok (expect_unread _ firstComma), bind_of_ok lowerRead, bind_of_ok keywordRead,
    bind_of_ok upperRead, bind_of_ok (expect_unread _ secondComma), bind_of_ok bodyRead,
    bind_of_ok (expect_unread _ closed)]
  rfl

/-- Behind its opening bracket a range is no list of items. It fails as one at an unknown name, or
at the word between the bounds. -/
private theorem separated_of_range (scope : Scope) (after : Stream) (name : index.kind = .name)
    (firstComma : afterIndex.kind = .comma) (lowerSpelled : Expr.Spelling lowerTokens lower)
    (lowerLeans : lower.leansRight = true) (lowerBounded : lower.depth ≤ nestingLimit)
    (isKeyword : keyword.isKeyword rangeKeyword = true) :
    ∃ diagnostic stopped, diagnostic.fault.isNestingTooDeep = false ∧
      separated .rightBracket (Expr.parse scope) (neverRewinds_item scope)
        ((((after.unread [keyword]).unread lowerTokens).unread [afterIndex]).unread [index]) =
          .error diagnostic stopped := by
  let beforeKeyword := after.unread [keyword]
  let afterComma := beforeKeyword.unread lowerTokens
  let beforeComma := afterComma.unread [afterIndex]
  have keywordKind : keyword.kind = .name := by
    simp only [Token.isKeyword, Bool.and_eq_true, beq_iff_eq] at isKeyword
    exact isKeyword.1
  have indexSpelled : Expr.Spelling [index] (.reference index.text) := .reference (.inl name)
  have indexOutcome : Expr.Outcome scope (.reference index.text) beforeComma
      (Expr.parse scope (beforeComma.unread [index])) :=
    Expr.outcome_of_spelling indexSpelled rfl (Nat.zero_le _)
      (Stream.noOperator_unread afterComma (by rw [firstComma]; rfl))
  have lowerOutcome : Expr.Outcome scope lower beforeKeyword (Expr.parse scope afterComma) :=
    Expr.outcome_of_spelling lowerSpelled lowerLeans lowerBounded
      (noOperator_of_keyword after isKeyword)
  generalize indexRead : Expr.parse scope (beforeComma.unread [index]) = ended at indexOutcome
  cases indexOutcome with
  | undefined _ _ => exact ⟨_, _, rfl, separated_of_item_error _ indexRead⟩
  | read _ =>
      rw [separated_of_comma _ indexRead firstComma (by decide)]
      generalize lowerRead : Expr.parse scope afterComma = lowerEnded at lowerOutcome
      cases lowerOutcome with
      | undefined _ _ =>
          rw [separated_of_item_error _ lowerRead]
          exact ⟨_, _, rfl, rfl⟩
      | read _ =>
          rw [separated_of_mark_error _ lowerRead (by simp [keywordKind])]
          exact ⟨_, _, rfl, rfl⟩

/-- Where a range is spelled, reading a list of items fails, and not for a lack of levels. -/
theorem parseItems_of_range (scope : Scope) (after : Stream)
    (opened : opening.kind = .leftBracket) (name : index.kind = .name)
    (firstComma : afterIndex.kind = .comma) (lowerSpelled : Expr.Spelling lowerTokens lower)
    (lowerLeans : lower.leansRight = true) (lowerBounded : lower.depth ≤ nestingLimit)
    (isKeyword : keyword.isKeyword rangeKeyword = true) (rest : List Token) :
    ∃ diagnostic stopped, diagnostic.fault.isNestingTooDeep = false ∧
      parseItems scope (after.unread (opening :: index :: afterIndex :: (lowerTokens ++
        keyword :: rest))) = .error diagnostic stopped := by
  let afterOpening := (((((after.unread rest).unread [keyword]).unread lowerTokens).unread
    [afterIndex]).unread [index])
  have split : after.unread (opening :: index :: afterIndex :: (lowerTokens ++ keyword :: rest)) =
      afterOpening.unread [opening] := by
    simp only [afterOpening, Stream.unread_unread, List.cons_append, List.nil_append]
  have nothingTaken : takeIf (·.kind == .rightBracket) afterOpening = .ok none afterOpening := by
    refine takeIf_eq_none_iff.mpr ⟨rfl, fun token found => ?_⟩
    cases found
    rw [name]
    rfl
  obtain ⟨diagnostic, stopped, shallow, failed⟩ := separated_of_range scope (after.unread rest) name
    firstComma lowerSpelled lowerLeans lowerBounded isKeyword
  have delimitedFails : delimited .leftBracket .rightBracket (Expr.parse scope)
      (neverRewinds_item scope) (afterOpening.unread [opening]) = .error diagnostic stopped := by
    rw [delimited, bind_of_ok (expect_unread _ opened), bind_of_ok nothingTaken]
    exact failed
  refine ⟨diagnostic, stopped, shallow, ?_⟩
  rw [split, parseItems, bind_of_error delimitedFails]

end Range

/-! ### Both forms -/

/-- Where a range is read, reading a list of items fails, and not for a lack of levels. -/
theorem parseItems_of_parseRange {before after : Stream} {series : Series}
    (success : parseRange scope before = .ok series after) :
    ∃ diagnostic stopped, diagnostic.fault.isNestingTooDeep = false ∧
      parseItems scope before = .error diagnostic stopped := by
  obtain ⟨tokens, index, lower, upper, body, rfl, rfl, spelled, fits⟩ := parseRange_eq_ok success
  have lowerFits := fits lower (List.mem_cons_self ..)
  cases spelled with
  | range opened name firstComma lowerSpelled isKeyword _ _ _ _ =>
      exact parseItems_of_range scope after opened name firstComma lowerSpelled
        lowerFits.leansRight lowerFits.depth_le isKeyword _

theorem parse_eq_ok_iff_either {before after : Stream} {series : Series} :
    parse scope before = .ok series after ↔
      parseItems scope before = .ok series after ∨ parseRange scope before = .ok series after := by
  constructor
  · intro success
    unfold parse at success
    split at success
    · rename_i itemsRead
      cases success
      exact .inl itemsRead
    · split at success
      · cases success
      · exact .inr success
  · rintro (itemsRead | rangeRead)
    · rw [parse, itemsRead]
    · obtain ⟨diagnostic, stopped, shallow, failed⟩ := parseItems_of_parseRange rangeRead
      rw [parse, failed]
      simp only [shallow, Bool.false_eq_true, if_false]
      exact rangeRead

theorem parse_eq_ok_iff {before after : Stream} {series : Series} :
    parse scope before = .ok series after ↔
      ∃ tokens, before = after.unread tokens ∧ Spelling tokens series ∧ series.Fits scope := by
  rw [parse_eq_ok_iff_either]
  constructor
  · rintro (itemsRead | rangeRead)
    · obtain ⟨tokens, items, same, rfl, spelled, fits⟩ := parseItems_eq_ok_iff.mp itemsRead
      exact ⟨tokens, same, .list spelled, fits⟩
    · obtain ⟨tokens, _, _, _, _, rfl, same, spelled, fits⟩ := parseRange_eq_ok rangeRead
      exact ⟨tokens, same, spelled, fits⟩
  · rintro ⟨tokens, rfl, spelled, fits⟩
    cases spelled with
    | @list _ items spelled =>
        exact .inl (parseItems_eq_ok_iff.mpr ⟨tokens, items, rfl, rfl, spelled, fits⟩)
    | range opened name firstComma lowerSpelled isKeyword upperSpelled secondComma bodySpelled
        closed =>
        exact .inr (parseRange_unread after opened name firstComma lowerSpelled isKeyword
          upperSpelled secondComma bodySpelled closed fits)

/-- A series is read exactly if it is read in one of the two forms, and these exclude each other. An
expression that is nested too deeply never hides a range. -/
theorem parse_eq_ok_iff_items_or_range (scope : Scope) (stream : Stream) :
    (∀ series after, parse scope stream = .ok series after ↔
      parseItems scope stream = .ok series after ∨ parseRange scope stream = .ok series after) ∧
    (∀ series after other otherAfter, ¬ (parseItems scope stream = .ok series after ∧
      parseRange scope stream = .ok other otherAfter)) ∧
    ∀ diagnostic stopped series after, parseItems scope stream = .error diagnostic stopped →
      diagnostic.fault.isNestingTooDeep = true → parseRange scope stream ≠ .ok series after := by
  refine ⟨fun series after => parse_eq_ok_iff_either, ?_, ?_⟩
  · rintro series after other otherAfter ⟨itemsRead, rangeRead⟩
    obtain ⟨diagnostic, stopped, _, failed⟩ := parseItems_of_parseRange rangeRead
    rw [itemsRead] at failed
    cases failed
  · intro diagnostic stopped series after failed deep rangeRead
    obtain ⟨other, otherStopped, shallow, failedToo⟩ := parseItems_of_parseRange rangeRead
    rw [failed] at failedToo
    cases failedToo
    rw [deep] at shallow
    cases shallow

/-- The index is also the name of a node, so that a list of items comes as far as the word between
the bounds. With a second item that is nested too deeply there is no range either. -/
theorem parse_eq_ok_iff_items_or_range_of_known_index :
    (∃ series after,
      parseRange (.ofNames ["i"]) (.ofTokens (Token.scan "[i,i to 3,i]")) = .ok series after ∧
      parse (.ofNames ["i"]) (.ofTokens (Token.scan "[i,i to 3,i]")) = .ok series after ∧
      ∀ other otherAfter, parseItems (.ofNames ["i"]) (.ofTokens (Token.scan "[i,i to 3,i]")) ≠
        .ok other otherAfter) ∧
    ∃ diagnostic stopped,
      parseItems (.ofNames ["i"]) (.ofTokens (Token.scan "[i," ++
        List.replicate 257 ⟨1, 4, "(", .leftParen⟩)) = .error diagnostic stopped ∧
      diagnostic.fault.isNestingTooDeep = true ∧
      ∀ series after, parseRange (.ofNames ["i"]) (.ofTokens (Token.scan "[i," ++
        List.replicate 257 ⟨1, 4, "(", .leftParen⟩)) ≠ .ok series after := by
  constructor
  · have rangeRead : parseRange (.ofNames ["i"]) (.ofTokens (Token.scan "[i,i to 3,i]")) =
        .ok (.range "i" (.reference "i") (.number ⟨0x4008000000000000⟩) (.reference "i"))
          ⟨[], ⟨1, 12, "", .endOfInput⟩⟩ := by
      decide +kernel
    obtain ⟨either, apart, _⟩ :=
      parse_eq_ok_iff_items_or_range (.ofNames ["i"]) (.ofTokens (Token.scan "[i,i to 3,i]"))
    refine ⟨_, _, rangeRead, (either _ _).mpr (.inr rangeRead), ?_⟩
    intro other otherAfter itemsRead
    exact apart _ _ _ _ ⟨itemsRead, rangeRead⟩
  · have failed : parseItems (.ofNames ["i"]) (.ofTokens (Token.scan "[i," ++
        List.replicate 257 ⟨1, 4, "(", .leftParen⟩)) =
        .error ⟨.nestingTooDeep 256, ⟨1, 4, "(", .leftParen⟩⟩
          ⟨[], ⟨1, 4, "", .endOfInput⟩⟩ := by
      decide +kernel
    obtain ⟨_, _, deepest⟩ := parse_eq_ok_iff_items_or_range (.ofNames ["i"])
      (.ofTokens (Token.scan "[i," ++ List.replicate 257 ⟨1, 4, "(", .leftParen⟩))
    exact ⟨_, _, failed, rfl, fun series after => deepest _ _ series after failed rfl⟩

end AudioMarkup.Series
