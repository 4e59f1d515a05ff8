import AudioMarkup.Proofs.Expr.Truncation
import AudioMarkup.Proofs.Series.Grammar

/-!
Series that are cut short. A series is read as a list of items first. If a list is cut, this attempt
finds the input exhausted, which is a failure like any other: what is there of the list is then read
as a range, and the fault of this second attempt is the one that is reported. `Series.Misfit` has
the first token behind the bracket that no range has in its place; `Series.curtails_parse` states
that it is refused if there is one, and that the input is called exhausted otherwise.
-/

namespace AudioMarkup

open Parse

namespace Series

/-! ### Brackets -/

def Open (tokens inner : List Token) : Prop :=
  ∃ before opening, tokens = before ++ opening :: inner ∧ opening.kind = .leftBracket ∧
    ∀ token ∈ inner, token.kind ≠ .rightBracket

def Closed (tokens : List Token) : Prop := ∀ inner, ¬ Open tokens inner

/-- Among the tokens behind the bracket of a series, the first one that cannot stand there in a
range: in place of the index, in place of the comma behind it, or in place of the keyword behind
the lower bound. -/
inductive Misfit : List Token → Token → Prop where
  | index {token : Token} {rest : List Token} :
      token.kind ≠ .name → Misfit (token :: rest) token
  | comma {index token : Token} {rest : List Token} :
      index.kind = .name → token.kind ≠ .comma → Misfit (index :: token :: rest) token
  | keyword {index comma token : Token} {lowerTokens rest : List Token} {lower : Expr} :
      index.kind = .name → comma.kind = .comma → Expr.Spelling lowerTokens lower →
      token.kind = .comma → Misfit (index :: comma :: (lowerTokens ++ token :: rest)) token

/-- A series is left open, and the token is the first that no range has in its place. -/
def Misread (tokens : List Token) (token : Token) : Prop :=
  ∃ inner, Open tokens inner ∧ Misfit inner token

/-- The comma in place of the keyword is the first one behind the lower bound. -/
private theorem find?_comma {tokens : List Token} {token : Token} {lower : Expr}
    (rest : List Token) (spelled : Expr.Spelling tokens lower) (comma : token.kind = .comma) :
    (tokens ++ token :: rest).find? (fun other => other.kind == .comma) = some token := by
  have none : tokens.find? (fun other => other.kind == .comma) = none := by
    rw [List.find?_eq_none]
    intro other member
    rw [beq_iff_eq]
    exact spelled.no_comma other member
  rw [List.find?_append, none, Option.none_or, List.find?_cons_of_pos (by rw [comma]; rfl)]

theorem Misfit.unique {inner : List Token} {token other : Token} (first : Misfit inner token)
    (second : Misfit inner other) : token = other := by
  cases first with
  | index noName =>
      cases second with
      | index => rfl
      | comma name | keyword name => exact absurd name noName
  | comma name noComma =>
      cases second with
      | index noName => exact absurd name noName
      | comma => rfl
      | keyword _ comma => exact absurd comma noComma
  | @keyword _ _ _ tokens rest _ name comma spelled isComma =>
      generalize split : tokens ++ token :: rest = behind at second
      have found := find?_comma rest spelled isComma
      cases second with
      | index noName => exact absurd name noName
      | comma _ noComma => exact absurd comma noComma
      | keyword _ _ otherSpelled otherComma =>
          rw [split, find?_comma _ otherSpelled otherComma] at found
          exact (Option.some.inj found).symm

theorem Open.append {back inner : List Token} (opened : Open back inner) (front : List Token) :
    Open (front ++ back) inner := by
  obtain ⟨before, opening, split, bracket, unclosed⟩ := opened
  exact ⟨front ++ before, opening, by rw [split, List.append_assoc], bracket, unclosed⟩

theorem Open.of_append {front back inner : List Token} (closed : Closed front)
    (opened : Open (front ++ back) inner) : Open back inner := by
  obtain ⟨before, opening, split, bracket, unclosed⟩ := opened
  rcases List.append_eq_append_iff.mp split with ⟨between, _, behind⟩ | ⟨between, inFront, behind⟩
  · exact ⟨between, opening, behind, bracket, unclosed⟩
  · cases between with
    | nil => exact ⟨[], opening, behind.symm, bracket, unclosed⟩
    | cons first between =>
        -- The bracket is in front, and nothing behind it would close it there.
        obtain ⟨rfl, rfl⟩ := List.cons.inj behind
        refine absurd ⟨before, opening, inFront, bracket, ?_⟩ (closed between)
        intro token member
        exact unclosed token (List.mem_append_left _ member)

theorem closed_nil : Closed [] := by
  rintro inner ⟨before, opening, split, _, _⟩
  simp at split

theorem Closed.append {front back : List Token} (first : Closed front) (second : Closed back) :
    Closed (front ++ back) :=
  fun inner opened => second inner (opened.of_append first)

theorem closed_singleton {token : Token} (other : token.kind ≠ .leftBracket) : Closed [token] := by
  rintro inner ⟨before, opening, split, bracket, _⟩
  obtain ⟨_, same⟩ | ⟨_, impossible⟩ := List.append_eq_singleton_iff.mp split.symm
  · obtain ⟨rfl, _⟩ := List.cons.inj same
    exact other bracket
  · cases impossible

theorem closed_concat {tokens : List Token} {closing : Token}
    (closed : closing.kind = .rightBracket) :
    Closed (tokens ++ [closing]) := by
  rintro inner ⟨before, opening, split, bracket, unclosed⟩
  rcases List.append_eq_append_iff.mp split with ⟨between, _, behind⟩ | ⟨between, _, behind⟩
  · obtain ⟨_, same⟩ | ⟨_, impossible⟩ := List.append_eq_singleton_iff.mp behind.symm
    · obtain ⟨rfl, _⟩ := List.cons.inj same
      rw [closed] at bracket
      cases bracket
    · cases impossible
  · cases between with
    | nil =>
        obtain ⟨rfl, _⟩ := List.cons.inj behind
        rw [closed] at bracket
        cases bracket
    | cons first between =>
        obtain ⟨_, rfl⟩ := List.cons.inj behind
        exact unclosed closing (by simp) closed

theorem open_cons_iff {opening : Token} {inner other : List Token}
    (bracket : opening.kind = .leftBracket)
    (plain : ∀ token ∈ inner, token.kind ≠ .leftBracket ∧ token.kind ≠ .rightBracket) :
    Open (opening :: inner) other ↔ other = inner := by
  constructor
  · rintro ⟨before, second, split, secondBracket, _⟩
    cases before with
    | nil => exact (List.cons.inj split).2.symm
    | cons first before =>
        have member : second ∈ inner := by
          rw [(List.cons.inj split).2]
          simp
        exact absurd secondBracket (plain second member).1
  · rintro rfl
    exact ⟨[], opening, rfl, bracket, fun token member => (plain token member).2⟩

/-- No bracket that was passed is open. When the tokens are spent, an open series may still become a
range. -/
def account : Account where
  Passed := Closed
  Spent tokens := ∀ token, ¬ Misread tokens token
  Misled tokens token := ∀ other, Misread tokens other ↔ other = token
  strict := False
  passed_nil := closed_nil
  passed_append := Closed.append
  spent_nil := by
    rintro token ⟨inner, opened, _⟩
    exact closed_nil inner opened
  spent_append := by
    rintro front back closed spent token ⟨inner, opened, misfit⟩
    exact spent token ⟨inner, opened.of_append closed, misfit⟩
  misled_append := by
    intro front back token closed misled other
    rw [← misled other]
    constructor
    · rintro ⟨inner, opened, misfit⟩
      exact ⟨inner, opened.of_append closed, misfit⟩
    · rintro ⟨inner, opened, misfit⟩
      exact ⟨inner, opened.append front, misfit⟩

/-! ### The tokens of series -/

def innerKinds : List Token.Kind := .comma :: Expr.tokenKinds

theorem plain_of_innerKinds {kind : Token.Kind} (listed : kind ∈ innerKinds) :
    kind ≠ .leftBracket ∧ kind ≠ .rightBracket := by
  constructor
  · rintro rfl
    revert listed
    decide
  · rintro rfl
    revert listed
    decide

private theorem inner_of_listSpelling {tokens : List Token} {items : List Expr}
    (spelled : ListSpelling .rightBracket Expr.Spelling tokens items) :
    ∃ inner closing, tokens = inner ++ [closing] ∧ closing.kind = .rightBracket ∧
      ∀ token ∈ inner, token.kind ∈ innerKinds := by
  induction spelled with
  | @last tokens _ mark item closed =>
      exact ⟨tokens, mark, rfl, closed, fun token member =>
        List.mem_cons_of_mem _ (item.kind_mem token member)⟩
  | @more tokens rest _ _ mark item comma _ ih =>
      obtain ⟨inner, closing, rfl, closed, kinds⟩ := ih
      refine ⟨tokens ++ mark :: inner, closing, by simp, closed, ?_⟩
      intro token member
      rcases List.mem_append.mp member with own | behind
      · exact List.mem_cons_of_mem _ (item.kind_mem token own)
      · rcases List.mem_cons.mp behind with rfl | later
        · rw [comma]
          exact List.mem_cons_self ..
        · exact kinds token later

theorem name_of_isKeyword {token : Token} {word : String}
    (isKeyword : token.isKeyword word = true) :
    token.kind = .name := by
  simp only [Token.isKeyword, Bool.and_eq_true, beq_iff_eq] at isKeyword
  exact isKeyword.1

theorem Spelling.exists_inner {tokens : List Token} {series : Series}
    (spelled : Spelling tokens series) :
    ∃ opening inner closing, tokens = opening :: (inner ++ [closing]) ∧
      opening.kind = .leftBracket ∧ closing.kind = .rightBracket ∧
      ∀ token ∈ inner, token.kind ∈ innerKinds := by
  cases spelled with
  | list spelled =>
      cases spelled with
      | @empty first last opened closed => exact ⟨first, [], last, rfl, opened, closed, by simp⟩
      | @items first tokens _ opened listed =>
          obtain ⟨inner, closing, rfl, closed, kinds⟩ := inner_of_listSpelling listed
          exact ⟨first, inner, closing, rfl, opened, closed, kinds⟩
  | @range opening index afterIndex keyword afterUpper closing lowerTokens upperTokens bodyTokens _ _
      _ opened name firstComma lower isKeyword upper secondComma body closed =>
      refine ⟨opening, index :: afterIndex :: (lowerTokens ++ keyword ::
        (upperTokens ++ afterUpper :: bodyTokens)), closing, by simp, opened, closed, ?_⟩
      intro token member
      simp only [List.mem_cons, List.mem_append] at member
      rcases member with rfl | rfl | inLower | rfl | inUpper | rfl | inBody
      · rw [name]; decide
      · rw [firstComma]; decide
      · exact List.mem_cons_of_mem _ (lower.kind_mem token inLower)
      · rw [name_of_isKeyword isKeyword]; decide
      · exact List.mem_cons_of_mem _ (upper.kind_mem token inUpper)
      · rw [secondComma]; decide
      · exact List.mem_cons_of_mem _ (body.kind_mem token inBody)

/-! ### The two attempts -/

variable {scope : Scope}

private theorem curtails_parseItems (scope : Scope) :
    Curtails .silent (fun _ => False) (parseItems scope) := by
  have items : Curtails .silent (fun _ => True) (Expr.parse scope) :=
    Expr.curtails_parseWithin (fun _ _ => trivial) scope nestingLimit
  apply (curtails_delimited (neverRewinds_item scope) items (Expr.quiet_parse scope)
    fun _ _ => trivial).bind
  · intro items
    exact curtails_pure _
  · intro items impossible
    exact impossible.elim

private theorem curtails_expectRangeKeyword :
    Curtails .silent (fun _ => False) expectRangeKeyword := by
  apply curtails_expectAny_bind fun _ _ => trivial
  intro token _
  split
  · exact curtails_pure _
  · exact curtails_fail _ token

private theorem curtails_parseRange (scope : Scope) :
    Curtails .silent (fun _ => False) (parseRange scope) := by
  have parts (scope : Scope) : Curtails .silent (fun _ => True) (Expr.parse scope) :=
    Expr.curtails_parseWithin (fun _ _ => trivial) scope nestingLimit
  apply curtails_expectAny_bind fun _ _ => trivial
  intro _ _
  apply curtails_expectAny_bind fun _ _ => trivial
  intro index _
  apply curtails_expectAny_bind fun _ _ => trivial
  intro _ _
  apply (parts _).bind
  · intro lower
    apply curtails_expectRangeKeyword.bind
    · intro _
      apply (parts _).bind
      · intro upper
        apply curtails_expectAny_bind fun _ _ => trivial
        intro _ _
        apply (parts _).bind
        · intro body
          exact curtails_expectAny_bind (fun _ _ => trivial) fun _ _ => curtails_pure _
        · intro body _
          exact quiet_expectAny_bind _ _
      · intro upper _
        exact quiet_expectAny_bind _ _
    · intro _ impossible
      exact impossible.elim
  · intro lower _
    apply (quiet_expectAny_bind _ _ : Quiet (fun _ => False) expectRangeKeyword).bind
    intro _ impossible
    exact impossible.elim

/-- What is read in full is not read in part. -/
private theorem exhausted_of_cut {α : Type} {step : Parse α} {value : α} {after : Stream}
    {tokens front remaining : List Token} (stop : Token)
    (curtails : Curtails .silent (fun _ => False) step)
    (read : step (after.unread tokens) = .ok value after) (split : tokens = front ++ remaining)
    (proper : remaining ≠ []) :
    ∃ token stopped, step ⟨front, stop⟩ = .error ⟨.exhaustedInput, token⟩ stopped := by
  have cut : (after.unread tokens).ahead = front ++ (remaining ++ after.ahead) := by
    rw [Stream.unread_ahead, split, List.append_assoc]
  have outcome := curtails _ _ ⟨front, stop⟩ cut
  rw [read] at outcome
  generalize step ⟨front, stop⟩ = result at outcome
  cases outcome with
  | @same _ _ _ left _ _ behind =>
      have lengths := congrArg List.length behind
      have positive := List.length_pos_iff.mpr proper
      simp only [List.length_append] at lengths
      omega
  | spent _ atEnd =>
      cases atEnd with
      | ended impossible _ => exact impossible.elim
      | @exhausted token stopped => exact ⟨token, stopped, rfl⟩
  | misled impossible => exact impossible.elim

/-- A cut leaves no other fault of the first attempt than the one that it has on the whole. -/
private theorem parseItems_of_cut {after stopped : Stream} {tokens front remaining : List Token}
    {diagnostic : Diagnostic} (stop : Token)
    (failed : parseItems scope (after.unread tokens) = .error diagnostic stopped)
    (shallow : diagnostic.fault.isNestingTooDeep = false) (split : tokens = front ++ remaining) :
    ∃ other left, parseItems scope ⟨front, stop⟩ = .error other left ∧
      other.fault.isNestingTooDeep = false := by
  have cut : (after.unread tokens).ahead = front ++ (remaining ++ after.ahead) := by
    rw [Stream.unread_ahead, split, List.append_assoc]
  have outcome := curtails_parseItems scope _ _ ⟨front, stop⟩ cut
  rw [failed] at outcome
  generalize parseItems scope ⟨front, stop⟩ = result at outcome
  cases outcome with
  | @fault _ _ left => exact ⟨diagnostic, left, rfl, shallow⟩
  | unknown lenient => exact absurd trivial lenient
  | spent _ atEnd =>
      cases atEnd with
      | ended impossible _ => exact impossible.elim
      | exhausted => exact ⟨_, _, rfl, rfl⟩
  | misled impossible => exact impossible.elim

private theorem parse_of_items_error {stream stopped : Stream} {diagnostic : Diagnostic}
    (failed : parseItems scope stream = .error diagnostic stopped)
    (shallow : diagnostic.fault.isNestingTooDeep = false) :
    parse scope stream = parseRange scope stream := by
  rw [parse, failed]
  simp only [shallow, Bool.false_eq_true, if_false]

theorem quiet_parse (scope : Scope) : Quiet (fun _ => True) (parse scope) := by
  intro stream finished
  have items : AtEnd (fun _ => False) (parseItems scope stream) :=
    ((quiet_delimited _ (neverRewinds_item scope)).bind fun _ impossible => impossible.elim)
      stream finished
  generalize itemsEnded : parseItems scope stream = result at items
  cases items with
  | ended impossible _ => exact impossible.elim
  | exhausted =>
      rw [parse_of_items_error itemsEnded rfl]
      exact quiet_expectAny_bind _ _ stream finished

/-! ### A list that is cut -/

private theorem fits_withIndex {expr : Expr} {levels : Nat} (fits : expr.Fits scope levels)
    (noIndex : scope.index? = none) (index : String) :
    expr.Fits (scope.withIndex index) levels := by
  refine ⟨fits.leansRight, fits.depth_le, fun name used => ?_⟩
  have resolved := fits.resolves name used
  simp only [Scope.resolves, noIndex, Scope.withIndex, Bool.or_eq_true] at resolved ⊢
  rcases resolved with impossible | defined
  · cases impossible
  · exact .inr defined

/-- How a range ends on what is there of a list: the tokens are spent and could begin a range, or
the first one that could not is refused. -/
inductive ReadAsRange (inner : List Token) : EStateM.Result Diagnostic Stream Series → Prop where
  | exhausted {token : Token} {stopped : Stream} :
      (∀ other, ¬ Misfit inner other) →
      ReadAsRange inner (.error ⟨.exhaustedInput, token⟩ stopped)
  | refused {token : Token} {stopped : Stream} :
      Misfit inner token → ReadAsRange inner (.error ⟨.unexpectedToken, token⟩ stopped)

section List

variable {first comma : Token} {rest : List Token}

private theorem eq_singleton_of_comma {tokens behind : List Token} {item : Expr}
    (spelled : Expr.Spelling tokens item) (isComma : comma.kind = .comma)
    (split : tokens ++ behind = first :: comma :: rest) :
    tokens = [first] ∧ behind = comma :: rest := by
  obtain ⟨head, others, rfl, _⟩ := spelled.starts
  cases others with
  | nil =>
      obtain ⟨rfl, behindHead⟩ := List.cons.inj split
      exact ⟨rfl, behindHead⟩
  | cons second others =>
      obtain ⟨_, behindHead⟩ := List.cons.inj split
      obtain ⟨rfl, _⟩ := List.cons.inj behindHead
      exact absurd isComma (spelled.no_comma second (by simp))

/-- Behind the first comma of a list there is a second item, with a comma or the end of the list
behind it. -/
private theorem exists_second_item {items : List Expr} (isComma : comma.kind = .comma)
    (spelled : ListSpelling .rightBracket Expr.Spelling (first :: comma :: rest) items) :
    ∃ tokens mark behind item, rest = tokens ++ mark :: behind ∧ Expr.Spelling tokens item ∧
      item ∈ items ∧ (mark.kind = .comma ∨ behind = []) := by
  generalize split : first :: comma :: rest = listed at spelled
  cases spelled with
  | last item closed =>
      obtain ⟨_, same⟩ := eq_singleton_of_comma item isComma split.symm
      obtain ⟨rfl, _⟩ := List.cons.inj same
      rw [isComma] at closed
      cases closed
  | more item _ others =>
      obtain ⟨_, same⟩ := eq_singleton_of_comma item isComma split.symm
      obtain ⟨_, rfl⟩ := List.cons.inj same
      cases others with
      | @last tokens item mark spelled _ =>
          exact ⟨tokens, mark, [], item, rfl, spelled, by simp, .inr rfl⟩
      | @more tokens behind item _ mark spelled comma _ =>
          exact ⟨tokens, mark, behind, item, rfl, spelled, by simp, .inl comma⟩

private theorem not_misfit (name : first.kind = .name) (isComma : comma.kind = .comma)
    (single : ∀ token ∈ rest, token.kind ≠ .comma) (other : Token) :
    ¬ Misfit (first :: comma :: rest) other := by
  intro misfit
  cases misfit with
  | index noName => exact noName name
  | comma _ noComma => exact noComma isComma
  | keyword _ _ _ second => exact single other (by simp) second

private theorem atEnd_of_cut {tokens more : List Token} {item : Expr} (stop : Token)
    (spelled : Expr.Spelling tokens item) (fits : item.Fits scope nestingLimit)
    (split : tokens = more ++ rest) :
    AtEnd (fun _ => True) (Expr.parse scope ⟨more, stop⟩) := by
  have read : Expr.parse scope ⟨tokens, stop⟩ = .ok item ⟨[], stop⟩ := by
    have ends : Stream.NoOperator ⟨[], stop⟩ := by
      intro token impossible
      cases impossible
    have whole := Expr.complete_parseWithin scope nestingLimit tokens item ⟨[], stop⟩
      ⟨spelled, fits⟩ ends
    rwa [Stream.unread, List.append_nil] at whole
  have outcome : CutShort .silent (fun _ => True) rest _ _ _ :=
    Expr.curtails_parseWithin (fun _ _ => trivial) scope nestingLimit rest ⟨tokens, stop⟩
      ⟨more, stop⟩ split
  rw [Expr.parse] at read ⊢
  rw [read] at outcome
  generalize Expr.parseWithin scope nestingLimit ⟨more, stop⟩ = result at outcome ⊢
  cases outcome with
  | same _ _ behind => exact .ended trivial (List.append_eq_nil_iff.mp behind.symm).1
  | spent _ atEnd => exact atEnd
  | misled impossible => exact impossible.elim

/-- Behind an index and a comma, what is there of a list is read as the lower bound. Either this is
cut, or the list has a comma where a range has its keyword. -/
private theorem readAsRange_of_cut_lower {stop : Token} {more remaining : List Token}
    {items : List Expr} (noIndex : scope.index? = none) (name : first.kind = .name)
    (isComma : comma.kind = .comma)
    (spelled : ListSpelling .rightBracket Expr.Spelling (first :: comma :: (more ++ remaining))
      items)
    (fits : ∀ item ∈ items, item.Fits scope nestingLimit) (proper : remaining ≠ [])
    (next : Expr → Parse Series) :
    ReadAsRange (first :: comma :: more)
      ((Expr.parse (scope.withIndex first.text) >>= fun lower =>
        expectRangeKeyword >>= fun _ => next lower) ⟨more, stop⟩) := by
  obtain ⟨tokens, mark, behind, item, split, lower, member, marked⟩ :=
    exists_second_item isComma spelled
  have lowerFits := fits_withIndex (fits item member) noIndex first.text
  have inside (cutOff : List Token) (inTokens : tokens = more ++ cutOff) :
      ReadAsRange (first :: comma :: more)
        ((Expr.parse (scope.withIndex first.text) >>= fun lower =>
          expectRangeKeyword >>= fun _ => next lower) ⟨more, stop⟩) := by
    have atEnd : AtEnd (fun _ => False) ((Expr.parse (scope.withIndex first.text) >>= fun lower =>
        expectRangeKeyword >>= fun _ => next lower) ⟨more, stop⟩) := by
      apply (atEnd_of_cut stop lower lowerFits inTokens).bind
      intro lower _
      apply (quiet_expectAny_bind _ _ : Quiet (fun _ => False) expectRangeKeyword).bind
      intro _ impossible
      exact impossible.elim
    have single : ∀ token ∈ more, token.kind ≠ .comma := by
      intro token inMore
      exact lower.no_comma token (by rw [inTokens]; exact List.mem_append_left _ inMore)
    revert atEnd
    generalize (Expr.parse (scope.withIndex first.text) >>= fun lower =>
      expectRangeKeyword >>= fun _ => next lower) ⟨more, stop⟩ = result
    intro atEnd
    cases atEnd with
    | ended impossible _ => exact impossible.elim
    | exhausted => exact .exhausted (not_misfit name isComma single)
  rcases List.append_eq_append_iff.mp split with ⟨cutOff, inTokens, _⟩ | ⟨between, inMore, atMark⟩
  · exact inside cutOff inTokens
  · cases between with
    | nil => exact inside [] (by rw [inMore, List.append_nil, List.append_nil])
    | cons other between =>
        obtain ⟨rfl, behindMark⟩ := List.cons.inj atMark
        have second : mark.kind = .comma := by
          rcases marked with second | final
          · exact second
          · rw [final] at behindMark
            exact absurd (List.append_eq_nil_iff.mp behindMark.symm).2 proper
        subst inMore
        have noOperator : Stream.NoOperator ⟨mark :: between, stop⟩ := by
          intro token ahead
          cases ahead
          rw [second]
          decide
        have lowerRead : Expr.parse (scope.withIndex first.text) ⟨tokens ++ mark :: between, stop⟩ =
            .ok item ⟨mark :: between, stop⟩ :=
          Expr.complete_parseWithin _ nestingLimit tokens item ⟨mark :: between, stop⟩
            ⟨lower, lowerFits⟩ noOperator
        have keywordFails : expectRangeKeyword ⟨mark :: between, stop⟩ =
            .error ⟨.unexpectedToken, mark⟩ ⟨mark :: between, stop⟩ := by
          rw [expectRangeKeyword]
          apply bind_of_error
          exact expectAny_unread_error ⟨between, stop⟩ (by rw [second]; decide)
        rw [bind_of_ok lowerRead, bind_of_error keywordFails]
        exact .refused (.keyword name isComma lower second)

/-- The second attempt on a list that is cut. -/
private theorem readAsRange_of_cut_list {opening stop : Token} {inner remaining : List Token}
    {items : List Expr} (noIndex : scope.index? = none) (opened : opening.kind = .leftBracket)
    (spelled : DelimitedSpelling .leftBracket .rightBracket Expr.Spelling
      (opening :: (inner ++ remaining)) items)
    (fits : ∀ item ∈ items, item.Fits scope nestingLimit) (proper : remaining ≠ []) :
    ReadAsRange inner (parseRange scope ⟨opening :: inner, stop⟩) := by
  have openingRead : expect .leftBracket ⟨opening :: inner, stop⟩ = .ok opening ⟨inner, stop⟩ :=
    expect_unread ⟨inner, stop⟩ opened
  rw [parseRange, bind_of_ok openingRead]
  cases inner with
  | nil => exact .exhausted fun other misfit => by cases misfit
  | cons first others =>
      by_cases name : first.kind = .name
      · have indexRead : expect .name ⟨first :: others, stop⟩ = .ok first ⟨others, stop⟩ :=
          expect_unread ⟨others, stop⟩ name
        rw [bind_of_ok indexRead]
        cases others with
        | nil =>
            refine .exhausted fun other misfit => ?_
            cases misfit with
            | index noName => exact noName name
        | cons second more =>
            by_cases isComma : second.kind = .comma
            · have commaRead : expect .comma ⟨second :: more, stop⟩ = .ok second ⟨more, stop⟩ :=
                expect_unread ⟨more, stop⟩ isComma
              rw [bind_of_ok commaRead]
              cases spelled with
              | items _ listed =>
                  exact readAsRange_of_cut_lower noIndex name isComma listed fits proper _
            · have commaFails : expect .comma ⟨second :: more, stop⟩ =
                  .error ⟨.unexpectedToken, second⟩ ⟨second :: more, stop⟩ :=
                expectAny_unread_error ⟨more, stop⟩ (by rwa [List.mem_singleton])
              rw [bind_of_error commaFails]
              exact .refused (.comma name isComma)
      · have indexFails : expect .name ⟨first :: others, stop⟩ =
            .error ⟨.unexpectedToken, first⟩ ⟨first :: others, stop⟩ :=
          expectAny_unread_error ⟨others, stop⟩ (by rwa [List.mem_singleton])
        rw [bind_of_error indexFails]
        exact .refused (.index name)

end List

/-! ### Cuts -/

/-- What is there of a range could begin one. -/
private theorem not_misfit_of_cut {tokens inner remaining : List Token} {opening : Token}
    {index : String} {lower upper body : Expr}
    (spelled : Spelling tokens (.range index lower upper body))
    (split : tokens = opening :: (inner ++ remaining)) (other : Token) : ¬ Misfit inner other := by
  cases spelled with
  | @range _ first comma keyword _ _ lowerTokens upperTokens bodyTokens _ _ _ _ name isComma lower
      isKeyword _ _ _ _ =>
      intro misfit
      cases misfit with
      | index noName =>
          simp only [List.cons_append, List.cons.injEq] at split
          exact noName (split.2.1 ▸ name)
      | comma _ noComma =>
          simp only [List.cons_append, List.cons.injEq] at split
          exact noComma (split.2.2.1 ▸ isComma)
      | @keyword _ _ _ otherTokens rest _ _ _ otherLower second =>
          simp only [List.cons_append, List.cons.injEq, List.append_assoc] at split
          obtain ⟨_, _, _, behind⟩ := split
          have differ : keyword ≠ other := by
            rintro rfl
            rw [name_of_isKeyword isKeyword] at second
            cases second
          rcases List.append_eq_append_iff.mp behind with ⟨between, longer, atOther⟩ |
            ⟨between, longer, atOther⟩
          · cases between with
            | nil => exact differ (List.cons.inj atOther).1
            | cons word between =>
                obtain ⟨rfl, _⟩ := List.cons.inj atOther
                rw [longer] at otherLower
                exact lower.not_append_name (name_of_isKeyword isKeyword) otherLower
          · cases between with
            | nil => exact differ (List.cons.inj atOther).1.symm
            | cons word between =>
                obtain ⟨rfl, _⟩ := List.cons.inj atOther
                exact lower.no_comma other (by rw [longer]; simp) second

/-- A series that is cut behind its bracket is always read again as a range. -/
private theorem readAsRange_of_cut {opening : Token} {tokens inner remaining : List Token}
    {series : Series} {after : Stream} (stop : Token) (noIndex : scope.index? = none)
    (read : parse scope (after.unread tokens) = .ok series after)
    (spelled : Spelling tokens series) (fits : series.Fits scope)
    (split : tokens = opening :: inner ++ remaining) (opened : opening.kind = .leftBracket)
    (proper : remaining ≠ []) :
    ReadAsRange inner (parse scope ⟨opening :: inner, stop⟩) := by
  cases series with
  | list items =>
      cases spelled with
      | list listed =>
          have whole : parseItems scope (after.unread tokens) = .ok (.list items) after :=
            parseItems_eq_ok_iff.mpr ⟨tokens, items, rfl, rfl, listed, fits⟩
          obtain ⟨token, stopped, failed⟩ :=
            exhausted_of_cut stop (curtails_parseItems scope) whole split proper
          rw [parse_of_items_error failed rfl]
          rw [split] at listed
          exact readAsRange_of_cut_list noIndex opened listed fits proper
  | range index lower upper body =>
      rw [parse] at read
      split at read
      · rename_i itemsRead
        cases read
        obtain ⟨_, _, _, impossible, _⟩ := parseItems_eq_ok_iff.mp itemsRead
        cases impossible
      · rename_i diagnostic stopped itemsFailed
        split at read
        · cases read
        · rename_i shallow
          rw [Bool.not_eq_true] at shallow
          obtain ⟨other, left, failed, otherShallow⟩ :=
            parseItems_of_cut stop itemsFailed shallow split
          rw [parse_of_items_error failed otherShallow]
          obtain ⟨token, stopped, exhausted⟩ :=
            exhausted_of_cut stop (curtails_parseRange scope) read split proper
          rw [exhausted]
          exact .exhausted (not_misfit_of_cut spelled split)

/-- A series is read the same way up to a cut. If it is cut itself, it is refused where it can be no
range, and called exhausted otherwise. -/
theorem curtails_parse (noIndex : scope.index? = none) :
    Curtails account (fun _ => True) (parse scope) := by
  intro rest full ⟨front, stop⟩ cut
  cases fullEnded : parse scope full with
  | error diagnostic stopped => exact .unknown id
  | ok series after =>
      obtain ⟨tokens, rfl, spelled, fits⟩ := parse_eq_ok_iff.mp fullEnded
      obtain ⟨opening, inner, closing, split, opened, closed, kinds⟩ := spelled.exists_inner
      have unbroken (behind : List Token) (afterCut : after.ahead = behind ++ rest) :
          CutShort account (fun _ => True) rest ⟨tokens ++ behind, stop⟩ (.ok series after)
            (parse scope ⟨tokens ++ behind, stop⟩) := by
        have shortRead : parse scope ⟨tokens ++ behind, stop⟩ = .ok series ⟨behind, stop⟩ :=
          parse_eq_ok_iff.mpr ⟨tokens, rfl, spelled, fits⟩
        rw [shortRead]
        refine .same rfl ?_ afterCut
        rw [split, ← List.cons_append]
        exact closed_concat closed
      rcases List.append_eq_append_iff.mp cut with ⟨behind, rfl, afterCut⟩ |
        ⟨cutOff, rfl, restCut⟩
      · exact unbroken behind afterCut
      · by_cases proper : cutOff = []
        · have whole := unbroken [] (by rw [restCut, proper]; rfl)
          rwa [proper, List.append_nil, List.append_nil] at whole
        · cases front with
          | nil => exact .spent account.spent_nil (quiet_parse scope ⟨[], stop⟩ rfl)
          | cons first front =>
              obtain ⟨rfl, inside⟩ := List.cons.inj split
              have plain : ∀ token ∈ front,
                  token.kind ≠ .leftBracket ∧ token.kind ≠ .rightBracket := by
                intro token member
                have within : front ++ cutOff.dropLast = inner := by
                  have shorter := congrArg List.dropLast inside
                  rwa [List.append_eq, List.dropLast_append_of_ne_nil proper,
                    List.dropLast_concat] at shorter
                apply plain_of_innerKinds (kinds token _)
                rw [← within]
                exact List.mem_append_left _ member
              have ended := readAsRange_of_cut stop noIndex fullEnded spelled fits rfl opened proper
              generalize parse scope ⟨first :: front, stop⟩ = result at ended ⊢
              have misread (token : Token) :
                  Misread (first :: front) token ↔ Misfit front token := by
                simp only [Misread, open_cons_iff opened plain, exists_eq_left]
              cases ended with
              | exhausted fine =>
                  exact .spent (fun token found => fine token ((misread token).mp found)) .exhausted
              | refused misfit =>
                  refine .misled fun other => ?_
                  rw [misread]
                  exact ⟨fun found => found.unique misfit, fun same => same ▸ misfit⟩

end Series
end AudioMarkup
