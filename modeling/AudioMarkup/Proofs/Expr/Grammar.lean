import AudioMarkup.Expr.Parse
import AudioMarkup.Proofs.Reading
import AudioMarkup.Token.Scan

/-!
The grammar of expressions. `Expr.Spelling` relates a list of tokens to the tree that it spells and
knows nothing of scopes, limits or of what stands behind the tokens. `Expr.Fits` is what reading
asks of a tree besides: operations lean to the right, not too many levels, no unknown name.

`Expr.parseWithin_eq_ok_iff` states that reading succeeds exactly on the spellings of trees that fit
and stops before a token that is no operator. `Expr.outcome_of_spelling` is sharper where reading
fails: a spelled tree can only be refused for an unknown name.

`Expr.IsNext` puts the same for a place in a list of tokens: at each place there is at most one
expression with at most one end, and it is the one that is read.
-/

namespace AudioMarkup

def Stream.NoOperator (stream : Stream) : Prop :=
  ∀ token, stream.peek? = some token → Operator.ofKind? token.kind = none

theorem Stream.noOperator_unread {token : Token} (stream : Stream)
    (other : Operator.ofKind? token.kind = none) : (stream.unread [token]).NoOperator := by
  intro head found
  cases found
  exact other

theorem Stream.noOperator_of_mark {close : Token.Kind} (plain : Operator.ofKind? close = none)
    (mark : Token) (after : Stream) (listed : mark.kind ∈ [.comma, close]) :
    (after.unread [mark]).NoOperator := by
  apply Stream.noOperator_unread
  simp only [List.mem_cons, List.not_mem_nil, or_false] at listed
  rcases listed with comma | closed
  · rw [comma]
    rfl
  · rw [closed]
    exact plain

namespace Expr

open Parse

/-! ### Trees -/

def isOperand : Expr → Bool
  | .operation _ _ _ => false
  | _ => true

/-- No operation has an operation on its left. -/
def leansRight : Expr → Bool
  | .number _ => true
  | .reference _ => true
  | .operation _ left right => left.isOperand && left.leansRight && right.leansRight
  | .call _ argument => argument.leansRight
  | .group inner => inner.leansRight

/-- The levels below the root. What stands on the left of an operator is on the level of the
operation itself. -/
def depth : Expr → Nat
  | .number _ => 0
  | .reference _ => 0
  | .operation _ left right => max left.depth (right.depth + 1)
  | .call _ argument => argument.depth + 1
  | .group inner => inner.depth + 1

def references : Expr → List String
  | .number _ => []
  | .reference name => [name]
  | .operation _ left right => left.references ++ right.references
  | .call _ argument => argument.references
  | .group inner => inner.references

structure Fits (scope : Scope) (levels : Nat) (expr : Expr) : Prop where
  leansRight : expr.leansRight = true
  depth_le : expr.depth ≤ levels
  resolves : ∀ name ∈ expr.references, scope.resolves name = true

variable {scope : Scope} {levels : Nat}

theorem fits_number (value : Binary64) : Fits scope levels (.number value) :=
  ⟨rfl, Nat.zero_le _, by simp [references]⟩

theorem fits_reference_iff {name : String} :
    Fits scope levels (.reference name) ↔ scope.resolves name = true := by
  constructor
  · intro fits
    exact fits.resolves name (by simp [references])
  · intro resolved
    refine ⟨rfl, Nat.zero_le _, ?_⟩
    simpa [references] using resolved

theorem fits_group_iff {inner : Expr} :
    Fits scope (levels + 1) (.group inner) ↔ Fits scope levels inner := by
  constructor
  · rintro ⟨leans, bounded, resolved⟩
    exact ⟨leans, Nat.le_of_succ_le_succ bounded, resolved⟩
  · rintro ⟨leans, bounded, resolved⟩
    exact ⟨leans, Nat.succ_le_succ bounded, resolved⟩

theorem fits_call_iff {function : MathFunction} {argument : Expr} :
    Fits scope (levels + 1) (.call function argument) ↔ Fits scope levels argument := by
  constructor
  · rintro ⟨leans, bounded, resolved⟩
    exact ⟨leans, Nat.le_of_succ_le_succ bounded, resolved⟩
  · rintro ⟨leans, bounded, resolved⟩
    exact ⟨leans, Nat.succ_le_succ bounded, resolved⟩

theorem fits_operation_iff {operator : Operator} {left right : Expr} :
    Fits scope (levels + 1) (.operation operator left right) ↔
      left.isOperand = true ∧ Fits scope (levels + 1) left ∧ Fits scope levels right := by
  constructor
  · rintro ⟨leans, bounded, resolved⟩
    simp only [Expr.leansRight, Bool.and_eq_true] at leans
    simp only [depth] at bounded
    simp only [references, List.mem_append] at resolved
    obtain ⟨⟨operand, leftLeans⟩, rightLeans⟩ := leans
    refine ⟨operand, ⟨leftLeans, by omega, ?_⟩, rightLeans, by omega, ?_⟩
    · intro name member
      exact resolved name (.inl member)
    · intro name member
      exact resolved name (.inr member)
  · rintro ⟨operand, leftFits, rightFits⟩
    refine ⟨?_, ?_, ?_⟩
    · simp only [Expr.leansRight, operand, leftFits.leansRight, rightFits.leansRight, Bool.and_self]
    · have leftBound := leftFits.depth_le
      have rightBound := rightFits.depth_le
      simp only [depth]
      omega
    · intro name member
      rcases List.mem_append.mp member with inLeft | inRight
      · exact leftFits.resolves name inLeft
      · exact rightFits.resolves name inRight

/-! ### Tokens -/

inductive Spelling : List Token → Expr → Prop where
  | number {token : Token} {value : Binary64} :
      token.kind = .number → Numeral.read? token.text = some value →
      Spelling [token] (.number value)
  | constant {token : Token} {value : Binary64} :
      token.kind = .builtin → Builtin.find? token.text = some (.constant value) →
      Spelling [token] (.number value)
  | reference {token : Token} :
      token.kind = .name ∨ token.kind = .className → Spelling [token] (.reference token.text)
  | operation {leftTokens rightTokens : List Token} {token : Token} {operator : Operator}
      {left right : Expr} :
      Spelling leftTokens left → Operator.ofKind? token.kind = some operator →
      Spelling rightTokens right →
      Spelling (leftTokens ++ token :: rightTokens) (.operation operator left right)
  | call {token opening closing : Token} {tokens : List Token} {function : MathFunction}
      {argument : Expr} :
      token.kind = .builtin → Builtin.find? token.text = some (.function function) →
      opening.kind = .leftParen → Spelling tokens argument → closing.kind = .rightParen →
      Spelling (token :: opening :: (tokens ++ [closing])) (.call function argument)
  | group {opening closing : Token} {tokens : List Token} {inner : Expr} :
      opening.kind = .leftParen → Spelling tokens inner → closing.kind = .rightParen →
      Spelling (opening :: (tokens ++ [closing])) (.group inner)

/-- A spelling starts with a token that can start an operand. -/
theorem Spelling.starts {tokens : List Token} {expr : Expr} (spelled : Spelling tokens expr) :
    ∃ first rest, tokens = first :: rest ∧ first.kind ∈ operandStart := by
  induction spelled with
  | @number token _ number _ => exact ⟨token, [], rfl, by simp [number, operandStart]⟩
  | @constant token _ builtin _ => exact ⟨token, [], rfl, by simp [builtin, operandStart]⟩
  | @reference token word =>
      refine ⟨token, [], rfl, ?_⟩
      rcases word with name | className
      · simp [name, operandStart]
      · simp [className, operandStart]
  | operation _ _ _ leftStarts _ =>
      obtain ⟨first, rest, rfl, starting⟩ := leftStarts
      exact ⟨first, _, rfl, starting⟩
  | @call token _ _ _ _ _ builtin _ _ _ _ _ =>
      exact ⟨token, _, rfl, by simp [builtin, operandStart]⟩
  | @group opening _ _ _ opened _ _ _ =>
      exact ⟨opening, _, rfl, by simp [opened, operandStart]⟩

/-! ### What was read is spelled -/

def nextLevel? (scope : Scope) : Nat → Option (Parse Expr)
  | 0 => none
  | levels + 1 => some (parseWithin scope levels)

theorem parseWithin_eq_parseChain (scope : Scope) (levels : Nat) :
    parseWithin scope levels = parseChain scope (nextLevel? scope levels) := by
  cases levels <;> rfl

def Admitted (scope : Scope) (levels : Nat) (tokens : List Token) (expr : Expr) : Prop :=
  Spelling tokens expr ∧ expr.Fits scope levels

private theorem parseGroup_eq_ok {blamed : Token} {before after : Stream} {inner : Expr}
    (deeper : ∀ lower, lower < levels → (parseWithin scope lower).Sound (Admitted scope lower))
    (success : parseGroup (nextLevel? scope levels) blamed before = .ok inner after) :
    ∃ lower tokens closing, levels = lower + 1 ∧ closing.kind = .rightParen ∧
      Admitted scope lower tokens inner ∧ before = after.unread (tokens ++ [closing]) := by
  cases levels with
  | zero => exact absurd success fail_ne_ok
  | succ lower =>
      obtain ⟨read, afterInner, innerRead, closed⟩ := bind_eq_ok.mp success
      obtain ⟨closing, afterClosing, closingRead, finished⟩ := bind_eq_ok.mp closed
      obtain ⟨rfl, rfl⟩ := pure_eq_ok_iff.mp finished
      obtain ⟨closingKind, rfl⟩ := expect_eq_ok_iff.mp closingRead
      obtain ⟨tokens, rfl, admitted⟩ := deeper lower (Nat.lt_succ_self _) _ _ _ innerRead
      exact ⟨lower, tokens, closing, rfl, closingKind, admitted, Stream.unread_unread _ _ _⟩

private theorem sound_parseBuiltin {token : Token}
    (deeper : ∀ lower, lower < levels → (parseWithin scope lower).Sound (Admitted scope lower))
    (builtin : token.kind = .builtin) :
    (parseBuiltin (nextLevel? scope levels) token).Sound fun tokens expr =>
      expr.isOperand = true ∧ Admitted scope levels (token :: tokens) expr := by
  unfold parseBuiltin
  split
  · rename_i value found
    intro before expr after success
    obtain ⟨rfl, rfl⟩ := pure_eq_ok_iff.mp success
    exact ⟨[], rfl, rfl, .constant builtin found, fits_number value⟩
  · rename_i function found
    intro before expr after success
    obtain ⟨opening, afterOpening, openingRead, rest⟩ := bind_eq_ok.mp success
    obtain ⟨argument, afterGroup, groupRead, finished⟩ := bind_eq_ok.mp rest
    obtain ⟨rfl, rfl⟩ := pure_eq_ok_iff.mp finished
    obtain ⟨openingKind, rfl⟩ := expect_eq_ok_iff.mp openingRead
    obtain ⟨lower, tokens, closing, rfl, closingKind, ⟨spelled, fits⟩, rfl⟩ :=
      parseGroup_eq_ok deeper groupRead
    refine ⟨opening :: (tokens ++ [closing]), Stream.unread_unread _ _ _, rfl, ?_, ?_⟩
    · exact .call builtin found openingKind spelled closingKind
    · exact fits_call_iff.mpr fits
  · intro before expr after success
    exact absurd success fail_ne_ok

private theorem sound_parseOperandFrom {token : Token}
    (deeper : ∀ lower, lower < levels → (parseWithin scope lower).Sound (Admitted scope lower))
    (starting : token.kind ∈ operandStart) :
    (parseOperandFrom scope (nextLevel? scope levels) token).Sound fun tokens expr =>
      expr.isOperand = true ∧ Admitted scope levels (token :: tokens) expr := by
  unfold parseOperandFrom
  split
  · rename_i number
    split
    · rename_i value read
      intro before expr after success
      obtain ⟨rfl, rfl⟩ := pure_eq_ok_iff.mp success
      exact ⟨[], rfl, rfl, .number number read, fits_number value⟩
    · intro before expr after success
      exact absurd success fail_ne_ok
  · rename_i builtin
    exact sound_parseBuiltin deeper builtin
  · rename_i opened
    intro before expr after success
    obtain ⟨inner, afterGroup, groupRead, finished⟩ := bind_eq_ok.mp success
    obtain ⟨rfl, rfl⟩ := pure_eq_ok_iff.mp finished
    obtain ⟨lower, tokens, closing, rfl, closingKind, ⟨spelled, fits⟩, rfl⟩ :=
      parseGroup_eq_ok deeper groupRead
    refine ⟨tokens ++ [closing], rfl, rfl, ?_, ?_⟩
    · exact .group opened spelled closingKind
    · exact fits_group_iff.mpr fits
  · rename_i notNumber notBuiltin notParen
    split
    · rename_i resolved
      intro before expr after success
      obtain ⟨rfl, rfl⟩ := pure_eq_ok_iff.mp success
      refine ⟨[], rfl, rfl, .reference ?_, fits_reference_iff.mpr resolved⟩
      simp only [operandStart, List.mem_cons, List.not_mem_nil, or_false] at starting
      rcases starting with number | name | className | opened | builtin
      · exact (notNumber number).elim
      · exact .inl name
      · exact .inr className
      · exact (notParen opened).elim
      · exact (notBuiltin builtin).elim
    · intro before expr after success
      exact absurd success fail_ne_ok

private theorem sound_parseOperand
    (deeper : ∀ lower, lower < levels → (parseWithin scope lower).Sound (Admitted scope lower)) :
    (parseOperand scope (nextLevel? scope levels)).Sound fun tokens expr =>
      expr.isOperand = true ∧ Admitted scope levels tokens expr := by
  intro before expr after success
  obtain ⟨token, afterToken, tokenRead, operandRead⟩ := bind_eq_ok.mp success
  obtain ⟨starting, rfl⟩ := expectAny_eq_ok_iff.mp tokenRead
  obtain ⟨tokens, rfl, operand, admitted⟩ :=
    sound_parseOperandFrom deeper starting _ _ _ operandRead
  exact ⟨token :: tokens, Stream.unread_unread _ _ _, operand, admitted⟩

theorem sound_parseWithin (scope : Scope) (levels : Nat) :
    (parseWithin scope levels).Sound (Admitted scope levels) := by
  -- Groups and right operands are read with fewer levels, so the induction is on all lower ones.
  induction levels using Nat.strongRecOn with
  | ind levels deeper =>
    intro before expr after success
    rw [parseWithin_eq_parseChain] at success
    obtain ⟨left, afterLeft, leftRead, tailRead⟩ := bind_eq_ok.mp success
    obtain ⟨leftTokens, rfl, operand, leftSpelled, leftFits⟩ :=
      sound_parseOperand deeper _ _ _ leftRead
    obtain ⟨taken?, afterOperator, operatorRead, rightRead⟩ := bind_eq_ok.mp tailRead
    cases taken? with
    | none =>
        obtain ⟨rfl, _⟩ := takeMap_eq_none_iff.mp operatorRead
        obtain ⟨rfl, rfl⟩ := pure_eq_ok_iff.mp rightRead
        exact ⟨leftTokens, rfl, leftSpelled, leftFits⟩
    | some taken =>
        obtain ⟨operator, token⟩ := taken
        obtain ⟨_, made, rfl⟩ := takeMap_eq_some_iff.mp operatorRead
        obtain ⟨_, kind, same⟩ := Option.map_eq_some_iff.mp made
        cases same
        cases levels with
        | zero => exact absurd rightRead fail_ne_ok
        | succ lower =>
            obtain ⟨right, afterRight, innerRead, finished⟩ := bind_eq_ok.mp rightRead
            obtain ⟨rfl, rfl⟩ := pure_eq_ok_iff.mp finished
            obtain ⟨rightTokens, rfl, rightSpelled, rightFits⟩ :=
              deeper lower (Nat.lt_succ_self _) _ _ _ innerRead
            refine ⟨leftTokens ++ token :: rightTokens, ?_, ?_, ?_⟩
            · simp only [Stream.unread_unread, List.cons_append, List.nil_append]
            · exact .operation leftSpelled kind rightSpelled
            · exact fits_operation_iff.mpr ⟨operand, leftFits, rightFits⟩

/-- Reading stops where no operator follows. -/
theorem noOperator_of_parseWithin {before after : Stream} {expr : Expr}
    (success : parseWithin scope levels before = .ok expr after) : after.NoOperator := by
  induction levels using Nat.strongRecOn generalizing before after expr with
  | ind levels deeper =>
    rw [parseWithin_eq_parseChain] at success
    obtain ⟨left, afterLeft, _, tailRead⟩ := bind_eq_ok.mp success
    obtain ⟨taken?, afterOperator, operatorRead, rightRead⟩ := bind_eq_ok.mp tailRead
    cases taken? with
    | none =>
        obtain ⟨rfl, absent⟩ := takeMap_eq_none_iff.mp operatorRead
        obtain ⟨rfl, rfl⟩ := pure_eq_ok_iff.mp rightRead
        intro token found
        exact Option.map_eq_none_iff.mp (absent token found)
    | some taken =>
        cases levels with
        | zero => exact absurd rightRead fail_ne_ok
        | succ lower =>
            obtain ⟨right, afterRight, innerRead, finished⟩ := bind_eq_ok.mp rightRead
            obtain ⟨rfl, rfl⟩ := pure_eq_ok_iff.mp finished
            exact deeper lower (Nat.lt_succ_self _) innerRead

/-! ### What is spelled is read -/

/-- How reading a tree in a scope can end: with the tree, or at a name that is unknown. -/
inductive Outcome (scope : Scope) (expr : Expr) (after : Stream) :
    EStateM.Result Diagnostic Stream Expr → Prop where
  | read : (∀ name ∈ expr.references, scope.resolves name = true) →
      Outcome scope expr after (.ok expr after)
  | undefined {name : String} {token : Token} {stopped : Stream} :
      name ∈ expr.references → scope.resolves name = false →
      Outcome scope expr after (.error ⟨.undefinedReference, token⟩ stopped)

private theorem Outcome.bind {part whole : Expr} {before between after : Stream}
    {step : Parse Expr} {next : Expr → Parse Expr}
    (first : Outcome scope part between (step before))
    (names : ∀ name ∈ part.references, name ∈ whole.references)
    (second : (∀ name ∈ part.references, scope.resolves name = true) →
      Outcome scope whole after (next part between)) :
    Outcome scope whole after ((step >>= next) before) := by
  generalize result : step before = ended at first
  cases first with
  | read resolved =>
      rw [bind_of_ok result]
      exact second resolved
  | undefined member unresolved =>
      rw [bind_of_error result]
      exact .undefined (names _ member) unresolved

private theorem Outcome.parseGroup {inner : Expr} {tokens : List Token} {closing : Token}
    {after : Stream} (blamed : Token) (closingKind : closing.kind = .rightParen)
    (outcome : Outcome scope inner (after.unread [closing])
      (parseWithin scope levels (after.unread (tokens ++ [closing])))) :
    Outcome scope inner after (parseGroup (nextLevel? scope (levels + 1)) blamed
      (after.unread (tokens ++ [closing]))) := by
  refine outcome.bind (fun _ member => member) fun resolved => ?_
  rw [bind_of_ok (expect_unread after closingKind)]
  exact .read resolved

private theorem parseOperand_unread {token : Token} {deeper? : Option (Parse Expr)}
    (after : Stream) (tokens : List Token) (starting : token.kind ∈ operandStart) :
    parseOperand scope deeper? (after.unread (token :: tokens)) =
      parseOperandFrom scope deeper? token (after.unread tokens) :=
  bind_of_ok (expectAny_unread (after.unread tokens) starting)

private theorem outcome_reference {token : Token} (after : Stream) (deeper? : Option (Parse Expr))
    (word : token.kind = .name ∨ token.kind = .className) :
    Outcome scope (.reference token.text) after
      (parseOperand scope deeper? (after.unread [token])) := by
  have starting : token.kind ∈ operandStart := by
    rcases word with name | className
    · simp [name, operandStart]
    · simp [className, operandStart]
  have lookedUp : parseOperandFrom scope deeper? token =
      if scope.resolves token.text then pure (.reference token.text)
      else fail .undefinedReference token := by
    rcases word with name | className
    · simp only [parseOperandFrom, name]
    · simp only [parseOperandFrom, className]
  rw [parseOperand_unread after [] starting, lookedUp]
  cases resolved : scope.resolves token.text with
  | false => exact .undefined (by simp [references]) resolved
  | true => exact .read (by simpa [references] using resolved)

private theorem Outcome.parseWithin {tokens : List Token} {expr : Expr} {after : Stream}
    (ends : after.NoOperator)
    (operand : Outcome scope expr after
      (parseOperand scope (nextLevel? scope levels) (after.unread tokens))) :
    Outcome scope expr after (parseWithin scope levels (after.unread tokens)) := by
  rw [parseWithin_eq_parseChain]
  refine operand.bind (fun _ member => member) fun resolved => ?_
  have nothingTaken : takeMap operatorOf? after = .ok none after := by
    refine takeMap_eq_none_iff.mpr ⟨rfl, fun token found => ?_⟩
    exact Option.map_eq_none_iff.mpr (ends token found)
  rw [parseTail, bind_of_ok nothingTaken]
  exact .read resolved

private theorem Outcome.operation {leftTokens rightTokens : List Token} {token : Token}
    {operator : Operator} {left right : Expr} {after : Stream}
    (kind : Operator.ofKind? token.kind = some operator)
    (leftOutcome : Outcome scope left (after.unread (token :: rightTokens))
      (parseOperand scope (nextLevel? scope (levels + 1))
        ((after.unread (token :: rightTokens)).unread leftTokens)))
    (rightOutcome : Outcome scope right after (Expr.parseWithin scope levels
      (after.unread rightTokens))) :
    Outcome scope (.operation operator left right) after
      (Expr.parseWithin scope (levels + 1)
        (after.unread (leftTokens ++ token :: rightTokens))) := by
  rw [Stream.unread_unread] at leftOutcome
  refine leftOutcome.bind (fun _ member => List.mem_append_left _ member) fun leftResolved => ?_
  have taken : takeMap operatorOf? (after.unread (token :: rightTokens)) =
      .ok (some (operator, token)) (after.unread rightTokens) := by
    refine takeMap_eq_some_iff.mpr ⟨token, ?_, rfl⟩
    exact Option.map_eq_some_iff.mpr ⟨operator, kind, rfl⟩
  rw [parseTail, bind_of_ok taken]
  refine rightOutcome.bind (fun _ member => List.mem_append_right _ member) fun rightResolved => ?_
  refine .read fun name member => ?_
  rcases List.mem_append.mp member with inLeft | inRight
  · exact leftResolved name inLeft
  · exact rightResolved name inRight

private theorem Outcome.call {token opening closing : Token} {tokens : List Token}
    {function : MathFunction} {argument : Expr} {after : Stream} (builtin : token.kind = .builtin)
    (found : Builtin.find? token.text = some (.function function))
    (opened : opening.kind = .leftParen) (closed : closing.kind = .rightParen)
    (inner : Outcome scope argument (after.unread [closing])
      (Expr.parseWithin scope levels (after.unread (tokens ++ [closing])))) :
    Outcome scope (.call function argument) after
      (parseOperand scope (nextLevel? scope (levels + 1))
        (after.unread (token :: opening :: (tokens ++ [closing])))) := by
  have openingRead : expect .leftParen (after.unread (opening :: (tokens ++ [closing]))) =
      .ok opening (after.unread (tokens ++ [closing])) :=
    expect_unread (after.unread (tokens ++ [closing])) opened
  rw [parseOperand_unread after _ (by simp [builtin, operandStart])]
  simp only [parseOperandFrom, builtin, parseBuiltin, found]
  rw [bind_of_ok openingRead]
  refine (inner.parseGroup token closed).bind (fun _ member => member) fun resolved => ?_
  exact .read resolved

private theorem Outcome.group {opening closing : Token} {tokens : List Token} {inner : Expr}
    {after : Stream} (opened : opening.kind = .leftParen) (closed : closing.kind = .rightParen)
    (outcome : Outcome scope inner (after.unread [closing])
      (Expr.parseWithin scope levels (after.unread (tokens ++ [closing])))) :
    Outcome scope (.group inner) after
      (parseOperand scope (nextLevel? scope (levels + 1))
        (after.unread (opening :: (tokens ++ [closing])))) := by
  rw [parseOperand_unread after _ (by simp [opened, operandStart])]
  simp only [parseOperandFrom, opened]
  refine (outcome.parseGroup opening closed).bind (fun _ member => member) fun resolved => ?_
  exact .read resolved

/-- How a spelling is read. An operand is taken whatever stands behind it, while an expression has
to end there. -/
structure Understood (scope : Scope) (tokens : List Token) (expr : Expr) : Prop where
  operand : expr.isOperand = true → ∀ levels after, expr.depth ≤ levels →
    Outcome scope expr after (parseOperand scope (nextLevel? scope levels) (after.unread tokens))
  whole : ∀ levels after, expr.depth ≤ levels → after.NoOperator →
    Outcome scope expr after (parseWithin scope levels (after.unread tokens))

private theorem Understood.of_operand {tokens : List Token} {expr : Expr}
    (operand : ∀ levels after, expr.depth ≤ levels → Outcome scope expr after
      (parseOperand scope (nextLevel? scope levels) (after.unread tokens))) :
    Understood scope tokens expr :=
  ⟨fun _ => operand, fun levels after bounded ends =>
    .parseWithin ends (operand levels after bounded)⟩

/-- What stands in parentheses ends at the closing one. -/
private theorem Understood.inside {tokens : List Token} {closing : Token} {expr : Expr}
    (inner : Understood scope tokens expr) (closed : closing.kind = .rightParen) (after : Stream)
    (bounded : expr.depth ≤ levels) :
    Outcome scope expr (after.unread [closing])
      (parseWithin scope levels (after.unread (tokens ++ [closing]))) := by
  have ends : (after.unread [closing]).NoOperator := by
    apply Stream.noOperator_unread
    rw [closed]
    rfl
  have outcome := inner.whole levels (after.unread [closing]) bounded ends
  rwa [Stream.unread_unread] at outcome

private theorem Spelling.understood {tokens : List Token} {expr : Expr}
    (spelled : Spelling tokens expr) (leans : expr.leansRight = true) :
    Understood scope tokens expr := by
  -- The levels vary in the induction, as each parenthesis and each right operand takes one.
  induction spelled with
  | @number token value number read =>
      apply Understood.of_operand
      intro levels after _
      rw [parseOperand_unread after [] (by simp [number, operandStart])]
      simp only [parseOperandFrom, number, read]
      exact .read (by simp [references])
  | @constant token value builtin found =>
      apply Understood.of_operand
      intro levels after _
      rw [parseOperand_unread after [] (by simp [builtin, operandStart])]
      simp only [parseOperandFrom, builtin, parseBuiltin, found]
      exact .read (by simp [references])
  | @reference token word =>
      apply Understood.of_operand
      intro levels after _
      exact outcome_reference after _ word
  | @operation leftTokens rightTokens token operator left right _ kind _ leftIh rightIh =>
      simp only [leansRight, Bool.and_eq_true] at leans
      obtain ⟨⟨leftOperand, leftLeans⟩, rightLeans⟩ := leans
      refine ⟨(nomatch ·), fun levels after bounded ends => ?_⟩
      simp only [depth] at bounded
      obtain ⟨lower, rfl⟩ : ∃ lower, levels = lower + 1 := ⟨levels - 1, by omega⟩
      exact .operation kind
        ((leftIh leftLeans).operand leftOperand (lower + 1) _ (by omega))
        ((rightIh rightLeans).whole lower after (by omega) ends)
  | @call token opening closing tokens function argument builtin found opened _ closed ih =>
      apply Understood.of_operand
      intro levels after bounded
      simp only [depth] at bounded
      obtain ⟨lower, rfl⟩ : ∃ lower, levels = lower + 1 := ⟨levels - 1, by omega⟩
      exact .call builtin found opened closed ((ih leans).inside closed after (by omega))
  | @group opening closing tokens inner opened _ closed ih =>
      apply Understood.of_operand
      intro levels after bounded
      simp only [depth] at bounded
      obtain ⟨lower, rfl⟩ : ∃ lower, levels = lower + 1 := ⟨levels - 1, by omega⟩
      exact .group opened closed ((ih leans).inside closed after (by omega))

theorem outcome_of_spelling {tokens : List Token} {expr : Expr} {after : Stream}
    (spelled : Spelling tokens expr) (leans : expr.leansRight = true)
    (bounded : expr.depth ≤ levels) (ends : after.NoOperator) :
    Outcome scope expr after (parseWithin scope levels (after.unread tokens)) :=
  (spelled.understood leans).whole levels after bounded ends

theorem complete_parseWithin (scope : Scope) (levels : Nat) :
    (parseWithin scope levels).Complete (Admitted scope levels) Stream.NoOperator := by
  rintro tokens expr after ⟨spelled, fits⟩ ends
  have outcome : Outcome scope expr after _ :=
    outcome_of_spelling spelled fits.leansRight fits.depth_le ends
  generalize parseWithin scope levels (after.unread tokens) = ended at outcome ⊢
  cases outcome with
  | read _ => rfl
  | undefined member unresolved =>
      rw [fits.resolves _ member] at unresolved
      cases unresolved

/-- Reading succeeds exactly on the spellings of trees that fit, with no operator behind them. -/
theorem parseWithin_eq_ok_iff {before after : Stream} {expr : Expr} :
    parseWithin scope levels before = .ok expr after ↔
      ∃ tokens, before = after.unread tokens ∧ Spelling tokens expr ∧ expr.Fits scope levels ∧
        after.NoOperator := by
  constructor
  · intro success
    obtain ⟨tokens, same, spelled, fits⟩ := sound_parseWithin scope levels _ _ _ success
    exact ⟨tokens, same, spelled, fits, noOperator_of_parseWithin success⟩
  · rintro ⟨tokens, rfl, spelled, fits, ends⟩
    exact complete_parseWithin scope levels _ _ _ ⟨spelled, fits⟩ ends

/-! ### The expression at a place -/

/-- The expression that is next in the stream: its next tokens, so many, spell the tree, the tree
fits, and no operator stands behind them. -/
structure IsNext (scope : Scope) (stream : Stream) (count : Nat) (expr : Expr) : Prop
    extends expr.Fits scope nestingLimit where
  within : count ≤ stream.remaining
  spelled : Spelling (stream.ahead.take count) expr
  ends : ∀ token, stream.ahead[count]? = some token → Operator.ofKind? token.kind = none

variable {stream : Stream} {count otherCount : Nat} {expr other : Expr}

theorem IsNext.parse (next : IsNext scope stream count expr) :
    parse scope stream = .ok expr (stream.skip count) := by
  refine parseWithin_eq_ok_iff.mpr ⟨_, (stream.unread_skip count).symm, next.spelled,
    next.toFits, fun token found => ?_⟩
  rw [Stream.peek?_skip] at found
  exact next.ends token found

theorem exists_isNext_of_parse {after : Stream} (success : parse scope stream = .ok expr after) :
    ∃ count, after = stream.skip count ∧ IsNext scope stream count expr := by
  obtain ⟨tokens, rfl, spelled, fits, ends⟩ := parseWithin_eq_ok_iff.mp success
  refine ⟨tokens.length, (after.skip_unread tokens).symm, fits, ?_, ?_, fun token found => ?_⟩
  · rw [Stream.remaining, Stream.unread_ahead, List.length_append]
    omega
  · rwa [Stream.unread_ahead, List.take_left]
  · rw [← Stream.peek?_skip, Stream.skip_unread] at found
    exact ends token found

/-- Reading succeeds exactly with the expression that is next, and comes to the place behind its
tokens. There is at most one such expression, and it has only one length. -/
theorem parse_reads_exactly_next (scope : Scope) (stream : Stream) :
    (∀ expr count, (parse scope stream = .ok expr (stream.skip count) ∧ count ≤ stream.remaining) ↔
      IsNext scope stream count expr) ∧
    (∀ expr after, parse scope stream = .ok expr after →
      ∃ count, after = stream.skip count ∧ count ≤ stream.remaining) ∧
    ∀ expr other count otherCount, IsNext scope stream count expr →
      IsNext scope stream otherCount other → expr = other ∧ count = otherCount := by
  refine ⟨fun expr count => ⟨?_, ?_⟩, ?_, ?_⟩
  · rintro ⟨success, within⟩
    obtain ⟨length, same, next⟩ := exists_isNext_of_parse success
    rwa [Stream.skip_inj within next.within same]
  · intro next
    exact ⟨next.parse, next.within⟩
  · intro expr after success
    obtain ⟨count, same, next⟩ := exists_isNext_of_parse success
    exact ⟨count, same, next.within⟩
  · intro expr other count otherCount first second
    obtain ⟨sameTree, sameStream⟩ := EStateM.Result.ok.inj (first.parse.symm.trans second.parse)
    exact ⟨sameTree, Stream.skip_inj first.within second.within sameStream⟩

/-- The second item of a list is next behind the first comma, and nothing else is. -/
theorem parse_reads_exactly_next_of_second_item :
    ∃ expr, IsNext (.ofNames ["a", "B"])
        ((Stream.ofTokens (Token.scan "[2,(a-2)*@sin(B)-1,a]")).skip 3) 12 expr ∧
      ∀ other count, IsNext (.ofNames ["a", "B"])
        ((Stream.ofTokens (Token.scan "[2,(a-2)*@sin(B)-1,a]")).skip 3) count other →
        other = expr ∧ count = 12 := by
  have item : parse (.ofNames ["a", "B"])
      ((Stream.ofTokens (Token.scan "[2,(a-2)*@sin(B)-1,a]")).skip 3) =
      .ok (.operation .mul
          (.group (.operation .sub (.reference "a") (.number ⟨0x4000000000000000⟩)))
          (.operation .sub (.call .sin (.reference "B")) (.number ⟨0x3ff0000000000000⟩)))
        (((Stream.ofTokens (Token.scan "[2,(a-2)*@sin(B)-1,a]")).skip 3).skip 12) := by
    decide +kernel
  obtain ⟨exactly, _, unique⟩ := parse_reads_exactly_next (.ofNames ["a", "B"])
    ((Stream.ofTokens (Token.scan "[2,(a-2)*@sin(B)-1,a]")).skip 3)
  have next := (exactly _ 12).mp ⟨item, by decide⟩
  exact ⟨_, next, fun other count otherNext => unique _ _ _ _ otherNext next⟩

end Expr
end AudioMarkup
