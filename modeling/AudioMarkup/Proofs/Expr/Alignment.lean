import AudioMarkup.Proofs.Script.Reading

/-!
The value of an expression and the value of its script text. The tree of a chain of operators leans
to the right, a script groups the same chain by the precedence of its operators, so the two values
differ in general. They are the same if the chain is aligned: no operator of it is followed by one
that makes a difference. Behind `+` all may stand, behind `-` and `*` only `*` and `/`, behind `/`
nothing.

Values are rational numbers, `none` where a division by zero or a function has no value.
-/

namespace AudioMarkup

/-! ### Values -/

def Binary64.value? (x : Binary64) : Option ℚ :=
  if x.isFinite then some ((if x.isNegative then -1 else 1) * ((x.ratio.1 : ℚ) / x.ratio.2))
  else none

namespace Operator

def apply : Operator → ℚ → ℚ → Option ℚ
  | .add, left, right => some (left + right)
  | .sub, left, right => some (left - right)
  | .mul, left, right => some (left * right)
  | .div, left, right => if right = 0 then none else some (left / right)

def combine (operator : Operator) (left? right? : Option ℚ) : Option ℚ :=
  left?.bind fun left => right?.bind fun right => operator.apply left right

@[simp] theorem combine_some (operator : Operator) (left right : ℚ) :
    operator.combine (some left) (some right) = operator.apply left right := rfl

@[simp] theorem combine_none_left (operator : Operator) (right? : Option ℚ) :
    operator.combine none right? = none := rfl

@[simp] theorem combine_none_right (operator : Operator) (left? : Option ℚ) :
    operator.combine left? none = none := by
  cases left? <;> rfl

/-- The operator makes no difference to what follows it on the same level. -/
def agreesBefore : Operator → Operator → Bool
  | .add, _ => true
  | .sub, later => !later.isAdditive
  | .mul, later => !later.isAdditive
  | .div, _ => false

theorem agreesBefore_congr {operator first second : Operator}
    (alike : first.isAdditive = second.isAdditive) :
    operator.agreesBefore first = operator.agreesBefore second := by
  cases operator with
  | add => rfl
  | sub => rw [agreesBefore, agreesBefore, alike]
  | mul => rw [agreesBefore, agreesBefore, alike]
  | div => rfl

/-- A sum of sums and a product of products can be grouped from either end. -/
theorem combine_combine {operator later : Operator} (agrees : operator.agreesBefore later = true)
    (alike : operator.isAdditive = later.isAdditive) (first second third : Option ℚ) :
    later.combine (operator.combine first second) third =
      operator.combine first (later.combine second third) := by
  cases first with
  | none => rfl
  | some x =>
      cases second with
      | none => rfl
      | some y =>
          cases third with
          | none => simp only [combine_none_right]
          | some z =>
              cases operator with
              | add =>
                  cases later with
                  | add => simp only [combine_some, apply, add_assoc]
                  | sub => simp only [combine_some, apply, add_sub_assoc]
                  | mul => cases alike
                  | div => cases alike
              | sub =>
                  cases later with
                  | add => cases agrees
                  | sub => cases agrees
                  | mul => cases alike
                  | div => cases alike
              | mul =>
                  cases later with
                  | add => cases alike
                  | sub => cases alike
                  | mul => simp only [combine_some, apply, mul_assoc]
                  | div =>
                      by_cases zero : z = 0
                      · simp only [combine_some, apply, if_pos zero, combine_none_right]
                      · simp only [combine_some, apply, if_neg zero, mul_div_assoc]
              | div => cases agrees

end Operator

structure Meaning where
  names : String → ℚ
  functions : MathFunction → ℚ → Option ℚ

variable {meaning : Meaning}

def Expr.value? (meaning : Meaning) : Expr → Option ℚ
  | .number value => value.value?
  | .reference name => some (meaning.names name)
  | .operation operator left right => operator.combine (left.value? meaning) (right.value? meaning)
  | .call function argument => (argument.value? meaning).bind (meaning.functions function)
  | .group inner => inner.value? meaning

/-! ### Levels -/

namespace Script

def joinValue? (meaning : Meaning) : Option (Expr × Operator) → Option ℚ → Option ℚ
  | none, right? => right?
  | some (left, operator), right? => operator.combine (left.value? meaning) right?

theorem value?_join (waiting : Option (Expr × Operator)) (right : Expr) :
    (join waiting right).value? meaning = joinValue? meaning waiting (right.value? meaning) := by
  cases waiting <;> rfl

namespace Level

variable {level : Level}

/-- The value of all that waits, by the value of its last operand. -/
def complete (meaning : Meaning) (level : Level) (last? : Option ℚ) : Option ℚ :=
  joinValue? meaning level.sum? (joinValue? meaning level.product? last?)

theorem value?_close (level : Level) (last : Expr) :
    (level.close last).value? meaning = level.complete meaning (last.value? meaning) := by
  rw [close, value?_join, value?_join, complete]

@[simp] theorem complete_start (last? : Option ℚ) : start.complete meaning last? = last? := rfl

/-- Nothing that waits makes a difference to the operator. -/
structure Takes (level : Level) (operator : Operator) : Prop where
  sum : ∀ waiting ∈ level.sum?, waiting.2.agreesBefore operator = true
  product : ∀ waiting ∈ level.product?, waiting.2.agreesBefore operator = true

theorem takes_start (operator : Operator) : start.Takes operator := ⟨nofun, nofun⟩

theorem Takes.of_alike {operator later : Operator} (takes : level.Takes operator)
    (alike : operator.isAdditive = later.isAdditive) : level.Takes later := by
  constructor
  · intro waiting member
    rw [← Operator.agreesBefore_congr alike]
    exact takes.sum waiting member
  · intro waiting member
    rw [← Operator.agreesBefore_congr alike]
    exact takes.product waiting member

theorem complete_push_additive {operator : Operator} (additive : operator.isAdditive = true)
    (level : Level) (last : Expr) (right? : Option ℚ) :
    (level.push last operator).complete meaning right? =
      operator.combine (level.complete meaning (last.value? meaning)) right? := by
  rw [push, dif_pos additive, ← value?_close]
  rfl

theorem complete_push_multiplicative {operator : Operator}
    (multiplicative : operator.isAdditive = false) (level : Level) (last : Expr)
    (right? : Option ℚ) :
    (level.push last operator).complete meaning right? =
      joinValue? meaning level.sum?
        (operator.combine (joinValue? meaning level.product? (last.value? meaning)) right?) := by
  rw [push, dif_neg (Bool.eq_false_iff.mp multiplicative), ← value?_join]
  rfl

private theorem product?_of_takes {operator : Operator} (takes : level.Takes operator)
    (additive : operator.isAdditive = true) : level.product? = none := by
  cases found : level.product? with
  | none => rfl
  | some waiting =>
      have agrees := takes.product waiting found
      have multiplicative := level.multiplicative waiting found
      cases waitingOperator : waiting.2 with
      | add =>
          rw [waitingOperator] at multiplicative
          cases multiplicative
      | sub =>
          rw [waitingOperator] at multiplicative
          cases multiplicative
      | mul =>
          rw [waitingOperator, Operator.agreesBefore, additive] at agrees
          cases agrees
      | div =>
          rw [waitingOperator] at agrees
          cases agrees

/-- A term can be added to what waits before or after it is closed. -/
theorem combine_complete {operator : Operator} (takes : level.Takes operator)
    (additive : operator.isAdditive = true) (last? right? : Option ℚ) :
    operator.combine (level.complete meaning last?) right? =
      level.complete meaning (operator.combine last? right?) := by
  rw [complete, complete, product?_of_takes takes additive]
  cases found : level.sum? with
  | none => rfl
  | some waiting =>
      have alike : waiting.2.isAdditive = operator.isAdditive := by
        rw [level.additive waiting found, additive]
      exact Operator.combine_combine (takes.sum waiting found) alike _ _ _

/-- Behind an operator that the level takes, it is the same to close the level before or after. -/
theorem complete_push {operator : Operator} (takes : level.Takes operator) (last : Expr)
    (right? : Option ℚ) :
    (level.push last operator).complete meaning right? =
      level.complete meaning (operator.combine (last.value? meaning) right?) := by
  cases kind : operator.isAdditive with
  | true => rw [complete_push_additive kind, combine_complete takes kind]
  | false =>
      rw [complete_push_multiplicative kind, complete]
      cases found : level.product? with
      | none => rfl
      | some waiting =>
          have alike : waiting.2.isAdditive = operator.isAdditive := by
            rw [level.multiplicative waiting found, kind]
          have grouped := Operator.combine_combine (takes.product waiting found) alike
            (waiting.1.value? meaning) (last.value? meaning) right?
          exact congrArg (joinValue? meaning level.sum?) grouped

theorem takes_push {operator later : Operator} (takes : level.Takes later)
    (agrees : operator.agreesBefore later = true) (last : Expr) :
    (level.push last operator).Takes later := by
  cases kind : operator.isAdditive with
  | true =>
      rw [push, dif_pos kind]
      constructor
      · intro waiting member
        cases member
        exact agrees
      · exact nofun
  | false =>
      rw [push, dif_neg (Bool.eq_false_iff.mp kind)]
      constructor
      · exact takes.sum
      · intro waiting member
        cases member
        exact agrees

end Level
end Script

/-! ### Chains -/

namespace Expr

open Script

variable {expr : Expr}

/-- The operators that stand in no parenthesis, in an expression that leans to the right. -/
def chain : Expr → List Operator
  | .operation operator _ right => operator :: right.chain
  | _ => []

def aligned : Expr → Bool
  | .number _ => true
  | .reference _ => true
  | .operation operator left right =>
    left.aligned && right.aligned && right.chain.all operator.agreesBefore
  | .call _ argument => argument.aligned
  | .group inner => inner.aligned

/-- What is aligned has the same value in a script, on each level that takes its operators. -/
theorem value?_reading (leans : expr.leansRight = true) (aligned : expr.aligned = true)
    {level : Level} (takes : ∀ operator ∈ expr.chain, level.Takes operator) :
    (level.reading expr).value? meaning = level.complete meaning (expr.value? meaning) := by
  -- The right operand of an operation is read on another level, the one behind the operator.
  induction expr generalizing level with
  | number value => exact level.value?_close _
  | reference name => exact level.value?_close _
  | operation operator left right leftIh rightIh =>
      simp only [leansRight, Bool.and_eq_true] at leans
      simp only [Expr.aligned, Bool.and_eq_true, List.all_eq_true] at aligned
      obtain ⟨⟨isOperand, leftLeans⟩, rightLeans⟩ := leans
      obtain ⟨⟨leftAligned, rightAligned⟩, agrees⟩ := aligned
      have leftValue : (Level.start.reading left).value? meaning = left.value? meaning := by
        apply leftIh leftLeans leftAligned
        intro other _
        exact Level.takes_start other
      have rightTakes : ∀ later ∈ right.chain,
          (level.push (Level.start.reading left) operator).Takes later := by
        intro later member
        exact Level.takes_push (takes later (List.mem_cons_of_mem _ member)) (agrees later member) _
      rw [Level.reading_operation isOperand, rightIh rightLeans rightAligned rightTakes,
        Level.complete_push (takes operator List.mem_cons_self), leftValue]
      rfl
  | call function argument ih =>
      have inside : (Level.start.reading argument).value? meaning = argument.value? meaning :=
        ih leans aligned fun other _ => Level.takes_start other
      rw [value?, ← inside]
      exact level.value?_close _
  | group inner ih =>
      have inside : (Level.start.reading inner).value? meaning = inner.value? meaning :=
        ih leans aligned fun other _ => Level.takes_start other
      rw [value?, ← inside]
      exact level.value?_close _

end Expr
end AudioMarkup
