import AudioMarkup.Proofs.Expr.Alignment
import Mathlib.Tactic.IntervalCases
import Mathlib.Tactic.NormNum

/-!
Alignment is exact. Two expressions have the same shape if they differ in their leaves only. Of each
shape that is not aligned there is an expression whose script computes another value: its leaves are
small numbers, chosen so that all but the operators that disagree have no effect.

`Expr.aligned_iff_same_value_in_script` states both directions of all expressions that can be read
from tokens.
-/

namespace AudioMarkup

namespace Operator

def neutral : Operator → Nat
  | .add => 0
  | .sub => 0
  | .mul => 1
  | .div => 1

theorem neutral_le (operator : Operator) : operator.neutral ≤ 5 := by
  cases operator <;> decide

theorem combine_neutral (operator : Operator) (left? : Option ℚ) :
    operator.combine left? (some (operator.neutral : ℚ)) = left? := by
  cases left? with
  | none => rfl
  | some left => cases operator <;> simp [neutral, apply]

/-- What an operator makes of a right operand behind its neutral number. -/
def mirror : Operator → ℚ → ℚ
  | .add, right => right
  | .sub, right => -right
  | .mul, right => right
  | .div, right => right⁻¹

theorem apply_neutral (operator : Operator) {right : ℚ} (nonzero : right ≠ 0) :
    operator.apply operator.neutral right = some (operator.mirror right) := by
  cases operator <;> simp [neutral, apply, mirror, nonzero]

theorem mirror_injective (operator : Operator) : Function.Injective operator.mirror := by
  cases operator with
  | add => exact Function.injective_id
  | sub => exact neg_injective
  | mul => exact Function.injective_id
  | div => exact inv_injective

theorem mirror_ne_zero (operator : Operator) {right : ℚ} (nonzero : right ≠ 0) :
    operator.mirror right ≠ 0 := by
  cases operator <;> simp [mirror, nonzero]

end Operator

namespace Script.Level

variable {meaning : Meaning}

theorem complete_push_neutral (level : Level) (last : Expr) (operator : Operator) :
    (level.push last operator).complete meaning (some (operator.neutral : ℚ)) =
      level.complete meaning (last.value? meaning) := by
  cases kind : operator.isAdditive with
  | true => rw [complete_push_additive kind, Operator.combine_neutral]
  | false =>
      rw [complete_push_multiplicative kind, Operator.combine_neutral]
      rfl

theorem complete_push_division {last one : Expr} (isOne : one.value? meaning = some 1)
    (level : Level) (operator : Operator) (right? : Option ℚ) :
    ((level.push last .div).push one operator).complete meaning right? =
      (level.push last operator).complete meaning right? := by
  have divided : ∀ left? : Option ℚ, Operator.div.combine left? (some 1) = left? := by
    intro left?
    have neutral := Operator.div.combine_neutral left?
    rwa [Operator.neutral, Nat.cast_one] at neutral
  have quotient : (level.push last .div).complete meaning (some 1) =
      level.complete meaning (last.value? meaning) := by
    rw [← complete_push_neutral level last .div, Operator.neutral, Nat.cast_one]
  cases kind : operator.isAdditive with
  | true => rw [complete_push_additive kind, complete_push_additive kind, isOne, quotient]
  | false =>
      have inside : joinValue? meaning (level.push last .div).product? (some 1) =
          joinValue? meaning level.product? (last.value? meaning) := by
        rw [← value?_join]
        exact divided _
      rw [complete_push_multiplicative kind, complete_push_multiplicative kind, isOne, inside]
      rfl

end Script.Level

namespace Expr

open Script

variable {expr other : Expr}

/-! ### Shapes -/

def shape : Expr → Expr
  | .number _ => .number ⟨0⟩
  | .reference _ => .number ⟨0⟩
  | .operation operator left right => .operation operator left.shape right.shape
  | .call function argument => .call function argument.shape
  | .group inner => .group inner.shape

theorem isOperand_shape (expr : Expr) : expr.shape.isOperand = expr.isOperand := by
  cases expr <;> rfl

theorem leansRight_shape (expr : Expr) : expr.shape.leansRight = expr.leansRight := by
  induction expr with
  | number value => rfl
  | reference name => rfl
  | operation operator left right leftIh rightIh =>
      rw [shape, leansRight, leansRight, isOperand_shape, leftIh, rightIh]
  | call function argument ih => exact ih
  | group inner ih => exact ih

theorem depth_shape (expr : Expr) : expr.shape.depth = expr.depth := by
  induction expr with
  | number value => rfl
  | reference name => rfl
  | operation operator left right leftIh rightIh => rw [shape, depth, depth, leftIh, rightIh]
  | call function argument ih => rw [shape, depth, depth, ih]
  | group inner ih => rw [shape, depth, depth, ih]

theorem chain_shape (expr : Expr) : expr.shape.chain = expr.chain := by
  induction expr with
  | operation operator left right leftIh rightIh => rw [shape, chain, chain, rightIh]
  | _ => rfl

theorem aligned_shape (expr : Expr) : expr.shape.aligned = expr.aligned := by
  induction expr with
  | number value => rfl
  | reference name => rfl
  | operation operator left right leftIh rightIh =>
      rw [shape, aligned, aligned, leftIh, rightIh, chain_shape]
  | call function argument ih => exact ih
  | group inner ih => exact ih

structure Relabels (other expr : Expr) : Prop where
  shape : other.shape = expr.shape
  writable : other.isWritable = true
  finite : other.isFinite = true
  closed : other.references = []

namespace Relabels

theorem number {value : Binary64} (writable : value.isWritable = true)
    (finite : value.isFinite = true) (leaf : Expr.shape (.number value) = expr.shape) :
    Relabels (.number value) expr :=
  ⟨leaf, writable, finite, rfl⟩

theorem operation {left right left' right' : Expr} (operator : Operator)
    (onLeft : left'.Relabels left) (onRight : right'.Relabels right) :
    Relabels (.operation operator left' right') (.operation operator left right) where
  shape := by rw [Expr.shape, Expr.shape, onLeft.shape, onRight.shape]
  writable := by rw [isWritable, onLeft.writable, onRight.writable, Bool.and_self]
  finite := by rw [isFinite, onLeft.finite, onRight.finite, Bool.and_self]
  closed := by rw [references, onLeft.closed, onRight.closed, List.append_nil]

theorem call (function : MathFunction) (inside : other.Relabels expr) :
    Relabels (.call function other) (.call function expr) :=
  ⟨by rw [Expr.shape, Expr.shape, inside.shape], inside.writable, inside.finite, inside.closed⟩

theorem group (inside : other.Relabels expr) : Relabels (.group other) (.group expr) :=
  ⟨by rw [Expr.shape, Expr.shape, inside.shape], inside.writable, inside.finite, inside.closed⟩

theorem isOperand (relabels : other.Relabels expr) (isOperand : expr.isOperand = true) :
    other.isOperand = true := by
  rw [← isOperand_shape, relabels.shape, isOperand_shape, isOperand]

end Relabels

/-! ### Numbers in the place of leaves -/

def plainMeaning : Meaning where
  names _ := 0
  functions _ := some

private theorem exists_number {digit : Nat} (small : digit ≤ 5) :
    ∃ value : Binary64, value.isWritable = true ∧ value.isFinite = true ∧
      value.value? = some (digit : ℚ) := by
  interval_cases digit
  · exact ⟨⟨0⟩, by decide +kernel⟩
  · exact ⟨⟨0x3ff0000000000000⟩, by decide +kernel⟩
  · exact ⟨⟨0x4000000000000000⟩, by decide +kernel⟩
  · exact ⟨⟨0x4008000000000000⟩, by decide +kernel⟩
  · exact ⟨⟨0x4010000000000000⟩, by decide +kernel⟩
  · exact ⟨⟨0x4014000000000000⟩, by decide +kernel⟩

structure Computes (expr : Expr) (operators : List Operator) (written read : ℚ) : Prop where
  value : expr.value? plainMeaning = some written
  reading : ∀ level : Level, (∀ operator ∈ operators, level.Takes operator) →
    (level.reading expr).value? plainMeaning = level.complete plainMeaning (some read)

namespace Computes

variable {operators : List Operator} {written read : ℚ}

theorem start (computes : expr.Computes operators written read) :
    (Level.start.reading expr).value? plainMeaning = some read :=
  computes.reading Level.start fun operator _ => Level.takes_start operator

theorem reads (computes : expr.Computes [] written read) (level : Level) :
    (level.reading expr).value? plainMeaning = level.complete plainMeaning (some read) :=
  computes.reading level fun _ member => absurd member List.not_mem_nil

theorem number {value : Binary64} (same : value.value? = some written) :
    Computes (.number value) [] written written where
  value := same
  reading := by
    intro level _
    rw [← same]
    exact level.value?_close _

theorem call (function : MathFunction) (inside : expr.Computes operators written read) :
    Computes (.call function expr) [] written read where
  value := by
    rw [value?, inside.value]
    rfl
  reading := by
    intro level _
    have called : Expr.value? plainMeaning (.call function (Level.start.reading expr)) =
        some read := by
      rw [value?, inside.start]
      rfl
    rw [← called]
    exact level.value?_close _

theorem group (inside : expr.Computes operators written read) :
    Computes (.group expr) [] written read where
  value := inside.value
  reading := by
    intro level _
    rw [← inside.start]
    exact level.value?_close _

theorem operation_neutral {left right : Expr} {operator : Operator}
    (isOperand : left.isOperand = true) (onLeft : left.Computes operators written read)
    (onRight : right.Computes [] operator.neutral operator.neutral) :
    Computes (.operation operator left right) [] written read where
  value := by rw [value?, onLeft.value, onRight.value, Operator.combine_neutral]
  reading := by
    intro level _
    rw [Level.reading_operation isOperand, onRight.reads, Level.complete_push_neutral,
      onLeft.start]

theorem neutral_operation {left right : Expr} {operator : Operator}
    (isOperand : left.isOperand = true)
    (onLeft : left.Computes [] operator.neutral operator.neutral)
    (onRight : right.Computes operators written read) (writtenNe : written ≠ 0) (readNe : read ≠ 0)
    (agrees : ∀ later ∈ operators, operator.agreesBefore later = true) :
    Computes (.operation operator left right) (operator :: operators) (operator.mirror written)
      (operator.mirror read) where
  value := by
    rw [value?, onLeft.value, onRight.value, Operator.combine_some,
      operator.apply_neutral writtenNe]
  reading := by
    intro level takes
    have rightTakes : ∀ later ∈ operators,
        (level.push (Level.start.reading left) operator).Takes later := by
      intro later member
      exact Level.takes_push (takes later (List.mem_cons_of_mem _ member)) (agrees later member) _
    rw [Level.reading_operation isOperand, onRight.reading _ rightTakes,
      Level.complete_push (takes operator List.mem_cons_self), onLeft.start, Operator.combine_some,
      operator.apply_neutral readNe]

end Computes

/-- A small number can be put in the place of an expression without changing its shape. -/
theorem exists_digit (leans : expr.leansRight = true) {digit : Nat} (small : digit ≤ 5) :
    ∃ other : Expr, other.Relabels expr ∧ other.Computes [] digit digit := by
  induction expr generalizing digit with
  | number _ =>
      obtain ⟨value, writable, finite, same⟩ := exists_number small
      exact ⟨.number value, .number writable finite rfl, .number same⟩
  | reference _ =>
      obtain ⟨value, writable, finite, same⟩ := exists_number small
      exact ⟨.number value, .number writable finite rfl, .number same⟩
  | operation operator left right leftIh rightIh =>
      simp only [leansRight, Bool.and_eq_true] at leans
      obtain ⟨left', onLeft, leftComputes⟩ := leftIh leans.1.2 small
      obtain ⟨right', onRight, rightComputes⟩ := rightIh leans.2 operator.neutral_le
      exact ⟨_, .operation operator onLeft onRight,
        leftComputes.operation_neutral (onLeft.isOperand leans.1.1) rightComputes⟩
  | call function argument ih =>
      obtain ⟨argument', inside, computes⟩ := ih leans small
      exact ⟨_, inside.call function, computes.call function⟩
  | group inner ih =>
      obtain ⟨inner', inside, computes⟩ := ih leans small
      exact ⟨_, inside.group, computes.group⟩

/-! ### Operators that disagree -/

/-- On every level the expression is read as one, with the second number added to all that waits. -/
structure Spreads (expr : Expr) (written added : ℚ) : Prop where
  value : expr.value? plainMeaning = some written
  reading : ∀ level : Level, (level.reading expr).value? plainMeaning =
    Operator.add.combine (level.complete plainMeaning (some 1)) (some added)

/-- The numbers that come up in `exists_spreads`. Division turns the first one over. -/
def spreadNumbers : List (ℚ × ℚ) := [(3, 2), (1 / 3, 2), (-1, -2)]

private theorem mirror_mem_spreadNumbers {operator : Operator}
    (multiplicative : operator.isAdditive = false) {written added : ℚ}
    (member : (written, added) ∈ spreadNumbers) :
    (operator.mirror written, added) ∈ spreadNumbers := by
  cases operator with
  | add => cases multiplicative
  | sub => cases multiplicative
  | mul => exact member
  | div =>
      simp only [spreadNumbers, List.mem_cons, Prod.mk.injEq, List.not_mem_nil,
        or_false] at member ⊢
      rcases member with ⟨rfl, rfl⟩ | ⟨rfl, rfl⟩ | ⟨rfl, rfl⟩ <;> norm_num [Operator.mirror]

private theorem ne_zero_of_mem_spreadNumbers {written added : ℚ}
    (member : (written, added) ∈ spreadNumbers) : written ≠ 0 := by
  simp only [spreadNumbers, List.mem_cons, Prod.mk.injEq, List.not_mem_nil, or_false] at member
  rcases member with ⟨rfl, rfl⟩ | ⟨rfl, rfl⟩ | ⟨rfl, rfl⟩ <;> norm_num

namespace Spreads

variable {left right : Expr} {operator : Operator}

theorem of_additive (additive : operator.isAdditive = true) (isOperand : left.isOperand = true)
    (one : left.Computes [] 1 1) (two : right.Computes [] 2 2) :
    ∃ written added : ℚ, (written, added) ∈ spreadNumbers ∧
      Spreads (.operation operator left right) written added := by
  have value : Expr.value? plainMeaning (.operation operator left right) =
      operator.combine (some 1) (some 2) := by
    rw [value?, one.value, two.value]
  have reading : ∀ level : Level,
      (level.reading (.operation operator left right)).value? plainMeaning =
        operator.combine (level.complete plainMeaning (some 1)) (some 2) := by
    intro level
    rw [Level.reading_operation isOperand, two.reads,
      Level.complete_push_additive additive, one.start]
  cases operator with
  | add =>
      refine ⟨3, 2, by simp [spreadNumbers], ?_, reading⟩
      rw [value, Operator.combine_some, Operator.apply]
      norm_num
  | sub =>
      refine ⟨-1, -2, by simp [spreadNumbers], ?_, ?_⟩
      · rw [value, Operator.combine_some, Operator.apply]
        norm_num
      · intro level
        rw [reading]
        cases level.complete plainMeaning (some 1) with
        | none => rfl
        | some before => simp only [Operator.combine_some, Operator.apply, sub_eq_add_neg]
  | mul => cases additive
  | div => cases additive

theorem operation {written added : ℚ} (multiplicative : operator.isAdditive = false)
    (isOperand : left.isOperand = true) (one : left.Computes [] 1 1)
    (spreads : right.Spreads written added) (nonzero : written ≠ 0) :
    Spreads (.operation operator left right) (operator.mirror written) added := by
  have neutral : (operator.neutral : ℚ) = 1 := by
    cases operator with
    | add => cases multiplicative
    | sub => cases multiplicative
    | mul => exact Nat.cast_one
    | div => exact Nat.cast_one
  constructor
  · rw [value?, one.value, spreads.value, Operator.combine_some, ← neutral,
      operator.apply_neutral nonzero]
  · intro level
    rw [Level.reading_operation isOperand, spreads.reading, ← neutral, Level.complete_push_neutral,
      one.start, neutral]

end Spreads

theorem exists_spreads (leans : expr.leansRight = true)
    (additive : expr.chain.any Operator.isAdditive = true) :
    ∃ other : Expr, other.Relabels expr ∧
      ∃ written added : ℚ, (written, added) ∈ spreadNumbers ∧ other.Spreads written added := by
  -- Down to the first additive operator all operands are one, so that nothing before it counts.
  induction expr with
  | operation operator left right leftIh rightIh =>
      simp only [leansRight, Bool.and_eq_true] at leans
      obtain ⟨left', onLeft, one⟩ := exists_digit leans.1.2 (show 1 ≤ 5 by decide)
      have isOperand : left'.isOperand = true := onLeft.isOperand leans.1.1
      rw [Nat.cast_one] at one
      cases kind : operator.isAdditive with
      | true =>
          obtain ⟨right', onRight, two⟩ := exists_digit leans.2 (show 2 ≤ 5 by decide)
          exact ⟨_, .operation operator onLeft onRight,
            Spreads.of_additive kind isOperand one two⟩
      | false =>
          have inRight : right.chain.any Operator.isAdditive = true := by
            rwa [chain, List.any_cons, kind, Bool.false_or] at additive
          obtain ⟨right', onRight, written, added, member, spreads⟩ := rightIh leans.2 inRight
          have nonzero : written ≠ 0 := ne_zero_of_mem_spreadNumbers member
          exact ⟨_, .operation operator onLeft onRight, operator.mirror written, added,
            mirror_mem_spreadNumbers kind member, .operation kind isOperand one spreads nonzero⟩
  | _ => cases additive

/-- With some numbers for its leaves, the expression has a value that is not the one read. Neither
is zero, so that an operator before the expression keeps them apart. -/
def Misread (expr : Expr) : Prop :=
  ∃ other : Expr, other.Relabels expr ∧ ∃ written read : ℚ,
    other.Computes expr.chain written read ∧ written ≠ read ∧ written ≠ 0 ∧ read ≠ 0

namespace Misread

variable {left right : Expr} {operator : Operator}

theorem call (function : MathFunction) (inside : expr.Misread) : (call function expr).Misread := by
  obtain ⟨other, relabels, written, read, computes, apart⟩ := inside
  exact ⟨_, relabels.call function, written, read, computes.call function, apart⟩

theorem group (inside : expr.Misread) : (group expr).Misread := by
  obtain ⟨other, relabels, written, read, computes, apart⟩ := inside
  exact ⟨_, relabels.group, written, read, computes.group, apart⟩

theorem of_left (isOperand : left.isOperand = true) (leans : right.leansRight = true)
    (inLeft : left.Misread) : (operation operator left right).Misread := by
  obtain ⟨left', onLeft, written, read, computes, apart⟩ := inLeft
  obtain ⟨right', onRight, neutral⟩ := exists_digit leans operator.neutral_le
  have whole := computes.operation_neutral (onLeft.isOperand isOperand) neutral
  refine ⟨_, .operation operator onLeft onRight, written, read, ⟨whole.value, ?_⟩, apart⟩
  intro level _
  exact whole.reads level

theorem of_right (isOperand : left.isOperand = true) (leans : left.leansRight = true)
    (agrees : ∀ later ∈ right.chain, operator.agreesBefore later = true)
    (inRight : right.Misread) : (operation operator left right).Misread := by
  obtain ⟨right', onRight, written, read, computes, apart, writtenNe, readNe⟩ := inRight
  obtain ⟨left', onLeft, neutral⟩ := exists_digit leans operator.neutral_le
  refine ⟨_, .operation operator onLeft onRight, operator.mirror written, operator.mirror read,
    neutral.neutral_operation (onLeft.isOperand isOperand) computes writtenNe readNe agrees, ?_, ?_,
    ?_⟩
  · exact operator.mirror_injective.ne apart
  · exact operator.mirror_ne_zero writtenNe
  · exact operator.mirror_ne_zero readNe

/-- A sum behind `-` or `*` is all subtracted or multiplied in the tree, and only up to its first
operand in a script. -/
theorem of_sum (isOperand : left.isOperand = true) (leftLeans : left.leansRight = true)
    (rightLeans : right.leansRight = true) (disagrees : operator = .sub ∨ operator = .mul)
    (additive : right.chain.any Operator.isAdditive = true) :
    (operation operator left right).Misread := by
  obtain ⟨left', onLeft, five⟩ := exists_digit leftLeans (show 5 ≤ 5 by decide)
  obtain ⟨right', onRight, written, added, member, spreads⟩ := exists_spreads rightLeans additive
  obtain ⟨later, inChain, laterAdditive⟩ := List.any_eq_true.mp additive
  rw [Nat.cast_ofNat] at five
  have reading : ∀ level : Level, (∀ other ∈ operator :: right.chain, level.Takes other) →
      (level.reading (.operation operator left' right')).value? plainMeaning =
        level.complete plainMeaning
          (Operator.add.combine (operator.combine (some 5) (some 1)) (some added)) := by
    intro level takes
    have takesAdd : level.Takes .add :=
      (takes later (List.mem_cons_of_mem _ inChain)).of_alike laterAdditive
    rw [Level.reading_operation (onLeft.isOperand isOperand), spreads.reading,
      Level.complete_push (takes operator List.mem_cons_self), five.start,
      Level.combine_complete takesAdd rfl]
  refine ⟨_, .operation operator onLeft onRight, ?_⟩
  simp only [spreadNumbers, List.mem_cons, Prod.mk.injEq, List.not_mem_nil, or_false] at member
  rcases disagrees with rfl | rfl
  · refine ⟨5 - written, 5 - 1 + added, ⟨?_, reading⟩, ?_⟩
    · rw [value?, five.value, spreads.value]
      rfl
    · rcases member with ⟨rfl, rfl⟩ | ⟨rfl, rfl⟩ | ⟨rfl, rfl⟩ <;> norm_num
  · refine ⟨5 * written, 5 * 1 + added, ⟨?_, reading⟩, ?_⟩
    · rw [value?, five.value, spreads.value]
      rfl
    · rcases member with ⟨rfl, rfl⟩ | ⟨rfl, rfl⟩ | ⟨rfl, rfl⟩ <;> norm_num

/-- All that stands behind `/` is a divisor in the tree, and only its first operand in a script. -/
theorem of_division {dividend : Expr} (isOperand : dividend.isOperand = true)
    (dividendLeans : dividend.leansRight = true)
    (rightLeans : (operation operator left right).leansRight = true) :
    (operation .div dividend (operation operator left right)).Misread := by
  simp only [leansRight, Bool.and_eq_true] at rightLeans
  obtain ⟨dividend', onDividend, one⟩ := exists_digit dividendLeans (show 1 ≤ 5 by decide)
  obtain ⟨left', onLeft, leftOne⟩ := exists_digit rightLeans.1.2 (show 1 ≤ 5 by decide)
  obtain ⟨right', onRight, three⟩ := exists_digit rightLeans.2 (show 3 ≤ 5 by decide)
  rw [Nat.cast_one] at one leftOne
  rw [Nat.cast_ofNat] at three
  obtain ⟨divisor, computed, nonzero, apart⟩ : ∃ divisor : ℚ,
      operator.combine (some 1) (some 3) = some divisor ∧ divisor ≠ 0 ∧ 1 / divisor ≠ divisor := by
    cases operator with
    | add => exact ⟨1 + 3, rfl, by norm_num, by norm_num⟩
    | sub => exact ⟨1 - 3, rfl, by norm_num, by norm_num⟩
    | mul => exact ⟨1 * 3, rfl, by norm_num, by norm_num⟩
    | div =>
        refine ⟨1 / 3, ?_, by norm_num, by norm_num⟩
        rw [Operator.combine_some, Operator.apply, if_neg (by norm_num)]
  refine ⟨_, .operation .div onDividend (.operation operator onLeft onRight), 1 / divisor, divisor,
    ⟨?_, ?_⟩, apart, one_div_ne_zero nonzero, nonzero⟩
  · rw [value?, value?, one.value, leftOne.value, three.value, computed]
    exact if_neg nonzero
  · intro level takes
    have takesOperator : level.Takes operator := takes operator (by simp [chain])
    rw [Level.reading_operation (onDividend.isOperand isOperand),
      Level.reading_operation (onLeft.isOperand rightLeans.1.1), three.reads,
      Level.complete_push_division leftOne.start, Level.complete_push takesOperator, one.start,
      computed]

end Misread

theorem misread_of_not_aligned (leans : expr.leansRight = true)
    (misaligned : expr.aligned = false) : expr.Misread := by
  induction expr with
  | number value => cases misaligned
  | reference name => cases misaligned
  | operation operator left right leftIh rightIh =>
      simp only [leansRight, Bool.and_eq_true] at leans
      obtain ⟨⟨isOperand, leftLeans⟩, rightLeans⟩ := leans
      -- The operator comes first: only behind one that agrees does a misread right operand show.
      by_cases agrees : ∀ later ∈ right.chain, operator.agreesBefore later = true
      · cases leftAligned : left.aligned with
        | false => exact .of_left isOperand rightLeans (leftIh leftLeans leftAligned)
        | true =>
            have rightMisaligned : right.aligned = false := by
              rwa [aligned, leftAligned, List.all_eq_true.mpr agrees, Bool.true_and,
                Bool.and_true] at misaligned
            exact .of_right isOperand leftLeans agrees (rightIh rightLeans rightMisaligned)
      · push Not at agrees
        obtain ⟨later, member, disagrees⟩ := agrees
        have additive : operator ≠ .div → right.chain.any Operator.isAdditive = true := by
          intro notDivision
          refine List.any_eq_true.mpr ⟨later, member, ?_⟩
          cases operator <;> simp_all [Operator.agreesBefore]
        cases operator with
        | add => exact absurd rfl disagrees
        | sub =>
            have notDivision : Operator.sub ≠ .div := by decide
            exact .of_sum isOperand leftLeans rightLeans (.inl rfl) (additive notDivision)
        | mul =>
            have notDivision : Operator.mul ≠ .div := by decide
            exact .of_sum isOperand leftLeans rightLeans (.inr rfl) (additive notDivision)
        | div =>
            cases right with
            | operation => exact .of_division isOperand leftLeans rightLeans
            | _ => cases member
  | call function argument ih => exact (ih leans misaligned).call function
  | group inner ih => exact (ih leans misaligned).group

/-! ### Expressions that are read from tokens -/

private theorem facts_of_parse {scope : Scope} {before after : Stream}
    (success : parse scope before = .ok expr after) :
    ∃ tokens : List Token, tokens ⊆ before.ahead ∧ Spelling tokens expr ∧
      expr.leansRight = true ∧ expr.depth ≤ nestingLimit := by
  obtain ⟨tokens, rfl, spelled, fits⟩ := sound_parseWithin scope nestingLimit _ _ _ success
  exact ⟨tokens, List.subset_append_left _ _, spelled, fits.leansRight, fits.depth_le⟩

theorem Relabels.exists_parse (relabels : other.Relabels expr) (leans : expr.leansRight = true)
    (bounded : expr.depth ≤ nestingLimit) (scope : Scope) :
    ∃ before after : Stream, (∀ token ∈ before.ahead, token.word.WellFormed) ∧
      parse scope before = .ok other after := by
  let tokens : List Token := other.words.map fun word =>
    { line := 1, column := 1, text := word.text, kind := word.kind }
  let after : Stream := { ahead := [], stop := default }
  have same : tokens.map Token.word = other.words := by
    rw [List.map_map]
    exact List.map_id _
  have fits : other.Fits scope nestingLimit := by
    refine ⟨?_, ?_, ?_⟩
    · rw [← leansRight_shape, relabels.shape, leansRight_shape, leans]
    · rwa [← depth_shape, relabels.shape, depth_shape]
    · rw [relabels.closed]
      intro name member
      exact absurd member List.not_mem_nil
  refine ⟨after.unread tokens, after, ?_, ?_⟩
  · intro token member
    have inTokens : token ∈ tokens := by simpa [after, Stream.unread] using member
    apply wellFormed_words relabels.writable
    rw [← same]
    exact List.mem_map_of_mem inTokens
  · apply complete_parseWithin scope nestingLimit tokens other after
    · exact ⟨spelling_of_words relabels.writable same, fits⟩
    · intro token next
      cases next

/-- A shape is aligned exactly if the scripts of all expressions of that shape compute their values,
whatever the names and the functions stand for. -/
theorem aligned_iff_same_value_in_script (scope : Scope) (before after : Stream) (expr : Expr)
    (success : parse scope before = .ok expr after) :
    expr.aligned = true ↔
      ∀ (scope' : Scope) (before' after' : Stream) (other : Expr),
        (∀ token ∈ before'.ahead, token.word.WellFormed) →
        parse scope' before' = .ok other after' →
        other.shape = expr.shape → other.isFinite = true →
        ∃ read : Expr, readExpr? other.scriptText = some read ∧
          ∀ meaning : Meaning, read.value? meaning = other.value? meaning := by
  obtain ⟨_, _, _, leans, bounded⟩ := facts_of_parse success
  constructor
  · intro aligned scope' before' after' other formed otherSuccess same finite
    obtain ⟨tokens, within, spelled, otherLeans, _⟩ := facts_of_parse otherSuccess
    have writable : other.isWritable = true :=
      spelled.isWritable fun token member => formed token (within member)
    have otherAligned : other.aligned = true := by
      rw [← aligned_shape, same, aligned_shape, aligned]
    refine ⟨Level.start.reading other, readExpr?_scriptText writable finite, ?_⟩
    intro meaning
    exact value?_reading otherLeans otherAligned fun operator _ => Level.takes_start operator
  · intro keeps
    -- The numbers that are misread make an expression of the same shape, which is read as well.
    by_contra misaligned
    rw [Bool.not_eq_true] at misaligned
    obtain ⟨other, relabels, written, read, computes, apart, _⟩ :=
      misread_of_not_aligned leans misaligned
    obtain ⟨before', after', formed, otherSuccess⟩ := relabels.exists_parse leans bounded scope
    obtain ⟨tree, readBack, values⟩ :=
      keeps scope before' after' other formed otherSuccess relabels.shape relabels.finite
    rw [readExpr?_scriptText relabels.writable relabels.finite] at readBack
    cases readBack
    have differ := values plainMeaning
    rw [computes.start, computes.value] at differ
    exact apart (Option.some.inj differ).symm

theorem aligned_iff_same_value_in_script_of_regrouped_sum :
    ∃ expr read : Expr, ∃ after : Stream,
      parse (.ofNames ["a", "B"]) (.ofTokens (Token.scan "a + B - 2 * @sin(a / 3)")) =
        .ok expr after ∧
      readExpr? expr.scriptText = some read ∧ readExpr? expr.scriptText ≠ some expr ∧
      ∀ meaning : Meaning, read.value? meaning = expr.value? meaning := by
  have success : parse (.ofNames ["a", "B"]) (.ofTokens (Token.scan "a + B - 2 * @sin(a / 3)")) =
      .ok (.operation .add (.reference "a")
          (.operation .sub (.reference "B")
            (.operation .mul (.number ⟨0x4000000000000000⟩)
              (.call .sin (.operation .div (.reference "a") (.number ⟨0x4008000000000000⟩))))))
        { ahead := []
          stop := { line := 1, column := 23, text := "", kind := .endOfInput } } := by
    decide +kernel
  have keeps := (aligned_iff_same_value_in_script _ _ _ _ success).mp rfl
  obtain ⟨read, readBack, values⟩ :=
    keeps _ _ _ _ (fun _ member => Token.wellFormed_of_mem_scan member) success rfl
      (by decide +kernel)
  exact ⟨_, read, _, success, readBack, by decide +kernel, values⟩

/-- `5 - (2 - 1)` becomes `(5 - 2) - 1`. -/
theorem script_value_of_differences :
    ∃ expr read : Expr, ∃ after : Stream,
      parse (.ofNames []) (.ofTokens (Token.scan "5 - 2 - 1")) = .ok expr after ∧
      readExpr? expr.scriptText = some read ∧
      ∀ meaning : Meaning, expr.value? meaning = some 4 ∧ read.value? meaning = some 2 := by
  have success : parse (.ofNames []) (.ofTokens (Token.scan "5 - 2 - 1")) =
      .ok (.operation .sub (.number ⟨0x4014000000000000⟩)
          (.operation .sub (.number ⟨0x4000000000000000⟩) (.number ⟨0x3ff0000000000000⟩)))
        { ahead := []
          stop := { line := 1, column := 9, text := "", kind := .endOfInput } } := by
    decide +kernel
  refine ⟨_, .operation .sub (.operation .sub (.number ⟨0x4014000000000000⟩)
    (.number ⟨0x4000000000000000⟩)) (.number ⟨0x3ff0000000000000⟩), _, success, ?_, ?_⟩
  · decide +kernel
  · intro meaning
    simp only [value?]
    decide +kernel

end Expr
end AudioMarkup
