import AudioMarkup.Proofs.Expr.Canonical
import AudioMarkup.Script.Basic

/-!
The height of the trees that are read. Reading counts the levels below the root, but puts what
stands on the left of an operator on the level of the operation itself. So a chain that begins with
parentheses or with a call is higher than its levels by one, and the chain inside can be so again.

`Expr.headTurns` counts these beginnings on the way to a leaf. Main statement: the height of a tree
that is read exceeds the limit by its head turns at most, this is attained for each number of turns
up to the limit, and it is the height that a recursion over the tree has to go down.
-/

namespace AudioMarkup.Expr

open Parse

/-- The operations, calls and parentheses around a leaf, at most. -/
def height : Expr → Nat
  | .number _ => 0
  | .reference _ => 0
  | .operation _ left right => max left.height right.height + 1
  | .call _ argument => argument.height + 1
  | .group inner => inner.height + 1

def isLeaf : Expr → Bool
  | .number _ => true
  | .reference _ => true
  | _ => false

/-- How often the way to a leaf goes into something on the left of an operator, at most. A leaf on
the left of an operator is never the deepest one and does not count. -/
def headTurns : Expr → Nat
  | .number _ => 0
  | .reference _ => 0
  | .operation _ left right =>
    max (if left.isLeaf then 0 else left.headTurns + 1) right.headTurns
  | .call _ argument => argument.headTurns
  | .group inner => inner.headTurns

private theorem height_of_isLeaf {expr : Expr} (leaf : expr.isLeaf = true) : expr.height = 0 := by
  cases expr with
  | number _ => rfl
  | reference _ => rfl
  | operation _ _ _ => cases leaf
  | call _ _ => cases leaf
  | group _ => cases leaf

theorem height_le_depth_add_headTurns (expr : Expr) :
    expr.height ≤ expr.depth + expr.headTurns := by
  induction expr with
  | number value => exact Nat.zero_le _
  | reference name => exact Nat.zero_le _
  | operation operator left right leftIh rightIh =>
      simp only [height, depth, headTurns]
      cases leaf : left.isLeaf with
      | true =>
          have low := height_of_isLeaf leaf
          rw [if_pos rfl]
          omega
      | false =>
          rw [if_neg Bool.false_ne_true]
          omega
  | call function argument ih =>
      simp only [height, depth, headTurns]
      omega
  | group inner ih =>
      simp only [height, depth, headTurns]
      omega

/-- Where operations lean to the right, a turn leads into parentheses or a call, which takes a
level. -/
private theorem headTurns_bounds {expr : Expr} (leans : expr.leansRight = true) :
    expr.headTurns ≤ expr.depth ∧
      (expr.isOperand = true → expr.isLeaf = false → expr.headTurns + 1 ≤ expr.depth) := by
  induction expr with
  | number value => exact ⟨Nat.le_refl _, fun _ compound => by cases compound⟩
  | reference name => exact ⟨Nat.le_refl _, fun _ compound => by cases compound⟩
  | operation operator left right leftIh rightIh =>
      simp only [leansRight, Bool.and_eq_true] at leans
      obtain ⟨⟨operand, leftLeans⟩, rightLeans⟩ := leans
      refine ⟨?_, fun impossible => by cases impossible⟩
      have rightBound := (rightIh rightLeans).1
      simp only [depth, headTurns]
      cases leaf : left.isLeaf with
      | true =>
          rw [if_pos rfl]
          omega
      | false =>
          have leftBound := (leftIh leftLeans).2 operand leaf
          rw [if_neg Bool.false_ne_true]
          omega
  | call function argument ih =>
      have bound := (ih leans).1
      simp only [depth, headTurns]
      exact ⟨by omega, fun _ _ => by omega⟩
  | group inner ih =>
      have bound := (ih leans).1
      simp only [depth, headTurns]
      exact ⟨by omega, fun _ _ => by omega⟩

/-! ### Recursions over a tree -/

structure Consumer (β : Type) where
  number : Binary64 → β
  reference : String → β
  operation : Operator → β → β → β
  call : MathFunction → β → β
  group : β → β

namespace Consumer

variable {β : Type}

def run (consumer : Consumer β) : Expr → β
  | .number value => consumer.number value
  | .reference name => consumer.reference name
  | .operation operator left right =>
    consumer.operation operator (consumer.run left) (consumer.run right)
  | .call function argument => consumer.call function (consumer.run argument)
  | .group inner => consumer.group (consumer.run inner)

/-- The recursion with so many nested calls below the first one. It gives nothing if it would have
to go further down. -/
def runWithin (consumer : Consumer β) : Nat → Expr → Option β
  | _, .number value => some (consumer.number value)
  | _, .reference name => some (consumer.reference name)
  | levels + 1, .operation operator left right =>
    (consumer.runWithin levels left).bind fun first =>
      (consumer.runWithin levels right).map fun second => consumer.operation operator first second
  | levels + 1, .call function argument =>
    (consumer.runWithin levels argument).map (consumer.call function)
  | levels + 1, .group inner => (consumer.runWithin levels inner).map consumer.group
  | 0, _ => none

/-- A recursion comes to its end exactly if it may go down the height of the tree. -/
theorem runWithin_eq (consumer : Consumer β) (levels : Nat) (expr : Expr) :
    consumer.runWithin levels expr =
      if expr.height ≤ levels then some (consumer.run expr) else none := by
  induction expr generalizing levels with
  | number value => cases levels <;> rfl
  | reference name => cases levels <;> rfl
  | operation operator left right leftIh rightIh =>
      cases levels with
      | zero => rfl
      | succ levels =>
          simp only [runWithin, run, height, Nat.add_le_add_iff_right, Nat.max_le, leftIh, rightIh]
          by_cases leftLow : left.height ≤ levels
          · by_cases rightLow : right.height ≤ levels
            · simp only [leftLow, rightLow, and_self, if_true, Option.bind_some, Option.map_some]
            · simp only [leftLow, rightLow, and_false, if_true, if_false, Option.bind_some,
                Option.map_none]
          · simp only [leftLow, false_and, if_false, Option.bind_none]
  | call function argument ih =>
      cases levels with
      | zero => rfl
      | succ levels =>
          simp only [runWithin, run, height, Nat.add_le_add_iff_right, ih]
          by_cases low : argument.height ≤ levels
          · simp only [low, if_true, Option.map_some]
          · simp only [low, if_false, Option.map_none]
  | group inner ih =>
      cases levels with
      | zero => rfl
      | succ levels =>
          simp only [runWithin, run, height, Nat.add_le_add_iff_right, ih]
          by_cases low : inner.height ≤ levels
          · simp only [low, if_true, Option.map_some]
          · simp only [low, if_false, Option.map_none]

end Consumer

def writer : Consumer (List Piece) where
  number value := [.verbatim value.scriptText]
  reference name := [.verbatim name]
  operation operator left right := left ++ .verbatim operator.symbol :: right
  call function argument := .openCall function.scriptName :: argument ++ [.close]
  group inner := .openGroup :: inner ++ [.close]

theorem run_writer (expr : Expr) : writer.run expr = expr.pieces := by
  induction expr with
  | number value => rfl
  | reference name => rfl
  | operation operator left right leftIh rightIh =>
      rw [Consumer.run, leftIh, rightIh]
      rfl
  | call function argument ih =>
      rw [Consumer.run, ih]
      rfl
  | group inner ih =>
      rw [Consumer.run, ih]
      rfl

/-! ### The highest trees -/

def nested : Nat → Expr
  | 0 => .number ⟨0⟩
  | groups + 1 => .group (nested groups)

/-- A zero in so many parentheses, and these at the beginning of so many sums, each in the
parentheses that begin the next. -/
def tower (groups : Nat) : Nat → Expr
  | 0 => nested groups
  | turns + 1 => .operation .add (.group (tower groups turns)) (.number ⟨0⟩)

structure Measures (expr : Expr) (depth height headTurns : Nat) : Prop where
  leansRight : expr.leansRight = true
  depth_eq : expr.depth = depth
  height_eq : expr.height = height
  headTurns_eq : expr.headTurns = headTurns
  closed : expr.references = []
  writable : expr.isWritable = true

private theorem measures_nested (groups : Nat) : (nested groups).Measures groups groups 0 := by
  induction groups with
  | zero => exact ⟨rfl, rfl, rfl, rfl, rfl, by decide⟩
  | succ groups ih =>
      refine ⟨ih.leansRight, ?_, ?_, ih.headTurns_eq, ih.closed, ih.writable⟩
      · rw [nested, depth, ih.depth_eq]
      · rw [nested, height, ih.height_eq]

private theorem measures_tower (groups turns : Nat) :
    (tower groups turns).Measures (groups + turns) (groups + 2 * turns) turns := by
  induction turns with
  | zero => exact measures_nested groups
  | succ turns ih =>
      refine ⟨?_, ?_, ?_, ?_, ?_, ?_⟩
      · simp only [tower, Expr.leansRight, isOperand, ih.leansRight, Bool.and_self]
      · simp only [tower, depth, ih.depth_eq]
        omega
      · simp only [tower, height, ih.height_eq]
        omega
      · simp only [tower, headTurns, isLeaf, Bool.false_eq_true, if_false, ih.headTurns_eq]
        omega
      · simp only [tower, references, ih.closed, List.append_nil]
      · simp only [tower, isWritable, ih.writable, Bool.true_and]
        decide

/-- A tree that refers to nothing is read from its words, if it has not too many levels. -/
private theorem exists_parse {expr : Expr} {depth height headTurns : Nat}
    (measures : expr.Measures depth height headTurns) (within : depth ≤ nestingLimit)
    (scope : Scope) :
    ∃ tokens after, parse scope (.ofTokens tokens) = .ok expr after := by
  let tokens : List Token := expr.words.map fun word => ⟨1, 0, word.text, word.kind⟩
  have same : tokens.map Token.word = expr.words := by
    rw [List.map_map]
    exact List.map_id _
  have fits : expr.Fits scope nestingLimit := by
    refine ⟨measures.leansRight, measures.depth_eq.trans_le within, fun name used => ?_⟩
    rw [measures.closed] at used
    cases used
  let after : Stream := { Stream.ofTokens tokens with ahead := [] }
  have start : Stream.ofTokens tokens = after.unread tokens := by
    simp only [after, Stream.unread, Stream.ofTokens, List.append_nil]
  have ends : after.NoOperator := fun token next => by cases next
  exact ⟨tokens, after, parseWithin_eq_ok_iff.mpr
    ⟨tokens, start, spelling_of_words measures.writable same, fits, ends⟩⟩

/-- A tree that is read is higher than the limit by its head turns at most. There are at most as
many turns as levels, and for each number of them there is a tree that is as high as it can be. A
recursion over the tree goes down its height, in particular the one that writes its text. -/
theorem height_le_nestingLimit_add_headTurns (scope : Scope) :
    (∀ (before after : Stream) (expr : Expr), parse scope before = .ok expr after →
      expr.height ≤ nestingLimit + expr.headTurns ∧ expr.headTurns ≤ nestingLimit ∧
      (∀ (β : Type) (consumer : Consumer β) (levels : Nat),
        consumer.runWithin levels expr = some (consumer.run expr) ↔ expr.height ≤ levels) ∧
      writer.run expr = expr.pieces) ∧
    ∀ turns, turns ≤ nestingLimit → ∃ (tokens : List Token) (expr : Expr) (after : Stream),
      parse scope (.ofTokens tokens) = .ok expr after ∧ expr.headTurns = turns ∧
        expr.height = nestingLimit + turns := by
  constructor
  · intro before after expr read
    obtain ⟨tokens, _, _, fits, _⟩ := parseWithin_eq_ok_iff.mp read
    have high := expr.height_le_depth_add_headTurns
    have turns := (headTurns_bounds fits.leansRight).1
    have levels := fits.depth_le
    refine ⟨by omega, by omega, fun β consumer levels => ?_, run_writer expr⟩
    rw [consumer.runWithin_eq]
    by_cases low : expr.height ≤ levels
    · simp only [low, if_true]
    · simp only [low, if_false, reduceCtorEq]
  · intro turns within
    have measures := measures_tower (nestingLimit - turns) turns
    obtain ⟨tokens, after, read⟩ := exists_parse measures (by omega) scope
    exact ⟨tokens, _, after, read, measures.headTurns_eq, measures.height_eq.trans (by omega)⟩

/-- A name in parentheses is one level below the root for reading and two for the tree. -/
theorem height_le_nestingLimit_add_headTurns_of_parenthesized_name :
    (∃ (expr : Expr) (after : Stream),
      parse (.ofNames ["a"]) (.ofTokens (Token.scan "(a)+1")) = .ok expr after ∧
      expr.depth = 1 ∧ expr.headTurns = 1 ∧ expr.height ≤ nestingLimit + 1 ∧
      writer.runWithin 1 expr ≠ some expr.pieces ∧ writer.runWithin 2 expr = some expr.pieces) ∧
    ∃ (tokens : List Token) (expr : Expr) (after : Stream),
      parse (.ofNames ["a"]) (.ofTokens tokens) = .ok expr after ∧ expr.height = 512 := by
  have read : parse (.ofNames ["a"]) (.ofTokens (Token.scan "(a)+1")) =
      .ok (.operation .add (.group (.reference "a")) (.number ⟨0x3ff0000000000000⟩))
        ⟨[], ⟨1, 5, "", .endOfInput⟩⟩ := by
    decide +kernel
  obtain ⟨bounded, attained⟩ := height_le_nestingLimit_add_headTurns (.ofNames ["a"])
  obtain ⟨high, _, recursion, written⟩ := bounded _ _ _ read
  obtain ⟨tokens, expr, after, towerRead, _, height⟩ := attained nestingLimit (Nat.le_refl _)
  refine ⟨⟨_, _, read, rfl, rfl, high, ?_, ?_⟩, tokens, expr, after, towerRead, height⟩
  · rw [← written, Ne, recursion]
    decide
  · rw [← written, recursion]
    decide

/-- As many parentheses as the limit allows, and a sum around them. -/
theorem parse_of_sum_behind_parentheses :
    ∃ (expr : Expr) (after : Stream),
      parse (.ofNames []) (.ofTokens (List.replicate 256 ⟨1, 0, "(", .leftParen⟩ ++
        ⟨1, 0, "1", .number⟩ :: List.replicate 256 ⟨1, 0, ")", .rightParen⟩ ++
        [⟨1, 0, "+", .plus⟩, ⟨1, 0, "1", .number⟩])) = .ok expr after ∧
      expr.height = 257 ∧ ¬ expr.height ≤ nestingLimit := by
  refine ⟨.operation .add (Expr.group^[256] (.number ⟨0x3ff0000000000000⟩))
    (.number ⟨0x3ff0000000000000⟩), ⟨[], ⟨1, 0, "", .endOfInput⟩⟩, ?_, ?_, ?_⟩
  · decide +kernel
  · decide +kernel
  · decide +kernel

end AudioMarkup.Expr
