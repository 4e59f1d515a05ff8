import AudioMarkup.Proofs.Expr.Grammar
import AudioMarkup.Proofs.Truncation
import Mathlib.Data.List.Chain

/-!
Expressions that are cut short. An expression is read the same way up to the cut, and what is there
of it may be a complete one. Its tokens hold no bracket and no comma, and no name stands directly
behind an operand.
-/

namespace AudioMarkup

open Parse

/-! ### The tokens of expressions -/

namespace Expr

def tokenKinds : List Token.Kind := operandStart ++ [.rightParen, .plus, .minus, .star, .slash]

theorem operatorKind_mem_tokenKinds {kind : Token.Kind} {operator : Operator}
    (found : Operator.ofKind? kind = some operator) : kind ∈ tokenKinds := by
  cases kind with
  | plus | minus | star | slash => decide
  | _ => cases found

theorem Spelling.kind_mem {tokens : List Token} {expr : Expr} (spelled : Spelling tokens expr) :
    ∀ token ∈ tokens, token.kind ∈ tokenKinds := by
  have single {token : Token} (listed : token.kind ∈ tokenKinds) :
      ∀ other ∈ [token], other.kind ∈ tokenKinds := by
    intro other member
    rw [List.mem_singleton.mp member]
    exact listed
  induction spelled with
  | number number _ => exact single (by rw [number]; decide)
  | constant builtin _ => exact single (by rw [builtin]; decide)
  | reference word =>
      rcases word with name | className
      · exact single (by rw [name]; decide)
      · exact single (by rw [className]; decide)
  | operation _ found _ left right =>
      intro token member
      rcases List.mem_append.mp member with inLeft | behind
      · exact left token inLeft
      · rcases List.mem_cons.mp behind with rfl | inRight
        · exact operatorKind_mem_tokenKinds found
        · exact right token inRight
  | call builtin _ opened _ closed inner =>
      intro token member
      simp only [List.mem_cons, List.mem_append, List.not_mem_nil, or_false] at member
      rcases member with rfl | rfl | inside | rfl
      · rw [builtin]; decide
      · rw [opened]; decide
      · exact inner token inside
      · rw [closed]; decide
  | group opened _ closed inner =>
      intro token member
      simp only [List.mem_cons, List.mem_append, List.not_mem_nil, or_false] at member
      rcases member with rfl | inside | rfl
      · rw [opened]; decide
      · exact inner token inside
      · rw [closed]; decide

theorem Spelling.no_comma {tokens : List Token} {expr : Expr} (spelled : Spelling tokens expr) :
    ∀ token ∈ tokens, token.kind ≠ .comma := by
  intro token member comma
  have listed := spelled.kind_mem token member
  rw [comma] at listed
  exact absurd listed (by decide)

def endsOperand : Token.Kind → Bool
  | .number | .name | .className | .builtin | .rightParen => true
  | _ => false

theorem Spelling.ends {tokens : List Token} {expr : Expr} (spelled : Spelling tokens expr) :
    ∃ last, tokens.getLast? = some last ∧ endsOperand last.kind = true := by
  induction spelled with
  | @number token _ number _ => exact ⟨token, rfl, by rw [number]; rfl⟩
  | @constant token _ builtin _ => exact ⟨token, rfl, by rw [builtin]; rfl⟩
  | @reference token word =>
      refine ⟨token, rfl, ?_⟩
      rcases word with name | className
      · rw [name]; rfl
      · rw [className]; rfl
  | operation _ _ _ _ right =>
      obtain ⟨last, final, ends⟩ := right
      refine ⟨last, ?_, ends⟩
      rw [List.getLast?_append, List.getLast?_cons, final]
      rfl
  | @call token opening closing tokens _ _ _ _ _ _ closed _ =>
      refine ⟨closing, ?_, by rw [closed]; rfl⟩
      rw [← List.cons_append, ← List.cons_append, List.getLast?_concat]
  | @group opening closing tokens _ _ _ closed _ =>
      refine ⟨closing, ?_, by rw [closed]; rfl⟩
      rw [← List.cons_append, List.getLast?_concat]

/-- No name stands directly behind an operand. -/
theorem Spelling.isChain {tokens : List Token} {expr : Expr} (spelled : Spelling tokens expr) :
    tokens.IsChain fun first second => endsOperand first.kind = true → second.kind ≠ .name := by
  induction spelled with
  | number _ _ => exact .singleton _
  | constant _ _ => exact .singleton _
  | reference _ => exact .singleton _
  | @operation leftTokens rightTokens token operator _ _ _ found _ left right =>
      have isOperator : endsOperand token.kind = false ∧ token.kind ≠ .name := by
        generalize token.kind = kind at found
        cases kind with
        | plus | minus | star | slash => decide
        | _ => cases found
      rw [List.isChain_append, List.isChain_cons]
      refine ⟨left, ⟨?_, right⟩, ?_⟩
      · intro second _ ends
        rw [isOperator.1] at ends
        cases ends
      · rintro first _ second ⟨rfl⟩ _
        exact isOperator.2
  | @call token opening closing tokens _ _ builtin _ opened spelled closed inner =>
      rw [List.isChain_cons_cons, List.isChain_cons, List.isChain_append]
      refine ⟨fun _ => by rw [opened]; decide, fun second _ ends => ?_, inner, .singleton _, ?_⟩
      · rw [opened] at ends
        cases ends
      · rintro first _ second ⟨rfl⟩ _
        rw [closed]
        decide
  | @group opening closing tokens _ opened spelled closed inner =>
      rw [List.isChain_cons, List.isChain_append]
      refine ⟨fun second _ ends => ?_, inner, .singleton _, ?_⟩
      · rw [opened] at ends
        cases ends
      · rintro first _ second ⟨rfl⟩ _
        rw [closed]
        decide

/-- An expression goes on neither with a name nor, without an operator, at all. -/
theorem Spelling.not_append_name {tokens rest : List Token} {token : Token} {expr other : Expr}
    (spelled : Spelling tokens expr) (name : token.kind = .name) :
    ¬ Spelling (tokens ++ token :: rest) other := by
  intro longer
  obtain ⟨last, final, ends⟩ := spelled.ends
  obtain ⟨_, _, apart⟩ := List.isChain_append.mp longer.isChain
  exact apart last final token rfl ends name

/-! ### Expressions -/

variable {account : Account} {deeper? : Option (Parse Expr)}

section Parts

variable (passes : ∀ token : Token, token.kind ∈ tokenKinds → account.Passed [token])
include passes

private theorem curtails_parseGroup (blamed : Token)
    (deeper : ∀ step ∈ deeper?, Curtails account (fun _ => True) step) :
    Curtails account (fun _ => True) (parseGroup deeper? blamed) := by
  have closes : ∀ token : Token, token.kind ∈ [.rightParen] → account.Passed [token] := by
    intro token closed
    exact passes token (by rw [List.mem_singleton.mp closed]; decide)
  cases deeper? with
  | none => exact curtails_fail _ blamed
  | some step =>
      apply (deeper step rfl).bind
      · intro inner
        exact curtails_expectAny_bind closes fun _ _ => curtails_pure inner
      · intro inner _
        exact quiet_expectAny_bind _ _

private theorem curtails_parseBuiltin (token : Token)
    (deeper : ∀ step ∈ deeper?, Curtails account (fun _ => True) step) :
    Curtails account (fun _ => True) (parseBuiltin deeper? token) := by
  have opens : ∀ token : Token, token.kind ∈ [.leftParen] → account.Passed [token] := by
    intro token opened
    exact passes token (by rw [List.mem_singleton.mp opened]; decide)
  rw [parseBuiltin]
  split
  · exact curtails_pure _
  · apply curtails_expectAny_bind opens
    intro _ _
    apply (curtails_parseGroup passes token deeper).bind
    · intro argument
      exact curtails_pure _
    · intro argument _
      exact quiet_pure trivial
  · exact curtails_fail _ token

private theorem curtails_parseOperandFrom (scope : Scope) (token : Token)
    (deeper : ∀ step ∈ deeper?, Curtails account (fun _ => True) step) :
    Curtails account (fun _ => True) (parseOperandFrom scope deeper? token) := by
  rw [parseOperandFrom]
  split
  · split
    · exact curtails_pure _
    · exact curtails_fail _ token
  · exact curtails_parseBuiltin passes token deeper
  · apply (curtails_parseGroup passes token deeper).bind
    · intro inner
      exact curtails_pure _
    · intro inner _
      exact quiet_pure trivial
  · split
    · exact curtails_pure _
    · exact curtails_fail _ token

private theorem curtails_parseTail (left : Expr)
    (deeper : ∀ step ∈ deeper?, Curtails account (fun _ => True) step) :
    Curtails account (fun _ => True) (parseTail deeper? left) := by
  have operators : ∀ (token : Token) (pair : Operator × Token), operatorOf? token = some pair →
      account.Passed [token] := by
    intro token pair found
    obtain ⟨operator, kind, _⟩ := Option.map_eq_some_iff.mp found
    exact passes token (operatorKind_mem_tokenKinds kind)
  apply (curtails_takeMap operators).bind
  · intro pair?
    cases pair? with
    | none => exact curtails_pure left
    | some pair =>
        cases deeper? with
        | none => exact curtails_fail _ pair.2
        | some step =>
            apply (deeper step rfl).bind
            · intro right
              exact curtails_pure _
            · intro right _
              exact quiet_pure trivial
  · intro pair? nothing
    rw [nothing]
    exact quiet_pure trivial

/-- Up to a cut an expression is read the same way. At the cut a shorter one may be complete. -/
theorem curtails_parseWithin (scope : Scope) (levels : Nat) :
    Curtails account (fun _ => True) (parseWithin scope levels) := by
  have chain (deeper? : Option (Parse Expr))
      (deeper : ∀ step ∈ deeper?, Curtails account (fun _ => True) step) :
      Curtails account (fun _ => True) (parseChain scope deeper?) := by
    have starts : ∀ token : Token, token.kind ∈ operandStart → account.Passed [token] := by
      intro token listed
      exact passes token (List.mem_append_left _ listed)
    apply Curtails.bind
    · apply curtails_expectAny_bind starts
      intro token _
      exact curtails_parseOperandFrom passes scope token deeper
    · intro left
      exact curtails_parseTail passes left deeper
    · intro left _
      apply (quiet_takeMap operatorOf?).bind
      intro pair? nothing
      rw [nothing]
      exact quiet_pure trivial
  induction levels with
  | zero =>
      apply chain none
      intro step impossible
      cases impossible
  | succ levels ih =>
      apply chain (some (parseWithin scope levels))
      intro step member
      cases member
      exact ih

end Parts

theorem quiet_parse (scope : Scope) : Quiet (fun _ => True) (parse scope) := by
  rw [parse, parseWithin_eq_parseChain]
  have operand : Quiet (fun _ => False) (parseOperand scope (nextLevel? scope nestingLimit)) :=
    quiet_expectAny_bind _ _
  apply operand.bind
  intro left impossible
  exact impossible.elim

end Expr

end AudioMarkup
