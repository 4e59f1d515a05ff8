import AudioMarkup.Proofs.Binary64.Numerals
import AudioMarkup.Proofs.Expr.Grammar
import AudioMarkup.Proofs.Token.Words
import Mathlib.Tactic.IntervalCases

/-!
Expressions as words. An expression can be written if its numbers have numerals and its references
are names, and that is all that the words of a text can make of an expression: `Spelling.isWritable`
goes from tokens to trees, `spelling_of_words` back.
-/

namespace AudioMarkup

/-! ### Words by their text -/

namespace Word

def of (text : String) : Word := ⟨Token.Kind.ofText text, text⟩

theorem wellFormed_of_isName {text : String} (name : Text.isName text = true) :
    (of text).WellFormed := by
  simp only [Text.isName, Bool.and_eq_true] at name
  exact .bare name.1.1

theorem wellFormed_of_mark (mark : Char) {kind : Token.Kind}
    (punctuation : Token.Kind.ofPunctuation? mark = some kind) :
    (of mark.toString).WellFormed := by
  have found : Token.Kind.ofText mark.toString = kind := by
    have single : mark.toString.toList = [mark] := String.toList_singleton mark
    simp only [Token.Kind.ofText, single, punctuation]
  rw [of, found]
  exact .punctuation punctuation

end Word

namespace Text

private theorem isBareChar_of_isDigit {digit : Char} (isDigit : digit.isDigit = true) :
    isBareChar digit = true := by
  rw [Char.isDigit, Bool.and_eq_true, decide_eq_true_eq, decide_eq_true_eq] at isDigit
  have low : 48 ≤ digit.toNat := isDigit.1
  have high : digit.toNat ≤ 57 := isDigit.2
  rw [← Char.ofNat_toNat digit]
  interval_cases digit.toNat <;> rfl

theorem isBare_of_isDecimal {text : String} (decimal : isDecimal text.toList = true) :
    isBare text = true := by
  have nonempty : text.isEmpty = false := by
    obtain ⟨first, rest, chars, _⟩ := isDecimal_starts decimal
    rw [← Bool.not_eq_true, String.isEmpty_iff, ← String.toList_eq_nil_iff, chars]
    exact List.cons_ne_nil _ _
  rw [isBare, nonempty, Bool.not_false, Bool.true_and, List.all_eq_true]
  intro c member
  rcases isDecimal_iff.mp decimal with
    digits | ⟨whole, fraction, chars, wholeDigits, fractionDigits⟩
  · exact isBareChar_of_isDigit ((isDigits_iff.mp digits).2 c member)
  · rw [chars, List.mem_append, List.mem_cons] at member
    rcases member with inWhole | rfl | inFraction
    · exact isBareChar_of_isDigit ((isDigits_iff.mp wholeDigits).2 c inWhole)
    · rfl
    · exact isBareChar_of_isDigit ((isDigits_iff.mp fractionDigits).2 c inFraction)

end Text

def MathFunction.builtinName (function : MathFunction) : String :=
  "@" ++ String.ofList (function.label.toList.map Char.toLower)

private theorem MathFunction.builtinName_facts (function : MathFunction) :
    Text.isBare function.builtinName = true ∧
      Token.Kind.ofText function.builtinName = .builtin ∧
      Builtin.find? function.builtinName = some (.function function) := by
  cases function <;> exact ⟨rfl, rfl, rfl⟩

private theorem Operator.symbol_facts (operator : Operator) :
    (Word.of operator.symbol).WellFormed ∧
      Operator.ofKind? (Token.Kind.ofText operator.symbol) = some operator := by
  cases operator with
  | add => exact ⟨Word.wellFormed_of_mark '+' rfl, rfl⟩
  | sub => exact ⟨Word.wellFormed_of_mark '-' rfl, rfl⟩
  | mul => exact ⟨Word.wellFormed_of_mark '*' rfl, rfl⟩
  | div => exact ⟨Word.wellFormed_of_mark '/' rfl, rfl⟩

namespace Expr

def words : Expr → List Word
  | .number value => [.of value.numeral]
  | .reference name => [.of name]
  | .operation operator left right => left.words ++ .of operator.symbol :: right.words
  | .call function argument => .of function.builtinName :: .of "(" :: (argument.words ++ [.of ")"])
  | .group inner => .of "(" :: (inner.words ++ [.of ")"])

def isWritable : Expr → Bool
  | .number value => value.isWritable
  | .reference name => Text.isName name
  | .operation _ left right => left.isWritable && right.isWritable
  | .call _ argument => argument.isWritable
  | .group inner => inner.isWritable

theorem wellFormed_words {expr : Expr} (writable : expr.isWritable = true) :
    ∀ word ∈ expr.words, word.WellFormed := by
  have opening : (Word.of "(").WellFormed := Word.wellFormed_of_mark '(' rfl
  have closing : (Word.of ")").WellFormed := Word.wellFormed_of_mark ')' rfl
  induction expr with
  | number value =>
      intro word member
      rw [List.mem_singleton.mp member]
      exact .bare (Text.isBare_of_isDecimal (Binary64.read?_numeral writable).1)
  | reference name =>
      intro word member
      rw [List.mem_singleton.mp member]
      exact Word.wellFormed_of_isName writable
  | operation operator left right leftIh rightIh =>
      rw [isWritable, Bool.and_eq_true] at writable
      intro word member
      rcases List.mem_append.mp member with inLeft | member
      · exact leftIh writable.1 word inLeft
      · rcases List.mem_cons.mp member with rfl | inRight
        · exact operator.symbol_facts.1
        · exact rightIh writable.2 word inRight
  | call function argument ih =>
      intro word member
      simp only [words, List.mem_cons, List.mem_append, List.not_mem_nil, or_false] at member
      rcases member with rfl | rfl | inside | rfl
      · exact .bare function.builtinName_facts.1
      · exact opening
      · exact ih writable word inside
      · exact closing
  | group inner ih =>
      intro word member
      simp only [words, List.mem_cons, List.mem_append, List.not_mem_nil, or_false] at member
      rcases member with rfl | inside | rfl
      · exact opening
      · exact ih writable word inside
      · exact closing

private theorem kind_of_word {token : Token} {text : String} (same : token.word = .of text) :
    token.kind = Token.Kind.ofText text ∧ token.text = text :=
  ⟨congrArg Word.kind same, congrArg Word.text same⟩

theorem refers_of_word {token : Token} {name : String} (isName : Text.isName name = true)
    (same : token.word = .of name) : token.kind = .name ∨ token.kind = .className := by
  rw [(kind_of_word same).1, Text.ofText_of_isName isName]
  split
  · exact .inr rfl
  · exact .inl rfl

theorem spelling_of_words {expr : Expr} (writable : expr.isWritable = true) {tokens : List Token}
    (same : tokens.map Token.word = expr.words) : Spelling tokens expr := by
  induction expr generalizing tokens with
  | number value =>
      obtain ⟨token, rfl, sameWord⟩ := List.map_eq_singleton_iff.mp same
      obtain ⟨kind, text⟩ := kind_of_word sameWord
      obtain ⟨decimal, read⟩ := Binary64.read?_numeral writable
      rw [Text.ofText_of_isDecimal (Text.isBare_of_isDecimal decimal) decimal] at kind
      exact .number kind (by rw [text, read])
  | reference name =>
      obtain ⟨token, rfl, sameWord⟩ := List.map_eq_singleton_iff.mp same
      have spelled := Spelling.reference (refers_of_word writable sameWord)
      rwa [(kind_of_word sameWord).2] at spelled
  | operation operator left right leftIh rightIh =>
      rw [isWritable, Bool.and_eq_true] at writable
      obtain ⟨leftTokens, others, rfl, sameLeft, sameOthers⟩ := List.map_eq_append_iff.mp same
      obtain ⟨token, rightTokens, rfl, sameWord, sameRight⟩ := List.map_eq_cons_iff.mp sameOthers
      have kind : Operator.ofKind? token.kind = some operator := by
        rw [(kind_of_word sameWord).1, operator.symbol_facts.2]
      exact .operation (leftIh writable.1 sameLeft) kind (rightIh writable.2 sameRight)
  | call function argument ih =>
      obtain ⟨token, afterName, rfl, sameWord, sameRest⟩ := List.map_eq_cons_iff.mp same
      obtain ⟨opening, inside, rfl, sameOpening, sameInside⟩ := List.map_eq_cons_iff.mp sameRest
      obtain ⟨tokens, last, rfl, sameTokens, sameLast⟩ := List.map_eq_append_iff.mp sameInside
      obtain ⟨closing, rfl, sameClosing⟩ := List.map_eq_singleton_iff.mp sameLast
      obtain ⟨kind, text⟩ := kind_of_word sameWord
      obtain ⟨_, builtin, found⟩ := function.builtinName_facts
      exact .call (kind.trans builtin) (by rw [text, found]) (kind_of_word sameOpening).1
        (ih writable sameTokens) (kind_of_word sameClosing).1
  | group inner ih =>
      obtain ⟨opening, inside, rfl, sameOpening, sameInside⟩ := List.map_eq_cons_iff.mp same
      obtain ⟨tokens, last, rfl, sameTokens, sameLast⟩ := List.map_eq_append_iff.mp sameInside
      obtain ⟨closing, rfl, sameClosing⟩ := List.map_eq_singleton_iff.mp sameLast
      exact .group (kind_of_word sameOpening).1 (ih writable sameTokens)
        (kind_of_word sameClosing).1

private theorem isWritable_of_constant {text : String} {value : Binary64}
    (found : Builtin.find? text = some (.constant value)) : value.isWritable = true := by
  unfold Builtin.find? at found
  split at found <;> cases found <;> decide

theorem Spelling.isWritable {tokens : List Token} {expr : Expr} (spelled : Spelling tokens expr)
    (formed : ∀ token ∈ tokens, token.word.WellFormed) : expr.isWritable = true := by
  induction spelled with
  | @number token value number read =>
      have wellFormed := formed token (List.mem_singleton_self _)
      exact Binary64.isWritable_of_read? (wellFormed.isDecimal number) read
  | constant _ found => exact isWritable_of_constant found
  | @reference token word =>
      exact (formed token (List.mem_singleton_self _)).isName word
  | operation _ _ _ leftIh rightIh =>
      rw [Expr.isWritable, Bool.and_eq_true]
      constructor
      · exact leftIh fun token member => formed token (by simp [member])
      · exact rightIh fun token member => formed token (by simp [member])
  | call _ _ _ _ _ ih => exact ih fun token member => formed token (by simp [member])
  | group _ _ _ ih => exact ih fun token member => formed token (by simp [member])

end Expr
end AudioMarkup
