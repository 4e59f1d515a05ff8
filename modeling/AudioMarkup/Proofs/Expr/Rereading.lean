import AudioMarkup.Proofs.Script.Reading

/-!
The script text of an expression as markup. It has no blanks, but a mark stands between any two of
its words, so it is cut into the words it was made of: `Expr.scriptWords`. Most of them are the words
of the expression itself. Others are the names of functions, which are no builtins here, and the
text of infinity, which is no numeral. An expression without these two is read back.
-/

namespace AudioMarkup

/-! ### The kinds of the words -/

namespace Binary64

variable {value : Binary64}

private theorem scriptText_of_infinite (writable : value.isWritable = true)
    (infinite : value.isFinite = false) : value.scriptText = "Infinity" := by
  rw [isWritable, infinite, Bool.false_or, Bool.and_eq_true, Bool.not_eq_true'] at writable
  rw [scriptText, if_pos writable.2, signed, writable.1, if_neg Bool.false_ne_true]
  rfl

theorem isBare_scriptText (writable : value.isWritable = true) :
    Text.isBare value.scriptText = true := by
  cases finite : value.isFinite with
  | false =>
      rw [scriptText_of_infinite writable finite]
      rfl
  | true => exact Text.isBare_of_isDecimal (Expr.number_reads writable finite).1

/-- Infinity has the text of a class name. -/
theorem kind_scriptText (writable : value.isWritable = true) :
    Token.Kind.ofText value.scriptText = if value.isFinite then .number else .className := by
  have bare := isBare_scriptText writable
  cases finite : value.isFinite with
  | false =>
      rw [scriptText_of_infinite writable finite]
      rfl
  | true => exact Text.ofText_of_isDecimal bare (Expr.number_reads writable finite).1

end Binary64

theorem MathFunction.kind_scriptName (function : MathFunction) :
    Token.Kind.ofText function.scriptName = .className := by
  cases function <;> rfl

theorem Operator.symbol_eq_mark (operator : Operator) :
    ∃ mark kind, operator.symbol.toList = [mark] ∧ Token.Kind.ofPunctuation? mark = some kind ∧
      Word.of operator.symbol = ⟨kind, mark.toString⟩ := by
  cases operator with
  | add => exact ⟨'+', .plus, rfl, rfl, rfl⟩
  | sub => exact ⟨'-', .minus, rfl, rfl, rfl⟩
  | mul => exact ⟨'*', .star, rfl, rfl, rfl⟩
  | div => exact ⟨'/', .slash, rfl, rfl, rfl⟩

namespace Expr

def scriptWords : Expr → List Word
  | .number value => [.of value.scriptText]
  | .reference name => [.of name]
  | .operation operator left right =>
    left.scriptWords ++ .of operator.symbol :: right.scriptWords
  | .call function argument =>
    .of function.scriptName :: .of "(" :: (argument.scriptWords ++ [.of ")"])
  | .group inner => .of "(" :: (inner.scriptWords ++ [.of ")"])

def isCallFree : Expr → Bool
  | .number _ => true
  | .reference _ => true
  | .operation _ left right => left.isCallFree && right.isCallFree
  | .call _ _ => false
  | .group inner => inner.isCallFree

end Expr

/-! ### Cutting the text -/

namespace Scanner

/-- The scanner cuts these words from the characters, wherever it is between two words. -/
def Cuts (chars : List Char) (words : List Word) : Prop :=
  ∀ (scanner : Scanner) (before : List Word), scanner.Has before → scanner.pending = "" →
    (chars.foldl step scanner).Has (before ++ words)

theorem cuts_bare {text : String} (bare : Text.isBare text = true) :
    Cuts text.toList [.of text] :=
  fun _ _ has settled => has.bare settled bare

/-- A mark ends the words before it, and those behind it start afresh. -/
theorem Cuts.mark {first second : List Char} {firstWords secondWords : List Word} {mark : Char}
    {kind : Token.Kind} (punctuation : Token.Kind.ofPunctuation? mark = some kind)
    (left : Cuts first firstWords) (right : Cuts second secondWords) :
    Cuts (first ++ mark :: second) (firstWords ++ ⟨kind, mark.toString⟩ :: secondWords) := by
  intro scanner before has settled
  obtain ⟨afterMark, settledAgain⟩ := (left scanner before has settled).punctuation punctuation
  have afterSecond := right _ _ afterMark settledAgain
  rw [List.foldl_append, List.foldl_cons]
  simpa only [List.append_assoc, List.singleton_append, List.cons_append, List.nil_append]
    using afterSecond

theorem cuts_nil : Cuts [] [] := by
  intro scanner before has _
  rw [List.append_nil]
  exact has

theorem Cuts.parentheses {first inside : List Char} {firstWords insideWords : List Word}
    (left : Cuts first firstWords) (inner : Cuts inside insideWords) :
    Cuts (first ++ '(' :: (inside ++ [')']))
      (firstWords ++ .of "(" :: (insideWords ++ [.of ")"])) :=
  left.mark rfl (inner.mark rfl cuts_nil)

end Scanner

namespace Expr

open Scanner

variable {expr : Expr}

theorem cuts_scriptText (writable : expr.isWritable = true) :
    Cuts expr.scriptText.toList expr.scriptWords := by
  induction expr with
  | number value =>
      rw [scriptText_number]
      exact cuts_bare (Binary64.isBare_scriptText writable)
  | reference name =>
      simp only [isWritable, Text.isName, Bool.and_eq_true] at writable
      rw [scriptText_reference]
      exact cuts_bare writable.1.1
  | operation operator left right leftIh rightIh =>
      rw [isWritable, Bool.and_eq_true] at writable
      obtain ⟨mark, kind, text, punctuation, word⟩ := operator.symbol_eq_mark
      rw [scriptText_operation, String.toList_append, String.toList_append, text, scriptWords, word]
      exact (leftIh writable.1).mark punctuation (rightIh writable.2)
  | call function argument ih =>
      rw [scriptText_call, String.toList_append, String.toList_append, String.toList_append]
      exact (cuts_bare (isBare_scriptName function)).parentheses (ih writable)
  | group inner ih =>
      rw [scriptText_group, String.toList_append, String.toList_append]
      exact cuts_nil.parentheses (ih writable)

theorem words_scriptText (writable : expr.isWritable = true) :
    (Token.scan expr.scriptText).map Token.word = expr.scriptWords := by
  rw [Token.scan, Lexeme.scan, List.map_map]
  exact (cuts_scriptText writable start [] has_start rfl).finish

/-! ### Reading the words -/

theorem scriptWords_eq_words (finite : expr.isFinite = true) (callFree : expr.isCallFree = true) :
    expr.scriptWords = expr.words := by
  induction expr with
  | number value => rw [scriptWords, words, Binary64.numeral_of_finite finite]
  | reference name => rfl
  | operation operator left right leftIh rightIh =>
      rw [isFinite, Bool.and_eq_true] at finite
      rw [isCallFree, Bool.and_eq_true] at callFree
      rw [scriptWords, words, leftIh finite.1 callFree.1, rightIh finite.2 callFree.2]
  | call function argument ih => cases callFree
  | group inner ih => rw [scriptWords, words, ih finite callFree]

/-- Each token of an expression has one word in its script text. -/
theorem Spelling.length_scriptWords {tokens : List Token} (spelled : Spelling tokens expr) :
    tokens.length = expr.scriptWords.length := by
  induction spelled with
  | number _ _ => rfl
  | constant _ _ => rfl
  | reference _ => rfl
  | operation _ _ _ leftIh rightIh =>
      simp only [scriptWords, List.length_append, List.length_cons, leftIh, rightIh]
  | call _ _ _ _ _ ih =>
      simp only [scriptWords, List.length_append, List.length_cons, List.length_nil, ih]
  | group _ _ _ ih =>
      simp only [scriptWords, List.length_append, List.length_cons, List.length_nil, ih]

/-- So the words of a part end where its tokens end. -/
private theorem Spelling.append_inj {tokens : List Token} {rest others : List Word}
    (spelled : Spelling tokens expr)
    (same : tokens.map Token.word ++ rest = expr.scriptWords ++ others) :
    tokens.map Token.word = expr.scriptWords ∧ rest = others := by
  apply List.append_inj same
  rw [List.length_map, spelled.length_scriptWords]

private theorem kind_of_scriptWord {token : Token} {text : String} {rest : List Token}
    {others : List Word} (same : (token :: rest).map Token.word = .of text :: others) :
    token.kind = Token.Kind.ofText text := by
  rw [List.map_cons] at same
  exact congrArg Word.kind (List.cons.inj same).1

/-- Tokens with the words of an expression's script text spell another expression, if any, where it
has an infinite number or a call. -/
theorem Spelling.isFinite_of_scriptWords {tokens : List Token} (spelled : Spelling tokens expr)
    (writable : expr.isWritable = true) (same : tokens.map Token.word = expr.scriptWords) :
    expr.isFinite = true ∧ expr.isCallFree = true := by
  induction spelled with
  | @number token value number _ =>
      have kind := kind_of_scriptWord same
      rw [number, Binary64.kind_scriptText writable] at kind
      refine ⟨?_, rfl⟩
      by_contra infinite
      rw [isFinite] at infinite
      rw [if_neg infinite] at kind
      cases kind
  | @constant token value builtin _ =>
      have kind := kind_of_scriptWord same
      rw [builtin, Binary64.kind_scriptText writable] at kind
      split at kind
      · cases kind
      · cases kind
  | reference _ => exact ⟨rfl, rfl⟩
  | @operation leftTokens rightTokens token operator left right leftSpelled _ _ leftIh rightIh =>
      rw [Expr.isWritable, Bool.and_eq_true] at writable
      rw [List.map_append, List.map_cons, scriptWords] at same
      obtain ⟨sameLeft, sameRest⟩ := leftSpelled.append_inj same
      obtain ⟨leftFinite, leftFree⟩ := leftIh writable.1 sameLeft
      obtain ⟨rightFinite, rightFree⟩ := rightIh writable.2 (List.cons.inj sameRest).2
      constructor
      · rw [Expr.isFinite, leftFinite, rightFinite, Bool.and_self]
      · rw [isCallFree, leftFree, rightFree, Bool.and_self]
  | @call token _ _ _ function _ builtin _ _ _ _ _ =>
      have kind := kind_of_scriptWord same
      rw [builtin, function.kind_scriptName] at kind
      cases kind
  | @group opening closing tokens inner _ innerSpelled _ ih =>
      rw [List.map_cons, List.map_append, scriptWords] at same
      exact ih writable (innerSpelled.append_inj (List.cons.inj same).2).1

theorem spelling_scan_scriptText_iff (writable : expr.isWritable = true) :
    Spelling (Token.scan expr.scriptText) expr ↔
      expr.isFinite = true ∧ expr.isCallFree = true := by
  have sameWords := words_scriptText writable
  constructor
  · intro spelled
    exact spelled.isFinite_of_scriptWords writable sameWords
  · rintro ⟨finite, callFree⟩
    rw [scriptWords_eq_words finite callFree] at sameWords
    exact spelling_of_words writable sameWords

def ReadWhole (scope : Scope) (tokens : List Token) (expr : Expr) : Prop :=
  ∃ after, parse scope (.ofTokens tokens) = .ok expr after ∧ after.ahead = []

theorem readWhole_iff {scope : Scope} {tokens : List Token} :
    ReadWhole scope tokens expr ↔ Spelling tokens expr ∧ expr.Fits scope nestingLimit := by
  constructor
  · rintro ⟨after, success, finished⟩
    obtain ⟨consumed, same, spelled, fits, _⟩ := parseWithin_eq_ok_iff.mp success
    have all : tokens = consumed := by
      have ahead : tokens = consumed ++ after.ahead := congrArg Stream.ahead same
      rwa [finished, List.append_nil] at ahead
    rw [all]
    exact ⟨spelled, fits⟩
  · rintro ⟨spelled, fits⟩
    have whole : Stream.ofTokens tokens =
        Stream.unread { Stream.ofTokens tokens with ahead := [] } tokens := by
      rw [Stream.unread, List.append_nil]
      rfl
    have ends : Stream.NoOperator { Stream.ofTokens tokens with ahead := [] } := by
      intro token found
      cases found
    exact ⟨_, parseWithin_eq_ok_iff.mpr ⟨tokens, whole, spelled, fits, ends⟩, rfl⟩

/-- An expression that was read anywhere in a text is read back from its script text, as a whole and
in the same scope, exactly if its numbers are finite and it calls no function. -/
theorem readWhole_scriptText_iff (source : String) (position : Nat) (scope : Scope) (expr : Expr)
    (after : Stream)
    (success : parse scope ((Stream.ofTokens (Token.scan source)).skip position) =
      .ok expr after) :
    ReadWhole scope (Token.scan expr.scriptText) expr ↔
      expr.isFinite = true ∧ expr.isCallFree = true := by
  obtain ⟨consumed, same, spelled, fits, _⟩ := parseWithin_eq_ok_iff.mp success
  have writable : expr.isWritable = true := by
    apply spelled.isWritable
    intro token member
    have ahead : (Token.scan source).drop position = consumed ++ after.ahead :=
      congrArg Stream.ahead same
    apply Token.wellFormed_of_mem_scan
    apply List.mem_of_mem_drop
    rw [ahead]
    exact List.mem_append_left _ member
  rw [readWhole_iff, spelling_scan_scriptText_iff writable]
  exact and_iff_left fits

/-- A name may be spelled like the text of infinity. -/
theorem readWhole_scriptText_iff_of_named_infinity :
    (∃ expr after, parse (.ofNames ["Infinity", "a.b"])
        ((Stream.ofTokens (Token.scan "[Infinity - (a.b*1.50)/@pi, @abs(a.b)]")).skip 1) =
          .ok expr after ∧
      expr.scriptText = "Infinity-(a.b*1.5)/3.141592653589793" ∧
      ReadWhole (.ofNames ["Infinity", "a.b"]) (Token.scan expr.scriptText) expr) ∧
    ∃ expr after, parse (.ofNames ["Infinity", "a.b"])
        ((Stream.ofTokens (Token.scan "[Infinity - (a.b*1.50)/@pi, @abs(a.b)]")).skip 11) =
          .ok expr after ∧
      expr.scriptText = "Math.abs(a.b)" ∧
      ¬ ReadWhole (.ofNames ["Infinity", "a.b"]) (Token.scan expr.scriptText) expr := by
  have difference : parse (.ofNames ["Infinity", "a.b"])
      ((Stream.ofTokens (Token.scan "[Infinity - (a.b*1.50)/@pi, @abs(a.b)]")).skip 1) =
        .ok (.operation .sub (.reference "Infinity") (.operation .div
            (.group (.operation .mul (.reference "a.b") (.number ⟨0x3ff8000000000000⟩)))
            (.number .pi)))
          ((Stream.ofTokens (Token.scan "[Infinity - (a.b*1.50)/@pi, @abs(a.b)]")).skip 10) := by
    decide +kernel
  have call : parse (.ofNames ["Infinity", "a.b"])
      ((Stream.ofTokens (Token.scan "[Infinity - (a.b*1.50)/@pi, @abs(a.b)]")).skip 11) =
        .ok (.call .abs (.reference "a.b"))
          ((Stream.ofTokens (Token.scan "[Infinity - (a.b*1.50)/@pi, @abs(a.b)]")).skip 15) := by
    decide +kernel
  refine ⟨⟨_, _, difference, ?_, ?_⟩, ⟨_, _, call, ?_, ?_⟩⟩
  · decide +kernel
  · exact (readWhole_scriptText_iff _ _ _ _ _ difference).mpr ⟨rfl, rfl⟩
  · decide +kernel
  · intro readBack
    exact absurd ((readWhole_scriptText_iff _ _ _ _ _ call).mp readBack).2 (by decide)

end Expr
end AudioMarkup
