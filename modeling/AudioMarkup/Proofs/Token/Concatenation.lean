import AudioMarkup.Proofs.Token.Words

/-!
The tokens of a text on the lines below another text. A scanner that has read a line break outside
of a string goes on like one at the start of a text: `Scanner.below` is a scanner with other lexemes
before its own and its lines counted on from there, and every step respects it.

A text that leaves the scanner in a string is told by its last token.
-/

namespace AudioMarkup

def Lexeme.lower (lines : Nat) (lexeme : Lexeme) : Lexeme :=
  { lexeme with line := lexeme.line + lines }

def Token.lower (lines : Nat) (token : Token) : Token := { token with line := token.line + lines }

namespace Scanner

/-- The scanner so many lines further down, behind other lexemes. -/
def below (earlier : Array Lexeme) (lines : Nat) (scanner : Scanner) : Scanner :=
  { scanner with
    line := scanner.line + lines
    lexemes := earlier ++ scanner.lexemes.map (Lexeme.lower lines) }

variable (earlier : Array Lexeme) (lines : Nat) (scanner : Scanner)

private theorem flush_below : (below earlier lines scanner).flush =
    below earlier lines scanner.flush := by
  by_cases settled : scanner.pending.isEmpty
  · simp only [flush, below, settled, if_true]
  · simp only [flush, below, emit, settled, Bool.false_eq_true, if_false, Array.map_push,
      Array.append_push, Lexeme.lower]

private theorem breakLine_below : (below earlier lines scanner).breakLine =
    below earlier lines scanner.breakLine := by
  simp only [breakLine, below, Nat.add_right_comm]

private theorem closeString_below : (below earlier lines scanner).closeString =
    below earlier lines scanner.closeString := by
  simp only [closeString, below, emit, Array.map_push, Array.append_push, Lexeme.lower]

private theorem emit_below (text : String) (kind? : Option Token.Kind) :
    (below earlier lines scanner).emit text kind? =
      below earlier lines (scanner.emit text kind?) := by
  simp only [below, emit, Array.map_push, Array.append_push, Lexeme.lower]

private theorem stepInString_below (c : Char) :
    (below earlier lines scanner).stepInString c =
      below earlier lines (scanner.stepInString c) := by
  rw [stepInString, stepInString]
  by_cases quote : c = '"'
  · rw [if_pos quote, if_pos quote, closeString_below]
    rfl
  · rw [if_neg quote, if_neg quote]
    by_cases lineBreak : c = '\n'
    · rw [if_pos lineBreak, if_pos lineBreak, breakLine_below]
    · rw [if_neg lineBreak, if_neg lineBreak]
      rfl

private theorem stepBare_below (c : Char) :
    (below earlier lines scanner).stepBare c = below earlier lines (scanner.stepBare c) := by
  rw [stepBare, stepBare]
  by_cases quote : c = '"'
  · rw [if_pos quote, if_pos quote, openString, flush_below]
    rfl
  · rw [if_neg quote, if_neg quote]
    by_cases lineBreak : c = '\n'
    · rw [if_pos lineBreak, if_pos lineBreak, flush_below, breakLine_below]
    · rw [if_neg lineBreak, if_neg lineBreak]
      by_cases blank : Text.isBlank c
      · rw [if_pos blank, if_pos blank, flush_below]
        rfl
      · rw [if_neg blank, if_neg blank]
        cases Token.Kind.ofPunctuation? c with
        | none => rfl
        | some kind =>
            dsimp only
            rw [flush_below]
            exact emit_below earlier lines scanner.flush.advance c.toString (some kind)

theorem step_below (c : Char) :
    (below earlier lines scanner).step c = below earlier lines (scanner.step c) := by
  have sameMode : (below earlier lines scanner).inString = scanner.inString := rfl
  rw [step, step, sameMode]
  cases scanner.inString with
  | true => exact stepInString_below earlier lines scanner c
  | false => exact stepBare_below earlier lines scanner c

theorem foldl_step_below (text : List Char) :
    text.foldl step (below earlier lines scanner) =
      below earlier lines (text.foldl step scanner) := by
  induction text generalizing scanner with
  | nil => rfl
  | cons c rest ih => rw [List.foldl_cons, List.foldl_cons, step_below, ih]

theorem finish_below : (below earlier lines scanner).finish =
    earlier.toList ++ scanner.finish.map (Lexeme.lower lines) := by
  have sameMode : (below earlier lines scanner).inString = scanner.inString := rfl
  have lexemes (final : Scanner) : (below earlier lines final).lexemes.toList =
      earlier.toList ++ final.lexemes.toList.map (Lexeme.lower lines) := by
    simp only [below, Array.toList_append, Array.toList_map]
  rw [finish, finish, sameMode]
  cases scanner.inString with
  | true => exact (congrArg (·.lexemes.toList) (closeString_below _ _ _)).trans (lexemes _)
  | false => exact (congrArg (·.lexemes.toList) (flush_below _ _ _)).trans (lexemes _)

/-- A line break ends what is pending, and the text behind it starts like any other. -/
theorem step_lineBreak {scanner : Scanner} (outside : scanner.inString = false) :
    scanner.step '\n' = below scanner.flush.lexemes scanner.line start := by
  have stepped : scanner.step '\n' = scanner.flush.breakLine := by
    rw [step, outside]
    rfl
  rw [stepped, breakLine, below]
  simp only [(place_flush scanner).1, pending_flush, inString_flush, outside, start, List.map_toArray,
    List.map_nil, Array.append_empty, Nat.add_comm]

end Scanner

/-- The tokens of a text, and behind a line break those of another text. -/
theorem Token.exists_scan_append {first : String} (second : String)
    (closed : ∀ token, (Token.scan first).getLast? = some token → token.kind ≠ .string) :
    ∃ lines, Token.scan (first ++ "\n" ++ second) =
      Token.scan first ++ (Token.scan second).map (Token.lower lines) := by
  generalize ended : first.toList.foldl Scanner.step Scanner.start = scanner
  have firstTokens : Token.scan first = scanner.finish.map Lexeme.classify := by
    rw [Token.scan, Lexeme.scan, ended]
  have outside : scanner.inString = false := by
    cases mode : scanner.inString with
    | false => rfl
    | true =>
        rw [firstTokens, Scanner.finish_of_inString mode, List.map_append,
          List.map_singleton] at closed
        exact absurd rfl (closed _ List.getLast?_concat)
  have finished := Scanner.finish_of_outside outside
  have characters : (first ++ "\n" ++ second).toList =
      first.toList ++ '\n' :: second.toList := by
    rw [String.toList_append, String.toList_append, List.append_assoc]
    rfl
  refine ⟨scanner.line, ?_⟩
  rw [firstTokens, Token.scan, Lexeme.scan, characters, List.foldl_append, List.foldl_cons, ended,
    Scanner.step_lineBreak outside, Scanner.foldl_step_below, Scanner.finish_below, ← finished,
    List.map_append, Token.scan, Lexeme.scan, List.map_map, List.map_map]
  rfl

end AudioMarkup
