import AudioMarkup.Proofs.Token.Conservation
import Mathlib.Data.List.Induction

/-!
Where the text of a token is found. The lines of a text are what stands between its line feeds, and
`Token.StandsIn` says that the text of a token is what its line has from its first column up to its
column. A literal may be broken over several lines, and then only its end stands in its line.
`Token.IsLiteral` tells which literal of the text that is, by the quotes before it.

The places of the tokens increase strictly, as each token ends behind all that was read for the
earlier ones.
-/

namespace AudioMarkup

/-! ### Lines -/

namespace Text

def line? (text : List Char) : Nat → Option (List Char)
  | 0 => none
  | row + 1 => (text.splitOn '\n')[row]?

def lastLine (text : List Char) : List Char := (text.reverse.takeWhile (· != '\n')).reverse

theorem place_eq (text : List Char) :
    place text = (text.count '\n' + 1, (lastLine text).length) := by
  rw [place, lastLine, List.length_reverse]

theorem lastLine_append_of_not_mem {written : List Char} (oneLine : '\n' ∉ written)
    (before : List Char) : lastLine (before ++ written) = lastLine before ++ written := by
  have kept : ∀ c ∈ written.reverse, (c != '\n') = true := by
    intro c member
    rw [bne_iff_ne]
    rintro rfl
    exact oneLine (List.mem_reverse.mp member)
  rw [lastLine, List.reverse_append, List.takeWhile_append_of_pos kept, List.reverse_append,
    List.reverse_reverse, lastLine]

theorem lastLine_append_of_mem {written : List Char} (broken : '\n' ∈ written)
    (before : List Char) : lastLine (before ++ written) = lastLine written := by
  have stops : (written.reverse.takeWhile (· != '\n')).length ≠ written.reverse.length := by
    intro whole
    have all : written.reverse.all (· != '\n') = true := by
      rw [← (List.takeWhile_prefix _).eq_of_length whole]
      exact List.all_takeWhile
    have impossible := List.all_eq_true.mp all '\n' (List.mem_reverse.mpr broken)
    cases impossible
  rw [lastLine, List.reverse_append, List.takeWhile_append, if_neg stops, lastLine]

private theorem head?_splitOn (text : List Char) :
    (text.splitOn '\n')[0]? = some (text.takeWhile (· != '\n')) := by
  induction text with
  | nil => rfl
  | cons c rest ih =>
      rw [List.splitOn_cons_eq_if_modifyHead]
      by_cases feed : c = '\n'
      · rw [feed]
        rfl
      · have goesOn : (c :: rest).takeWhile (· != '\n') = c :: rest.takeWhile (· != '\n') :=
          List.takeWhile_cons_of_pos (bne_iff_ne.mpr feed)
        rw [if_neg (by simpa using feed), List.getElem?_modifyHead_zero, ih, Option.map_some,
          goesOn]

/-- The line in which a text ends goes on up to the next line feed. -/
theorem getElem?_splitOn_append (front back : List Char) :
    ((front ++ back).splitOn '\n')[front.count '\n']? =
      some (lastLine front ++ back.takeWhile (· != '\n')) := by
  induction front with
  | nil => exact head?_splitOn back
  | cons c rest ih =>
      rw [List.cons_append, List.splitOn_cons_eq_if_modifyHead]
      by_cases feed : c = '\n'
      · subst feed
        have same : lastLine ('\n' :: rest) = lastLine rest := by
          by_cases broken : '\n' ∈ rest
          · exact lastLine_append_of_mem broken ['\n']
          · rw [← List.singleton_append, lastLine_append_of_not_mem broken,
              ← List.nil_append rest, lastLine_append_of_not_mem broken]
            rfl
        rw [if_pos (beq_self_eq_true _), List.count_cons_self, List.getElem?_cons_succ, ih, same]
      · rw [if_neg (by simpa using feed), List.count_cons_of_ne feed, List.getElem?_modifyHead, ih]
        by_cases broken : '\n' ∈ rest
        · have later : rest.count '\n' ≠ 0 := Nat.ne_of_gt (List.count_pos_iff.mpr broken)
          rw [if_neg later, ← List.singleton_append (l := rest), lastLine_append_of_mem broken]
        · have first : rest.count '\n' = 0 := List.count_eq_zero.mpr broken
          have own : lastLine rest = rest := lastLine_append_of_not_mem broken []
          have longer : lastLine (c :: rest) = c :: rest :=
            lastLine_append_of_not_mem (by simpa [Ne.symm feed] using broken) []
          rw [if_pos first, Option.map_some, own, longer, List.cons_append]

theorem line?_of_place (before after : List Char) :
    line? (before ++ after) (place before).1 =
      some (lastLine before ++ after.takeWhile (· != '\n')) := by
  rw [place_eq]
  exact getElem?_splitOn_append before after

/-- More text ends at a later place. -/
theorem place_lt_append {more : List Char} (nonempty : more ≠ []) (before : List Char) :
    Prod.Lex (· < ·) (· < ·) (place before) (place (before ++ more)) := by
  rw [Prod.lex_def]
  by_cases broken : '\n' ∈ more
  · exact .inl (line_lt_of_newline_mem broken before)
  · have length : 0 < more.length := List.length_pos_iff.mpr nonempty
    rw [place_append broken]
    refine .inr ⟨rfl, ?_⟩
    omega

end Text

/-! ### Tokens in their lines -/

/-- The line of the token has its text from the first column up to the column. The first column is
not cut off at zero. -/
structure Token.StandsIn (source : List Char) (token : Token) : Prop where
  whole : token.startColumn + token.text.length = token.column
  found : ∃ line, Text.line? source token.line = some line ∧ token.column ≤ line.length ∧
    line.extract token.startColumn token.column = token.text.toList

/-- The token is the literal behind the given text. No other literal is open there, and what is
written goes up to the next quote or to the end of the text, where the token has its place. -/
structure Token.IsLiteral (source : List Char) (token : Token) (front written : List Char) :
    Prop where
  outside : Text.endsQuoted front = false
  unquoted : '"' ∉ written
  enclosed : ∃ after, source = front ++ '"' :: (written ++ after) ∧ ∀ c ∈ after.head?, c = '"'
  text : token.text.toList = written.filter (· != '\n')
  placed : (token.line, token.column) = Text.place (front ++ '"' :: written)

namespace Token

variable {source before written after : List Char} {token : Token}

/-- The line in which a token ends begins with the end of what is written for it. -/
theorem line?_of_placed (split : source = before ++ after)
    (placed : (token.line, token.column) = Text.place before) :
    ∃ line, Text.line? source token.line = some line ∧ token.column ≤ line.length ∧
      line.take token.column = Text.lastLine before := by
  have line : token.line = (Text.place before).1 := congrArg Prod.fst placed
  have column : token.column = (Text.lastLine before).length := by
    rw [Text.place_eq] at placed
    exact congrArg Prod.snd placed
  refine ⟨Text.lastLine before ++ after.takeWhile (· != '\n'), ?_, ?_, ?_⟩
  · rw [split, line, Text.line?_of_place]
  · rw [column, List.length_append]
    exact Nat.le_add_right ..
  · rw [column, List.take_left]

theorem standsIn_of_placed (split : source = before ++ (token.text.toList ++ after))
    (oneLine : '\n' ∉ token.text.toList)
    (placed : (token.line, token.column) = Text.place (before ++ token.text.toList)) :
    token.StandsIn source := by
  rw [← List.append_assoc] at split
  obtain ⟨line, found, within, starts⟩ := line?_of_placed split placed
  rw [Text.lastLine_append_of_not_mem oneLine] at starts
  have length : token.text.toList.length = token.text.length := String.length_toList
  have column : token.column = (Text.lastLine before).length + token.text.length := by
    rw [← length, ← List.length_append, ← starts, List.length_take, Nat.min_eq_left within]
  have first : token.startColumn = (Text.lastLine before).length := by
    rw [startColumn, column, Nat.add_sub_cancel]
  refine ⟨by rw [first, column], line, found, within, ?_⟩
  rw [List.extract_eq_take_drop, ← List.drop_take, starts, first, List.drop_left]

theorem IsLiteral.standsIn (literal : token.IsLiteral source before written)
    (oneLine : '\n' ∉ written) : token.StandsIn source := by
  have text : token.text.toList = written := by
    rw [literal.text, List.filter_eq_self]
    intro c member
    rw [bne_iff_ne]
    rintro rfl
    exact oneLine member
  obtain ⟨after, split, _⟩ := literal.enclosed
  have placed := literal.placed
  rw [← List.singleton_append, ← List.append_assoc] at split
  rw [← List.singleton_append, ← List.append_assoc, ← text] at placed
  exact standsIn_of_placed (by rw [text, split]) (by rwa [text]) placed

/-- Of a literal that is broken over several lines, the line of the token has the last part. -/
theorem IsLiteral.line? (literal : token.IsLiteral source before written)
    (broken : '\n' ∈ written) :
    ∃ line, Text.line? source token.line = some line ∧ token.column ≤ line.length ∧
      line.take token.column = Text.lastLine written := by
  obtain ⟨after, split, _⟩ := literal.enclosed
  have whole : source = (before ++ '"' :: written) ++ after := by
    rw [split, List.append_assoc, List.cons_append]
  obtain ⟨line, found, within, starts⟩ := line?_of_placed whole literal.placed
  refine ⟨line, found, within, starts.trans ?_⟩
  rw [← List.singleton_append, ← List.append_assoc]
  exact Text.lastLine_append_of_mem broken _

end Token

/-! ### Literals of a text -/

namespace Scanner

variable {scanner : Scanner} {lexeme : Lexeme}

private theorem mem_of_mem_flush (member : lexeme ∈ scanner.flush.lexemes.toList)
    (string : lexeme.classify.kind = .string) : lexeme ∈ scanner.lexemes.toList := by
  unfold flush at member
  split at member
  · exact member
  · rw [emit, Array.toList_push, List.mem_append, List.mem_singleton] at member
    rcases member with earlier | rfl
    · exact earlier
    · exact absurd string (ofText_ne_string _)

/-- A new string is completed only by the quote that closes it. -/
private theorem mem_or_closed_of_mem_step {c : Char}
    (member : lexeme ∈ (scanner.step c).lexemes.toList)
    (string : lexeme.classify.kind = .string) :
    lexeme ∈ scanner.lexemes.toList ∨ scanner.inString = true ∧ c = '"' ∧
      lexeme = ⟨scanner.line, scanner.column, scanner.pending, some .string⟩ := by
  have how := scanner.stepped c
  generalize scanner.step c = next at how member
  cases how with
  | opened _ _ => exact .inl (mem_of_mem_flush member string)
  | broken _ _ => exact .inl (mem_of_mem_flush member string)
  | blank _ _ _ _ => exact .inl (mem_of_mem_flush member string)
  | mark _ found =>
      rw [emit, Array.toList_push, List.mem_append, List.mem_singleton] at member
      rcases member with earlier | rfl
      · exact .inl (mem_of_mem_flush earlier string)
      · exact absurd string ((punctuation_facts found).2.2.2 .string (by decide))
  | bare _ _ => exact .inl member
  | closed inside quote =>
      rw [advance, closeString, emit, Array.toList_push, List.mem_append,
        List.mem_singleton] at member
      rcases member with earlier | rfl
      · exact .inl earlier
      · exact .inr ⟨inside, quote, rfl⟩
  | dropped _ _ => exact .inl member
  | quoted _ _ => exact .inl member

/-- The string under way is a literal if it ends here. An odd number of quotes has been read, and
the last of them has opened it. -/
private theorem isLiteral_of_inString {read : List Char} (reached : read.foldl step start = scanner)
    (inside : scanner.inString = true) {after : List Char} (ends : ∀ c ∈ after.head?, c = '"') :
    ∃ front written, (Lexeme.classify
      ⟨scanner.line, scanner.column, scanner.pending, some .string⟩).IsLiteral (read ++ after)
      front written := by
  have traces := traces_start.foldl read
  have accounts := accounts_start.foldl read
  rw [List.nil_append, reached] at traces accounts
  obtain ⟨front, written, split, unquoted, text, _⟩ := traces.quoted inside
  have counted : read.count '"' = front.count '"' + 1 := by
    rw [split, List.count_append, List.count_cons_self, List.count_eq_zero.mpr unquoted]
  have odd : Text.endsQuoted read = true := accounts.mode.symm.trans inside
  have outside : Text.endsQuoted front = false := by
    rw [Text.endsQuoted, counted, decide_eq_true_eq] at odd
    rw [Text.endsQuoted, decide_eq_false_iff_not]
    omega
  refine ⟨front, written, outside, unquoted, ⟨after, ?_, ends⟩, text, ?_⟩
  · rw [split, List.append_assoc, List.cons_append]
  · rw [← split]
    exact traces.place

private theorem isLiteral_of_mem (read : List Char) :
    ∀ lexeme ∈ (read.foldl step start).lexemes.toList, lexeme.classify.kind = .string →
      ∀ more, ∃ front written, lexeme.classify.IsLiteral (read ++ more) front written := by
  -- A literal stays one whatever is read behind the quote that has closed it.
  induction read using List.reverseRecOn with
  | nil =>
      intro lexeme member
      cases member
  | append_singleton read c ih =>
      intro lexeme member string more
      rw [List.foldl_append] at member
      rw [List.append_assoc]
      rcases mem_or_closed_of_mem_step member string with earlier | ⟨inside, quote, rfl⟩
      · exact ih lexeme earlier string ([c] ++ more)
      · refine isLiteral_of_inString rfl inside fun first found => ?_
        cases found
        exact quote

theorem isLiteral_of_mem_finish (read : List Char) {lexeme : Lexeme}
    (member : lexeme ∈ (read.foldl step start).finish)
    (string : lexeme.classify.kind = .string) :
    ∃ front written, lexeme.classify.IsLiteral read front written := by
  have complete := isLiteral_of_mem read
  generalize reached : read.foldl step start = scanner at member complete
  rw [← List.append_nil read]
  cases mode : scanner.inString with
  | false =>
      rw [finish_of_outside mode] at member
      exact complete lexeme (mem_of_mem_flush member string) string []
  | true =>
      rw [finish_of_inString mode, List.mem_append, List.mem_singleton] at member
      rcases member with earlier | rfl
      · exact complete lexeme earlier string []
      · exact isLiteral_of_inString reached mode (by simp)

end Scanner

/-! ### The order of tokens -/

/-- Only a literal can be empty. -/
theorem Word.WellFormed.text_ne_nil {word : Word} (wellFormed : word.WellFormed)
    (notString : word.kind ≠ .string) : word.text.toList ≠ [] := by
  cases wellFormed with
  | @punctuation mark kind _ =>
      have character : mark.toString.toList = [mark] := String.toList_singleton mark
      rw [character]
      exact List.cons_ne_nil _ _
  | quoted _ => exact absurd rfl notString
  | @bare text bare =>
      rw [Text.isBare, Bool.and_eq_true, Bool.not_eq_true', ← Bool.not_eq_true,
        String.isEmpty_iff] at bare
      intro empty
      exact bare.1 (String.toList_eq_nil_iff.mp empty)

namespace Token

theorem Cut.exists_append {source before written : List Char} {earlier : List Token}
    {token : Token} (cut : token.Cut source earlier before written) :
    ∃ after, source = before ++ written ++ after := by
  cases cut with
  | @plain _ after _ same _ => exact ⟨after, by rw [same, List.append_assoc]⟩
  | @quoted front _ after _ same _ _ _ _ =>
      refine ⟨after, ?_⟩
      rw [same, List.append_assoc, List.append_assoc, List.singleton_append]

/-- What a token is cut out behind has all earlier tokens. -/
theorem Cut.exists_front {source before written : List Char} {earlier : List Token}
    {token : Token} (cut : token.Cut source earlier before written)
    (wellFormed : token.word.WellFormed) :
    ∃ front more, before ++ written = front ++ more ∧ more ≠ [] ∧
      scan (String.ofList front) = earlier := by
  cases cut with
  | plain notString _ scanned =>
      exact ⟨before, _, rfl, wellFormed.text_ne_nil notString, scanned⟩
  | @quoted front _ _ _ _ _ _ _ scanned =>
      refine ⟨front, '"' :: written, ?_, List.cons_ne_nil _ _, scanned⟩
      rw [List.append_assoc, List.singleton_append]

/-- An earlier token is one of the text that a later one is cut out behind, and ends in it. -/
theorem places_increase (source : String) :
    (scan source).Pairwise fun earlier later =>
      Prod.Lex (· < ·) (· < ·) (earlier.line, earlier.column) (later.line, later.column) := by
  rw [List.pairwise_iff_getElem]
  intro index laterIndex within laterWithin before
  obtain ⟨_, _, laterCut, laterPlaced⟩ := exists_cut (List.getElem?_eq_getElem laterWithin)
  obtain ⟨front, more, ends, nonempty, scanned⟩ :=
    laterCut.exists_front (wellFormed_of_mem_scan (List.getElem_mem laterWithin))
  have found : (scan (String.ofList front))[index]? = some (scan source)[index] := by
    rw [scanned, List.getElem?_take_of_lt before, List.getElem?_eq_getElem within]
  obtain ⟨start, written, cut, placed⟩ := exists_cut found
  obtain ⟨after, split⟩ := cut.exists_append
  rw [String.toList_ofList] at split
  rw [placed, laterPlaced, ends, split, List.append_assoc]
  exact Text.place_lt_append (by simp [nonempty]) _

/-- The text of a token is found in its line, up to its column. Of a literal that is broken over
several lines, the line in which it ends has the last part, up to the column of the token. Each
token has a later place than those before it. -/
theorem scan_locates_tokens (source : String) :
    (∀ token ∈ scan source, token.kind ≠ .string → token.StandsIn source.toList) ∧
    (∀ token ∈ scan source, token.kind = .string →
      ∃ front written, token.IsLiteral source.toList front written ∧
        ('\n' ∉ written → token.StandsIn source.toList) ∧
        ('\n' ∈ written → ∃ line, Text.line? source.toList token.line = some line ∧
          token.column ≤ line.length ∧ line.take token.column = Text.lastLine written)) ∧
    (scan source).Pairwise fun earlier later =>
      Prod.Lex (· < ·) (· < ·) (earlier.line, earlier.column) (later.line, later.column) := by
  refine ⟨fun token member notString => ?_, fun token member string => ?_, places_increase source⟩
  · obtain ⟨index, found⟩ := List.getElem?_of_mem member
    obtain ⟨before, written, cut, placed⟩ := exists_cut found
    cases cut with
    | plain _ split _ =>
        exact standsIn_of_placed split (wellFormed_of_mem_scan member).newline_not_mem placed
    | quoted string _ _ _ _ _ => exact absurd string notString
  · obtain ⟨lexeme, scanned, rfl⟩ := List.mem_map.mp member
    obtain ⟨front, written, literal⟩ :=
      Scanner.isLiteral_of_mem_finish source.toList scanned string
    exact ⟨front, written, literal, literal.standsIn, literal.line?⟩

/-- The literal between the two names ends on the second line. -/
theorem scan_locates_tokens_of_broken_literal :
    ((⟨2, 4, "d", .name⟩ : Token) ∈ scan "a\"b\nc\" d" ∧
      (⟨2, 4, "d", .name⟩ : Token).StandsIn "a\"b\nc\" d".toList) ∧
    ∃ front written line,
      (⟨2, 1, "bc", .string⟩ : Token).IsLiteral "a\"b\nc\" d".toList front written ∧
      '\n' ∈ written ∧ Text.line? "a\"b\nc\" d".toList 2 = some line ∧
      line.take 1 = Text.lastLine written := by
  have named : (⟨2, 4, "d", .name⟩ : Token) ∈ scan "a\"b\nc\" d" := by decide
  have string : (⟨2, 1, "bc", .string⟩ : Token) ∈ scan "a\"b\nc\" d" := by decide
  obtain ⟨plain, quoted, _⟩ := scan_locates_tokens "a\"b\nc\" d"
  obtain ⟨front, written, literal, whole, lastPart⟩ := quoted _ string rfl
  have broken : '\n' ∈ written := by
    by_contra oneLine
    exact absurd (whole oneLine).whole (by decide)
  obtain ⟨line, found, _, ends⟩ := lastPart broken
  exact ⟨⟨named, plain _ named (by decide)⟩, front, written, line, literal, broken, found, ends⟩

end Token

end AudioMarkup
