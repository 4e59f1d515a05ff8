import AudioMarkup.Proofs.Token.Words

/-!
Where the tokens of a text stand. `Text.place` is the line and the column behind a text, counted
without a scanner; `Token.Cut` says that a token is cut out of a text behind some characters: these
have the earlier tokens, and what is written next is the text of the token, or a literal in quotes
that has this text up to its line feeds.

`Scanner.Traces` holds of a scanner and the characters that it has read. Main statement: each token
of a text is cut out of it, and its line and column are the place behind what is written.
-/

namespace AudioMarkup

namespace Text

/-- The line and the column behind a text. Lines start at one, columns at zero. -/
def place (before : List Char) : Nat × Nat :=
  (before.count '\n' + 1, (before.reverse.takeWhile (· != '\n')).length)

theorem place_append_newline (before : List Char) :
    place (before ++ ['\n']) = ((place before).1 + 1, 0) := by
  rw [place, List.count_append, List.reverse_append]
  rfl

theorem place_append_singleton {c : Char} (sameLine : c ≠ '\n') (before : List Char) :
    place (before ++ [c]) = ((place before).1, (place before).2 + 1) := by
  have notCounted : [c].count '\n' = 0 := List.count_eq_zero.mpr (by simpa using sameLine.symm)
  rw [place, List.count_append, notCounted, List.reverse_append, List.reverse_singleton,
    List.singleton_append, List.takeWhile_cons, if_pos (bne_iff_ne.mpr sameLine), List.length_cons]
  rfl

theorem place_append {written : List Char} (oneLine : '\n' ∉ written) (before : List Char) :
    place (before ++ written) = ((place before).1, (place before).2 + written.length) := by
  induction written generalizing before with
  | nil => rw [List.append_nil, List.length_nil, Nat.add_zero]
  | cons c rest ih =>
      have sameLine : c ≠ '\n' := fun same => oneLine (same ▸ List.mem_cons_self ..)
      have split : before ++ c :: rest = (before ++ [c]) ++ rest := by
        rw [List.append_assoc, List.singleton_append]
      rw [split, ih (fun member => oneLine (List.mem_cons_of_mem _ member)),
        place_append_singleton sameLine, List.length_cons]
      simp only [Prod.mk.injEq, true_and]
      omega

theorem line_lt_of_newline_mem {written : List Char} (broken : '\n' ∈ written)
    (before : List Char) : (place before).1 < (place (before ++ written)).1 := by
  have counted : 0 < written.count '\n' := List.count_pos_iff.mpr broken
  rw [place, place, List.count_append]
  dsimp only
  omega

end Text

/-! ### Tokens that are cut out of a text -/

/-- The token stands in the text behind the earlier tokens. The indices are the characters before
it, with the opening quote of a literal, and those that are written for it. A literal goes up to the
next quote or to the end of the text. -/
inductive Token.Cut (source : List Char) (earlier : List Token) (token : Token) :
    List Char → List Char → Prop where
  | plain {before after : List Char} :
      token.kind ≠ .string → source = before ++ (token.text.toList ++ after) →
      Token.scan (String.ofList before) = earlier →
      Cut source earlier token before token.text.toList
  | quoted {front written after : List Char} :
      token.kind = .string → source = front ++ '"' :: (written ++ after) → '"' ∉ written →
      (∀ c ∈ after.head?, c = '"') → token.text.toList = written.filter (· != '\n') →
      Token.scan (String.ofList front) = earlier →
      Cut source earlier token (front ++ ['"']) written

namespace Token.Cut

variable {source before written : List Char} {earlier : List Token} {token : Token}

/-- A literal at the end of a text may become longer with the text. -/
theorem append (cut : token.Cut source earlier before written)
    (closed : token.kind = .string → (before ++ written).length < source.length)
    (more : List Char) : token.Cut (source ++ more) earlier before written := by
  cases cut with
  | @plain _ after notString same scanned =>
      have grown : source ++ more = before ++ (token.text.toList ++ (after ++ more)) := by
        rw [same, List.append_assoc, List.append_assoc]
      exact .plain notString grown scanned
  | @quoted front _ after string same noQuote ends text scanned =>
      have grown : source ++ more = front ++ '"' :: (written ++ (after ++ more)) := by
        rw [same, List.append_assoc, List.cons_append, List.append_assoc]
      refine .quoted string grown noQuote (fun c next => ?_) text scanned
      cases after with
      | nil =>
          have short := closed string
          rw [same] at short
          simp at short
      | cons first rest => exact ends c next

theorem text_eq (cut : token.Cut source earlier before written) (oneLine : '\n' ∉ written) :
    token.text.toList = written := by
  cases cut with
  | plain _ _ _ => rfl
  | quoted _ _ _ _ text _ =>
      rw [text, List.filter_eq_self]
      intro c member
      rw [bne_iff_ne]
      rintro rfl
      exact oneLine member

/-- The column of the start is computed from the end, which is right on one line only. -/
theorem place_eq_iff (cut : token.Cut source earlier before written)
    (placed : (token.line, token.column) = Text.place (before ++ written)) :
    (token.line, token.startColumn) = Text.place before ↔ '\n' ∉ written := by
  constructor
  · intro start broken
    have later := Text.line_lt_of_newline_mem broken before
    rw [← placed, ← start] at later
    exact Nat.lt_irrefl _ later
  · intro oneLine
    have length : token.text.length = written.length := by
      rw [← cut.text_eq oneLine, String.length_toList]
    rw [Text.place_append oneLine, Prod.mk.injEq] at placed
    rw [Token.startColumn, placed.1, placed.2, length, Nat.add_sub_cancel]

end Token.Cut

/-! ### What a scanner has read -/

namespace Scanner

def Places (read : List Char) (lexemes : List Lexeme) : Prop :=
  ∀ (index : Nat) (lexeme : Lexeme), lexemes[index]? = some lexeme →
    ∃ before written,
      lexeme.classify.Cut read ((lexemes.take index).map Lexeme.classify) before written ∧
      (lexeme.line, lexeme.column) = Text.place (before ++ written) ∧
      (lexeme.classify.kind = .string → (before ++ written).length < read.length)

variable {read : List Char} {lexemes : List Lexeme} {lexeme : Lexeme}

theorem Places.append (places : Places read lexemes) (more : List Char) :
    Places (read ++ more) lexemes := by
  intro index lexeme found
  obtain ⟨before, written, cut, placed, closed⟩ := places index lexeme found
  refine ⟨before, written, cut.append closed more, placed, fun string => ?_⟩
  have shorter := closed string
  have total : (read ++ more).length = read.length + more.length := List.length_append
  omega

theorem Places.concat (places : Places read lexemes) {before written : List Char}
    (cut : lexeme.classify.Cut read (lexemes.map Lexeme.classify) before written)
    (placed : (lexeme.line, lexeme.column) = Text.place (before ++ written))
    (closed : lexeme.classify.kind = .string → (before ++ written).length < read.length) :
    Places read (lexemes ++ [lexeme]) := by
  intro index other found
  rcases Nat.lt_trichotomy index lexemes.length with within | rfl | beyond
  · rw [List.getElem?_append_left within] at found
    rw [List.take_append_of_le_length (Nat.le_of_lt within)]
    exact places index other found
  · rw [List.getElem?_concat_length] at found
    cases found
    rw [List.take_left]
    exact ⟨before, written, cut, placed, closed⟩
  · have none : (lexemes ++ [lexeme])[index]? = none := by
      rw [List.getElem?_eq_none_iff, List.length_append, List.length_singleton]
      exact beyond
    rw [none] at found
    cases found

structure Traces (read : List Char) (scanner : Scanner) : Prop where
  reached : read.foldl step start = scanner
  place : (scanner.line, scanner.column) = Text.place read
  lexemes : Places read scanner.lexemes.toList
  bare : scanner.inString = false → ∃ before, read = before ++ scanner.pending.toList ∧
    Token.scan (String.ofList before) = scanner.lexemes.toList.map Lexeme.classify
  quoted : scanner.inString = true → ∃ front written, read = front ++ '"' :: written ∧
    '"' ∉ written ∧ scanner.pending.toList = written.filter (· != '\n') ∧
    Token.scan (String.ofList front) = scanner.lexemes.toList.map Lexeme.classify

variable {scanner : Scanner}

theorem scan_of_reached (reached : read.foldl step start = scanner) :
    Token.scan (String.ofList read) = scanner.finish.map Lexeme.classify := by
  rw [Token.scan, Lexeme.scan, String.toList_ofList, reached]

/-- With nothing pending, the tokens of what was read are complete. -/
private theorem traces_of_settled (reached : read.foldl step start = scanner)
    (place : (scanner.line, scanner.column) = Text.place read)
    (lexemes : Places read scanner.lexemes.toList) (outside : scanner.inString = false)
    (settled : scanner.pending = "") : Traces read scanner := by
  refine ⟨reached, place, lexemes, fun _ => ⟨read, ?_, ?_⟩, fun inside => ?_⟩
  · rw [settled]
    exact (List.append_nil read).symm
  · rw [scan_of_reached reached, finish_of_outside outside, flush_of_pending settled]
  · rw [outside] at inside
    cases inside

theorem traces_start : Traces [] start := by
  refine traces_of_settled rfl rfl (fun index lexeme found => ?_) rfl rfl
  cases found

private theorem Traces.reached_step (traces : Traces read scanner) (c : Char) :
    (read ++ [c]).foldl step start = scanner.step c := by
  rw [List.foldl_append, traces.reached]
  rfl

private theorem Traces.places_flush (traces : Traces read scanner)
    (outside : scanner.inString = false) : Places read scanner.flush.lexemes.toList := by
  unfold flush
  split
  · exact traces.lexemes
  · obtain ⟨before, same, scanned⟩ := traces.bare outside
    rw [emit, Array.toList_push]
    have atEnd : read = before ++ (scanner.pending.toList ++ []) := by
      rw [List.append_nil]
      exact same
    have cut : Token.Cut read (scanner.lexemes.toList.map Lexeme.classify)
        (Lexeme.classify ⟨scanner.line, scanner.column, scanner.pending, none⟩) before
        scanner.pending.toList :=
      .plain (ofText_ne_string _) atEnd scanned
    refine traces.lexemes.concat cut ?_ fun string => absurd string (ofText_ne_string _)
    rw [traces.place, same]

private theorem Traces.scan_eq_flush (traces : Traces read scanner)
    (outside : scanner.inString = false) :
    Token.scan (String.ofList read) = scanner.flush.lexemes.toList.map Lexeme.classify := by
  rw [scan_of_reached traces.reached, finish_of_outside outside]

private theorem Traces.place_step (traces : Traces read scanner) {c : Char} (sameLine : c ≠ '\n') :
    (scanner.line, scanner.column + 1) = Text.place (read ++ [c]) := by
  rw [Text.place_append_singleton sameLine, ← traces.place]

private theorem Traces.place_break (traces : Traces read scanner) :
    (scanner.line + 1, 0) = Text.place (read ++ ['\n']) := by
  rw [Text.place_append_newline, ← traces.place]

private theorem Traces.openString (traces : Traces read scanner)
    (outside : scanner.inString = false)
    (reached : (read ++ ['"']).foldl step start = scanner.openString) :
    Traces (read ++ ['"']) scanner.openString := by
  refine ⟨reached, ?_, (traces.places_flush outside).append ['"'],
    (fun impossible => by cases impossible), fun _ => ?_⟩
  · rw [Scanner.openString, advance, (place_flush scanner).1, (place_flush scanner).2]
    exact traces.place_step (by decide)
  · refine ⟨read, [], rfl, List.not_mem_nil, ?_, traces.scan_eq_flush outside⟩
    rw [Scanner.openString, advance, pending_flush]
    rfl

private theorem Traces.punctuation (traces : Traces read scanner)
    (outside : scanner.inString = false) {c : Char} {kind : Token.Kind}
    (found : Token.Kind.ofPunctuation? c = some kind)
    (reached : (read ++ [c]).foldl step start =
      scanner.flush.advance.emit c.toString (some kind)) :
    Traces (read ++ [c]) (scanner.flush.advance.emit c.toString (some kind)) := by
  obtain ⟨_, sameLine, _, otherKinds⟩ := punctuation_facts found
  have notString : kind ≠ .string := otherKinds .string (List.mem_cons_self ..)
  have place : (scanner.flush.line, scanner.flush.column + 1) = Text.place (read ++ [c]) := by
    rw [(place_flush scanner).1, (place_flush scanner).2]
    exact traces.place_step sameLine
  have character : c.toString.toList = [c] := String.toList_singleton c
  have places := (traces.places_flush outside).append [c]
  have cut : Token.Cut (read ++ [c]) (scanner.flush.lexemes.toList.map Lexeme.classify)
      (Lexeme.classify ⟨scanner.flush.line, scanner.flush.column + 1, c.toString, some kind⟩) read
      c.toString.toList := by
    have atEnd : read ++ [c] = read ++ (c.toString.toList ++ []) := by
      rw [character, List.append_nil]
    exact .plain notString atEnd (traces.scan_eq_flush outside)
  apply traces_of_settled reached place
  · rw [emit, Array.toList_push]
    refine places.concat cut ?_ fun string => absurd string notString
    rw [character]
    exact place
  · exact (inString_flush scanner).trans outside
  · exact pending_flush scanner

private theorem Traces.collect (traces : Traces read scanner) {c : Char}
    (sameLine : c ≠ '\n') (notQuote : c ≠ '"')
    (reached : (read ++ [c]).foldl step start = scanner.collect c) :
    Traces (read ++ [c]) (scanner.collect c) := by
  refine ⟨reached, traces.place_step sameLine, traces.lexemes.append [c], fun outside => ?_,
    fun inside => ?_⟩
  · obtain ⟨before, same, scanned⟩ := traces.bare outside
    refine ⟨before, ?_, scanned⟩
    rw [Scanner.collect, String.toList_push, ← List.append_assoc, ← same]
  · obtain ⟨front, written, same, noQuote, text, scanned⟩ := traces.quoted inside
    refine ⟨front, written ++ [c], ?_, ?_, ?_, scanned⟩
    · rw [same, List.append_assoc, List.cons_append]
    · rw [List.mem_append, List.mem_singleton, not_or]
      exact ⟨noQuote, notQuote.symm⟩
    · have kept : [c].filter (· != '\n') = [c] :=
        List.filter_cons_of_pos (bne_iff_ne.mpr sameLine)
      rw [Scanner.collect, String.toList_push, text, List.filter_append, kept]

private theorem Traces.closing (traces : Traces read scanner) (inside : scanner.inString = true)
    (after : List Char) (ends : ∀ c ∈ after.head?, c = '"') :
    ∃ front written, (read = front ++ '"' :: written) ∧
      Token.Cut (read ++ after) (scanner.lexemes.toList.map Lexeme.classify)
        (Lexeme.classify ⟨scanner.line, scanner.column, scanner.pending, some .string⟩)
        (front ++ ['"']) written ∧
      (scanner.line, scanner.column) = Text.place (front ++ ['"'] ++ written) := by
  obtain ⟨front, written, same, noQuote, text, scanned⟩ := traces.quoted inside
  have whole : read ++ after = front ++ '"' :: (written ++ after) := by
    rw [same, List.append_assoc, List.cons_append]
  refine ⟨front, written, same, .quoted rfl whole noQuote ends text scanned, ?_⟩
  rw [traces.place, same, List.append_assoc, List.singleton_append]

private theorem Traces.closeString (traces : Traces read scanner)
    (inside : scanner.inString = true)
    (reached : (read ++ ['"']).foldl step start = scanner.closeString.advance) :
    Traces (read ++ ['"']) scanner.closeString.advance := by
  obtain ⟨front, written, same, cut, placed⟩ := traces.closing inside ['"'] (by simp)
  refine traces_of_settled reached (traces.place_step (by decide)) ?_ rfl rfl
  have pushed : scanner.closeString.advance.lexemes.toList = scanner.lexemes.toList ++
      [⟨scanner.line, scanner.column, scanner.pending, some .string⟩] := Array.toList_push
  rw [pushed]
  refine (traces.lexemes.append ['"']).concat cut placed fun _ => ?_
  simp [same]

/-- A line feed in a string is dropped. -/
private theorem Traces.breakString (traces : Traces read scanner)
    (inside : scanner.inString = true)
    (reached : (read ++ ['\n']).foldl step start = scanner.breakLine) :
    Traces (read ++ ['\n']) scanner.breakLine := by
  refine ⟨reached, traces.place_break, traces.lexemes.append ['\n'], fun outside => ?_,
    fun _ => ?_⟩
  · rw [breakLine, inside] at outside
    cases outside
  · obtain ⟨front, written, same, noQuote, text, scanned⟩ := traces.quoted inside
    have dropped : (written ++ ['\n']).filter (· != '\n') = written.filter (· != '\n') := by
      rw [List.filter_append]
      exact List.append_nil _
    refine ⟨front, written ++ ['\n'], ?_, ?_, text.trans dropped.symm, scanned⟩
    · rw [same, List.append_assoc, List.cons_append]
    · rw [List.mem_append, List.mem_singleton, not_or]
      exact ⟨noQuote, by decide⟩

theorem Traces.step (traces : Traces read scanner) (c : Char) :
    Traces (read ++ [c]) (scanner.step c) := by
  have reached := traces.reached_step c
  have how := scanner.stepped c
  obtain ⟨sameLine, sameColumn⟩ := place_flush scanner
  generalize scanner.step c = next at how reached ⊢
  cases how with
  | opened outside quote =>
      subst quote
      exact traces.openString outside reached
  | broken outside feed =>
      subst feed
      refine traces_of_settled reached ?_ ((traces.places_flush outside).append ['\n'])
        ((inString_flush scanner).trans outside) (pending_flush scanner)
      rw [breakLine, sameLine]
      exact traces.place_break
  | blank outside _ notFeed _ =>
      refine traces_of_settled reached ?_ ((traces.places_flush outside).append [c])
        ((inString_flush scanner).trans outside) (pending_flush scanner)
      rw [advance, sameLine, sameColumn]
      exact traces.place_step notFeed
  | mark outside found => exact traces.punctuation outside found reached
  | bare _ isBare =>
      obtain ⟨notQuote, notFeed, _⟩ := bareChar_facts isBare
      exact traces.collect notFeed notQuote reached
  | closed inside quote =>
      subst quote
      exact traces.closeString inside reached
  | dropped inside feed =>
      subst feed
      exact traces.breakString inside reached
  | quoted _ quotable =>
      simp only [Text.isQuotable, Bool.and_eq_true, bne_iff_ne] at quotable
      exact traces.collect quotable.2 quotable.1 reached

theorem Traces.foldl (traces : Traces read scanner) (text : List Char) :
    Traces (read ++ text) (text.foldl Scanner.step scanner) := by
  induction text generalizing read scanner with
  | nil =>
      rw [List.append_nil]
      exact traces
  | cons c rest ih =>
      have stepped := ih (traces.step c)
      rw [List.append_assoc, List.singleton_append] at stepped
      exact stepped

/-- At the end of a text, a literal that is still open is complete as well. -/
theorem Traces.finish (traces : Traces read scanner) {index : Nat} {lexeme : Lexeme}
    (found : scanner.finish[index]? = some lexeme) :
    ∃ before written,
      lexeme.classify.Cut read ((scanner.finish.take index).map Lexeme.classify) before written ∧
      (lexeme.line, lexeme.column) = Text.place (before ++ written) := by
  cases mode : scanner.inString with
  | false =>
      rw [finish_of_outside mode] at found ⊢
      obtain ⟨before, written, cut, placed, _⟩ := traces.places_flush mode index lexeme found
      exact ⟨before, written, cut, placed⟩
  | true =>
      rw [finish_of_inString mode] at found ⊢
      by_cases within : index < scanner.lexemes.toList.length
      · rw [List.getElem?_append_left within] at found
        rw [List.take_append_of_le_length (Nat.le_of_lt within)]
        obtain ⟨before, written, cut, placed, _⟩ := traces.lexemes index lexeme found
        exact ⟨before, written, cut, placed⟩
      · rw [List.getElem?_append_right (Nat.not_lt.mp within)] at found
        cases position : index - scanner.lexemes.toList.length with
        | succ _ =>
            rw [position] at found
            cases found
        | zero =>
            rw [position] at found
            cases found
            have last : index = scanner.lexemes.toList.length := by omega
            obtain ⟨front, written, _, cut, placed⟩ := traces.closing mode [] (by simp)
            rw [List.append_nil] at cut
            rw [last, List.take_left]
            exact ⟨_, written, cut, placed⟩

end Scanner

theorem Token.exists_cut {source : String} {index : Nat} {token : Token}
    (found : (Token.scan source)[index]? = some token) :
    ∃ before written,
      token.Cut source.toList ((Token.scan source).take index) before written ∧
      (token.line, token.column) = Text.place (before ++ written) := by
  rw [Token.scan, List.getElem?_map, Option.map_eq_some_iff] at found
  obtain ⟨lexeme, at_, rfl⟩ := found
  rw [Token.scan, ← List.map_take]
  exact (Scanner.traces_start.foldl source.toList).finish at_

/-- Line feeds are dropped from literals and separate all other tokens. -/
theorem Word.WellFormed.newline_not_mem {word : Word} (wellFormed : word.WellFormed) :
    '\n' ∉ word.text.toList := by
  have excluded {condition : Char → Bool} {text : String} (refused : condition '\n' = false)
      (all : text.toList.all condition = true) : '\n' ∉ text.toList := by
    intro member
    have impossible := List.all_eq_true.mp all '\n' member
    rw [refused] at impossible
    cases impossible
  cases wellFormed with
  | @punctuation mark kind found =>
      have character : mark.toString.toList = [mark] := String.toList_singleton mark
      rw [character, List.mem_singleton]
      exact (Scanner.punctuation_facts found).2.1.symm
  | quoted quotable => exact excluded (by decide) quotable
  | bare bare =>
      rw [Text.isBare, Bool.and_eq_true] at bare
      exact excluded (by decide) bare.2

theorem Token.Cut.kind_of_newline {source before written : List Char} {earlier : List Token}
    {token : Token} (cut : token.Cut source earlier before written)
    (wellFormed : token.word.WellFormed) (broken : '\n' ∈ written) : token.kind = .string := by
  cases cut with
  | plain _ _ _ => exact absurd broken wellFormed.newline_not_mem
  | quoted string _ _ _ _ _ => exact string

end AudioMarkup
