import AudioMarkup.Token.Scan

/-!
Words: tokens without their place. Every token of a text is a well formed word, and a list of well
formed words that is written with a single blank between two of them is cut into these words again.

Both facts are about the scanner, and `Scanner.Stepped` lists what a step of it can do. For the
first, what is pending can always be completed to a well formed word. For the second, `Scanner.Has`
says which words a scanner holds if the one under way counts, and a blank changes nothing about it.
-/

namespace AudioMarkup

structure Word where
  kind : Token.Kind
  text : String
  deriving DecidableEq, Repr

def Token.word (token : Token) : Word := ⟨token.kind, token.text⟩

/-- A character of a word that is neither punctuation nor in quotes. -/
def Text.isBareChar (c : Char) : Bool :=
  !Text.isBlank c && c != '"' && (Token.Kind.ofPunctuation? c).isNone

def Text.isBare (text : String) : Bool := !text.isEmpty && text.toList.all Text.isBareChar

def Text.isQuotable (c : Char) : Bool := c != '"' && c != '\n'

inductive Word.WellFormed : Word → Prop where
  | punctuation {mark : Char} {kind : Token.Kind} :
      Token.Kind.ofPunctuation? mark = some kind → WellFormed ⟨kind, mark.toString⟩
  | quoted {text : String} :
      text.toList.all Text.isQuotable = true → WellFormed ⟨.string, text⟩
  | bare {text : String} : Text.isBare text = true → WellFormed ⟨Token.Kind.ofText text, text⟩

/-! ### Steps of the scanner -/

namespace Scanner

inductive Stepped (scanner : Scanner) (c : Char) : Scanner → Prop where
  | opened : scanner.inString = false → c = '"' → Stepped scanner c scanner.openString
  | broken : scanner.inString = false → c = '\n' → Stepped scanner c scanner.flush.breakLine
  | blank : scanner.inString = false → c ≠ '"' → c ≠ '\n' → Text.isBlank c = true →
      Stepped scanner c scanner.flush.advance
  | mark {kind : Token.Kind} : scanner.inString = false → Token.Kind.ofPunctuation? c = some kind →
      Stepped scanner c (scanner.flush.advance.emit c.toString (some kind))
  | bare : scanner.inString = false → Text.isBareChar c = true →
      Stepped scanner c (scanner.collect c)
  | closed : scanner.inString = true → c = '"' → Stepped scanner c scanner.closeString.advance
  | dropped : scanner.inString = true → c = '\n' → Stepped scanner c scanner.breakLine
  | quoted : scanner.inString = true → Text.isQuotable c = true →
      Stepped scanner c (scanner.collect c)

theorem stepped (scanner : Scanner) (c : Char) : Stepped scanner c (scanner.step c) := by
  unfold step
  split
  · rename_i inside
    unfold stepInString
    split
    · exact .closed inside ‹_›
    · split
      · exact .dropped inside ‹_›
      · exact .quoted inside (by simp [Text.isQuotable, *])
  · rename_i mode
    have outside : scanner.inString = false := Bool.not_eq_true _ ▸ mode
    unfold stepBare
    split
    · exact .opened outside ‹_›
    · split
      · exact .broken outside ‹_›
      · split
        · exact .blank outside ‹_› ‹_› ‹_›
        · split
          · exact .mark outside ‹_›
          · exact .bare outside (by simp [Text.isBareChar, *])

theorem bareChar_facts {c : Char} (bare : Text.isBareChar c = true) :
    c ≠ '"' ∧ c ≠ '\n' ∧ Text.isBlank c = false := by
  simp only [Text.isBareChar, Bool.and_eq_true, Bool.not_eq_true', bne_iff_ne] at bare
  refine ⟨bare.1.2, ?_, bare.1.1⟩
  rintro rfl
  exact absurd bare.1.1 (by decide)

/-! ### The words of a text -/

structure Sound (scanner : Scanner) : Prop where
  lexemes : ∀ lexeme ∈ scanner.lexemes.toList, lexeme.classify.word.WellFormed
  bare : scanner.inString = false → scanner.pending.toList.all Text.isBareChar = true
  quoted : scanner.inString = true → scanner.pending.toList.all Text.isQuotable = true

theorem sound_start : start.Sound :=
  ⟨by simp [start], fun _ => rfl, nofun⟩

private theorem lexemes_emit {scanner : Scanner} {text : String} {kind? : Option Token.Kind}
    (lexemes : ∀ lexeme ∈ scanner.lexemes.toList, lexeme.classify.word.WellFormed)
    (wellFormed : Word.WellFormed ⟨kind?.getD (Token.Kind.ofText text), text⟩) :
    ∀ lexeme ∈ (scanner.emit text kind?).lexemes.toList, lexeme.classify.word.WellFormed := by
  intro lexeme member
  rw [emit, Array.toList_push, List.mem_append, List.mem_singleton] at member
  rcases member with earlier | rfl
  · exact lexemes lexeme earlier
  · exact wellFormed

theorem pending_flush (scanner : Scanner) : scanner.flush.pending = "" := by
  unfold flush
  split
  · rename_i empty
    exact String.isEmpty_iff.mp empty
  · rfl

theorem inString_flush (scanner : Scanner) : scanner.flush.inString = scanner.inString := by
  unfold flush
  split
  · rfl
  · rfl

theorem place_flush (scanner : Scanner) :
    scanner.flush.line = scanner.line ∧ scanner.flush.column = scanner.column := by
  unfold flush
  split
  · exact ⟨rfl, rfl⟩
  · exact ⟨rfl, rfl⟩

theorem finish_of_outside {scanner : Scanner} (outside : scanner.inString = false) :
    scanner.finish = scanner.flush.lexemes.toList := by
  rw [finish, outside]
  rfl

/-- A text that ends in a string has the string as its last lexeme. -/
theorem finish_of_inString {scanner : Scanner} (inside : scanner.inString = true) :
    scanner.finish = scanner.lexemes.toList ++
      [⟨scanner.line, scanner.column, scanner.pending, some .string⟩] := by
  rw [finish, inside]
  exact Array.toList_push

private theorem lexemes_flush {scanner : Scanner} (sound : scanner.Sound)
    (outside : scanner.inString = false) :
    ∀ lexeme ∈ scanner.flush.lexemes.toList, lexeme.classify.word.WellFormed := by
  unfold flush
  split
  · exact sound.lexemes
  · rename_i nonempty
    refine lexemes_emit sound.lexemes (.bare ?_)
    rw [Text.isBare, sound.bare outside, Bool.and_true, Bool.not_eq_true']
    simpa using nonempty

private theorem lexemes_closeString {scanner : Scanner} (sound : scanner.Sound)
    (inside : scanner.inString = true) :
    ∀ lexeme ∈ scanner.closeString.lexemes.toList, lexeme.classify.word.WellFormed :=
  lexemes_emit sound.lexemes (.quoted (sound.quoted inside))

/-- With nothing pending, only the lexemes matter. -/
private theorem sound_of_settled {scanner : Scanner}
    (lexemes : ∀ lexeme ∈ scanner.lexemes.toList, lexeme.classify.word.WellFormed)
    (settled : scanner.pending = "") : scanner.Sound := by
  refine ⟨lexemes, fun _ => ?_, fun _ => ?_⟩
  · rw [settled]
    rfl
  · rw [settled]
    rfl

theorem Sound.step {scanner : Scanner} (sound : scanner.Sound) (c : Char) :
    (scanner.step c).Sound := by
  have how := scanner.stepped c
  generalize scanner.step c = next at how ⊢
  cases how with
  | opened outside _ =>
      exact sound_of_settled (lexemes_flush sound outside) (pending_flush scanner)
  | broken outside _ =>
      exact sound_of_settled (lexemes_flush sound outside) (pending_flush scanner)
  | blank outside _ _ _ =>
      exact sound_of_settled (lexemes_flush sound outside) (pending_flush scanner)
  | mark outside found =>
      exact sound_of_settled (lexemes_emit (lexemes_flush sound outside) (.punctuation found))
        (pending_flush scanner)
  | bare outside isBare =>
      refine ⟨sound.lexemes, fun _ => ?_, fun inside => ?_⟩
      · simp only [collect, String.toList_push, List.all_append, sound.bare outside,
          List.all_cons, List.all_nil, isBare, Bool.and_self]
      · rw [collect, outside] at inside
        cases inside
  | closed inside _ => exact sound_of_settled (lexemes_closeString sound inside) rfl
  | dropped _ _ => exact ⟨sound.lexemes, sound.bare, sound.quoted⟩
  | quoted inside quotable =>
      refine ⟨sound.lexemes, fun outside => ?_, fun _ => ?_⟩
      · rw [collect, inside] at outside
        cases outside
      · simp only [collect, String.toList_push, List.all_append, sound.quoted inside, List.all_cons,
          List.all_nil, quotable, Bool.and_self]

theorem Sound.foldl {scanner : Scanner} (sound : scanner.Sound) (text : List Char) :
    (text.foldl Scanner.step scanner).Sound := by
  induction text generalizing scanner with
  | nil => exact sound
  | cons c rest ih => exact ih (sound.step c)

theorem Sound.finish {scanner : Scanner} (sound : scanner.Sound) :
    ∀ lexeme ∈ scanner.finish, lexeme.classify.word.WellFormed := by
  unfold Scanner.finish
  split
  · rename_i inside
    exact lexemes_closeString sound inside
  · rename_i outside
    exact lexemes_flush sound (Bool.not_eq_true _ ▸ outside)

end Scanner

theorem Token.wellFormed_of_mem_scan {source : String} {token : Token}
    (member : token ∈ Token.scan source) : token.word.WellFormed := by
  obtain ⟨lexeme, found, rfl⟩ := List.mem_map.mp member
  exact (Scanner.sound_start.foldl source.toList).finish lexeme found

/-! ### Writing words -/

namespace Word

def markup (word : Word) : List Char :=
  if word.kind = .string then '"' :: word.text.toList ++ ['"'] else word.text.toList

def markupAll : List Word → List Char
  | [] => []
  | [word] => word.markup
  | word :: rest => word.markup ++ ' ' :: markupAll rest

end Word

namespace Scanner

structure Has (scanner : Scanner) (words : List Word) : Prop where
  outside : scanner.inString = false
  words : scanner.flush.lexemes.toList.map (fun lexeme => lexeme.classify.word) = words

theorem has_start : start.Has [] := ⟨rfl, rfl⟩

theorem flush_of_pending {scanner : Scanner} (settled : scanner.pending = "") :
    scanner.flush = scanner := by
  rw [flush, settled]
  rfl

private theorem Has.blank {scanner : Scanner} {words : List Word} (has : scanner.Has words) :
    (scanner.step ' ').Has words ∧ (scanner.step ' ').pending = "" := by
  have stepped : scanner.step ' ' = scanner.flush.advance := by
    rw [step, has.outside]
    rfl
  have settled : scanner.flush.advance.pending = "" := pending_flush scanner
  rw [stepped]
  refine ⟨⟨?_, ?_⟩, settled⟩
  · exact (inString_flush scanner).trans has.outside
  · rw [flush_of_pending settled]
    exact has.words

private theorem has_emit {scanner : Scanner} {words : List Word} {text : String}
    {kind? : Option Token.Kind} {word : Word} (has : scanner.Has words)
    (settled : scanner.pending = "")
    (sameWord : word = ⟨kind?.getD (Token.Kind.ofText text), text⟩) :
    (scanner.emit text kind?).Has (words ++ [word]) := by
  have before := has.words
  rw [flush_of_pending settled] at before
  refine ⟨has.outside, ?_⟩
  have flushed : (scanner.emit text kind?).flush = scanner.emit text kind? :=
    flush_of_pending settled
  rw [flushed, emit, Array.toList_push, List.map_append, before, sameWord]
  rfl

/-- Characters that the scanner collects end up in the lexeme under way. -/
private theorem foldl_step_collect {scanner : Scanner} {text : List Char}
    (collects : ∀ c ∈ text, ∀ state : Scanner, state.inString = scanner.inString →
      state.step c = state.collect c) :
    (text.foldl step scanner).inString = scanner.inString ∧
      (text.foldl step scanner).lexemes = scanner.lexemes ∧
      (text.foldl step scanner).pending.toList = scanner.pending.toList ++ text := by
  induction text generalizing scanner with
  | nil => exact ⟨rfl, rfl, (List.append_nil _).symm⟩
  | cons c rest ih =>
      rw [List.foldl_cons, collects c (List.mem_cons_self ..) scanner rfl]
      have restCollects : ∀ other ∈ rest, ∀ state : Scanner,
          state.inString = (scanner.collect c).inString → state.step other = state.collect other :=
        fun other member => collects other (List.mem_cons_of_mem _ member)
      obtain ⟨sameMode, sameLexemes, collected⟩ := ih restCollects
      refine ⟨sameMode, sameLexemes, ?_⟩
      rw [collected, collect, String.toList_push, List.append_assoc]
      rfl

private theorem step_bareChar {state : Scanner} {c : Char} (outside : state.inString = false)
    (bare : Text.isBareChar c = true) : state.step c = state.collect c := by
  obtain ⟨notQuote, notBreak, notBlank⟩ := bareChar_facts bare
  simp only [Text.isBareChar, Bool.and_eq_true, Option.isNone_iff_eq_none] at bare
  simp only [step, outside, Bool.false_eq_true, if_false, stepBare, notBlank, notQuote, notBreak,
    bare.2]

private theorem step_quotable {state : Scanner} {c : Char} (inside : state.inString = true)
    (quotable : Text.isQuotable c = true) : state.step c = state.collect c := by
  simp only [Text.isQuotable, Bool.and_eq_true, bne_iff_ne] at quotable
  simp only [step, inside, if_true, stepInString, quotable.1, quotable.2, if_false]

theorem punctuation_facts {mark : Char} {kind : Token.Kind}
    (punctuation : Token.Kind.ofPunctuation? mark = some kind) :
    mark ≠ '"' ∧ mark ≠ '\n' ∧ Text.isBlank mark = false ∧
      ∀ other ∈ [.string, .number, .name, .className, .builtin, .endOfInput], kind ≠ other := by
  unfold Token.Kind.ofPunctuation? at punctuation
  split at punctuation <;> cases punctuation <;> decide

/-- A text alone is neither a string nor the end of input. -/
theorem ofText_ne {kind : Token.Kind} (text : String) (listed : kind ∈ [.string, .endOfInput]) :
    Token.Kind.ofText text ≠ kind := by
  have differ : ∀ made ∈ [.number, .name, .className, .builtin],
      ∀ other ∈ [.string, .endOfInput], made ≠ (other : Token.Kind) := by
    decide
  unfold Token.Kind.ofText
  split
  · exact differ .name (by decide) kind listed
  · split
    · rename_i found _
      have wider : ∀ other ∈ [.string, .endOfInput],
          other ∈ [.string, .number, .name, .className, .builtin, Token.Kind.endOfInput] := by
        decide
      exact (punctuation_facts found).2.2.2 kind (wider kind listed)
    · split
      · exact differ .number (by decide) kind listed
      · split
        · exact differ .builtin (by decide) kind listed
        · split
          · exact differ .className (by decide) kind listed
          · exact differ .name (by decide) kind listed

theorem ofText_ne_string (text : String) : Token.Kind.ofText text ≠ .string :=
  ofText_ne text (by decide)

/-- Numbers are told from other texts by their form alone. -/
theorem isNumeral_of_ofText {text : String} (number : Token.Kind.ofText text = .number) :
    Text.isNumeral text.toList = true := by
  unfold Token.Kind.ofText at number
  split at number
  · cases number
  · rename_i first rest starts
    split at number
    · rename_i kind punctuation
      exact absurd number ((punctuation_facts punctuation).2.2.2 .number (by decide))
    · split at number
      · rename_i numeral
        rw [starts]
        exact numeral
      · split at number
        · cases number
        · split at number <;> cases number

/-- A mark ends what is pending. -/
theorem Has.punctuation {scanner : Scanner} {words : List Word} {mark : Char} {kind : Token.Kind}
    (has : scanner.Has words) (punctuation : Token.Kind.ofPunctuation? mark = some kind) :
    (scanner.step mark).Has (words ++ [⟨kind, mark.toString⟩]) ∧
      (scanner.step mark).pending = "" := by
  obtain ⟨notQuote, notBreak, notBlank, _⟩ := punctuation_facts punctuation
  have stepped : scanner.step mark = scanner.flush.advance.emit mark.toString (some kind) := by
    simp only [step, has.outside, Bool.false_eq_true, if_false, stepBare, notQuote, notBreak,
      notBlank, punctuation]
  have settled : scanner.flush.advance.pending = "" := pending_flush scanner
  have advanced : scanner.flush.advance.Has words := by
    refine ⟨(inString_flush scanner).trans has.outside, ?_⟩
    rw [flush_of_pending settled]
    exact has.words
  rw [stepped]
  exact ⟨has_emit advanced settled rfl, settled⟩

private theorem has_closeString {scanner : Scanner} {words : List Word} {text : String}
    (inside : scanner.inString = true)
    (before : scanner.lexemes.toList.map (fun lexeme => lexeme.classify.word) = words)
    (pending : scanner.pending = text) : (scanner.step '"').Has (words ++ [⟨.string, text⟩]) := by
  have stepped : scanner.step '"' = scanner.closeString.advance := by
    simp only [step, inside, if_true, stepInString]
  rw [stepped]
  refine ⟨rfl, ?_⟩
  rw [flush_of_pending rfl]
  simp only [advance, closeString, emit, Array.toList_push, List.map_append, before, pending]
  rfl

private theorem Has.quoted {scanner : Scanner} {words : List Word} {text : String}
    (has : scanner.Has words) (settled : scanner.pending = "")
    (quotable : text.toList.all Text.isQuotable = true) :
    (('"' :: text.toList ++ ['"']).foldl step scanner).Has (words ++ [⟨.string, text⟩]) := by
  let opened : Scanner := { scanner.advance with inString := true }
  have opens : scanner.step '"' = opened := by
    simp only [step, has.outside, Bool.false_eq_true, if_false, stepBare, if_true, openString,
      flush_of_pending settled, opened]
  have collects : ∀ c ∈ text.toList, ∀ state : Scanner, state.inString = opened.inString →
      state.step c = state.collect c := fun c member state inside =>
    step_quotable inside (List.all_eq_true.mp quotable c member)
  obtain ⟨inside, sameLexemes, collected⟩ := foldl_step_collect collects
  have pending : (text.toList.foldl step opened).pending = text := by
    apply String.toList_inj.mp
    rw [collected]
    simp only [opened, advance, settled]
    rfl
  have before := has.words
  rw [flush_of_pending settled] at before
  rw [List.cons_append, List.foldl_cons, opens, List.foldl_append, List.foldl_cons, List.foldl_nil]
  refine has_closeString inside ?_ pending
  rw [sameLexemes]
  exact before

theorem Has.bare {scanner : Scanner} {words : List Word} {text : String}
    (has : scanner.Has words) (settled : scanner.pending = "") (bare : Text.isBare text = true) :
    (text.toList.foldl step scanner).Has (words ++ [⟨Token.Kind.ofText text, text⟩]) := by
  rw [Text.isBare, Bool.and_eq_true, Bool.not_eq_true'] at bare
  have collects : ∀ c ∈ text.toList, ∀ state : Scanner, state.inString = scanner.inString →
      state.step c = state.collect c := fun c member state sameMode =>
    step_bareChar (sameMode.trans has.outside) (List.all_eq_true.mp bare.2 c member)
  obtain ⟨sameMode, sameLexemes, collected⟩ := foldl_step_collect collects
  have pending : (text.toList.foldl step scanner).pending = text := by
    apply String.toList_inj.mp
    rw [collected, settled]
    rfl
  have before := has.words
  rw [flush_of_pending settled] at before
  refine ⟨sameMode.trans has.outside, ?_⟩
  simp only [flush, pending, bare.1, Bool.false_eq_true, if_false, emit, Array.toList_push,
    sameLexemes, List.map_append, before]
  rfl

private theorem Has.word {scanner : Scanner} {words : List Word} {word : Word}
    (has : scanner.Has words) (settled : scanner.pending = "") (wellFormed : word.WellFormed) :
    (word.markup.foldl step scanner).Has (words ++ [word]) := by
  cases wellFormed with
  | @punctuation mark kind punctuation =>
      rw [Word.markup, if_neg ((punctuation_facts punctuation).2.2.2 .string (by decide))]
      have single : mark.toString.toList = [mark] := String.toList_singleton mark
      rw [single]
      exact (has.punctuation punctuation).1
  | quoted quotable =>
      rw [Word.markup, if_pos rfl]
      exact has.quoted settled quotable
  | bare bare =>
      rw [Word.markup, if_neg (ofText_ne_string _)]
      exact has.bare settled bare

theorem Has.markupAll {scanner : Scanner} {before words : List Word} (has : scanner.Has before)
    (settled : scanner.pending = "") (wellFormed : ∀ word ∈ words, word.WellFormed) :
    ((Word.markupAll words).foldl step scanner).Has (before ++ words) := by
  -- The blank behind a word settles what is pending, so the next word starts afresh.
  induction words generalizing scanner before with
  | nil =>
      rw [List.append_nil]
      exact has
  | cons word rest ih =>
      have afterWord := has.word settled (wellFormed word (List.mem_cons_self ..))
      cases rest with
      | nil => exact afterWord
      | cons next others =>
          obtain ⟨afterBlank, settledAgain⟩ := afterWord.blank
          have restWellFormed : ∀ word ∈ next :: others, word.WellFormed :=
            fun other member => wellFormed other (List.mem_cons_of_mem _ member)
          have afterRest := ih afterBlank settledAgain restWellFormed
          rw [Word.markupAll, List.foldl_append, List.foldl_cons]
          rw [List.append_assoc] at afterRest
          exact afterRest
          nofun

theorem Has.finish {scanner : Scanner} {words : List Word} (has : scanner.Has words) :
    scanner.finish.map (fun lexeme => lexeme.classify.word) = words := by
  rw [Scanner.finish, has.outside]
  exact has.words

end Scanner

theorem Token.scan_markupAll {words : List Word} (wellFormed : ∀ word ∈ words, word.WellFormed) :
    (Token.scan (String.ofList (Word.markupAll words))).map Token.word = words := by
  rw [Token.scan, Lexeme.scan, String.toList_ofList, List.map_map]
  exact (Scanner.has_start.markupAll rfl wellFormed).finish

/-! ### Kinds of words -/

namespace Text

def isName (text : String) : Bool :=
  isBare text && !isDecimal text.toList && text.toList.head? != some '@'

def startsCapital (text : String) : Bool := text.toList.head?.any isCapital

private theorem ofText_of_isBare {text : String} (bare : isBare text = true) :
    Token.Kind.ofText text =
      if isDecimal text.toList then .number
      else if text.toList.head? = some '@' then .builtin
      else if startsCapital text then .className
      else .name := by
  rw [isBare, Bool.and_eq_true, Bool.not_eq_true', ← Bool.not_eq_true, String.isEmpty_iff,
    ← String.toList_eq_nil_iff] at bare
  obtain ⟨first, rest, chars⟩ := List.exists_cons_of_ne_nil bare.1
  have firstBare : isBareChar first = true := by
    apply List.all_eq_true.mp bare.2
    rw [chars]
    exact List.mem_cons_self ..
  simp only [isBareChar, Bool.and_eq_true, Option.isNone_iff_eq_none] at firstBare
  have notPunctuation := firstBare.2
  have numeral : isNumeral (first :: rest) = isDecimal (first :: rest) := by
    unfold isNumeral
    split
    · rename_i minus
      cases minus
      cases notPunctuation
    · rfl
  simp only [Token.Kind.ofText, startsCapital, chars, notPunctuation, numeral, List.head?_cons,
    Option.any_some, Option.some.injEq]

theorem ofText_of_isName {text : String} (name : isName text = true) :
    Token.Kind.ofText text = if startsCapital text then .className else .name := by
  simp only [isName, Bool.and_eq_true, Bool.not_eq_true', bne_iff_ne] at name
  rw [ofText_of_isBare name.1.1, name.1.2, if_neg Bool.false_ne_true, if_neg name.2]

theorem ofText_of_isDecimal {text : String} (bare : isBare text = true)
    (decimal : isDecimal text.toList = true) : Token.Kind.ofText text = .number := by
  rw [ofText_of_isBare bare, if_pos decimal]

end Text

namespace Word

/-- A word that can refer to something is a name. -/
theorem WellFormed.isName {word : Word} (wellFormed : word.WellFormed)
    (refers : word.kind = .name ∨ word.kind = .className) : Text.isName word.text = true := by
  cases wellFormed with
  | punctuation punctuation =>
      have different := (Scanner.punctuation_facts punctuation).2.2.2
      rcases refers with name | className
      · exact absurd name (different .name (by decide))
      · exact absurd className (different .className (by decide))
  | quoted _ => simp at refers
  | bare bare =>
      rw [Text.ofText_of_isBare bare] at refers
      simp only [Text.isName, bare, Bool.true_and, Bool.and_eq_true, Bool.not_eq_true', bne_iff_ne]
      split at refers
      · simp at refers
      · rename_i notDecimal
        split at refers
        · simp at refers
        · rename_i notBuiltin
          exact ⟨Bool.not_eq_true _ ▸ notDecimal, notBuiltin⟩

theorem WellFormed.startsCapital {word : Word} (wellFormed : word.WellFormed)
    (name : word.kind = .name) : Text.startsCapital word.text = false := by
  have isName := wellFormed.isName (.inl name)
  cases wellFormed with
  | punctuation punctuation =>
      exact absurd name ((Scanner.punctuation_facts punctuation).2.2.2 .name (by decide))
  | quoted _ => simp at name
  | bare bare =>
      rw [Text.ofText_of_isName isName] at name
      split at name
      · cases name
      · rename_i lower
        exact Bool.not_eq_true _ ▸ lower

theorem WellFormed.isDecimal {word : Word} (wellFormed : word.WellFormed)
    (number : word.kind = .number) : Text.isDecimal word.text.toList = true := by
  cases wellFormed with
  | punctuation punctuation =>
      exact absurd number ((Scanner.punctuation_facts punctuation).2.2.2 .number (by decide))
  | quoted _ => simp at number
  | bare bare =>
      rw [Text.ofText_of_isBare bare] at number
      split at number
      · assumption
      · split at number
        · cases number
        · split at number <;> cases number

theorem WellFormed.isQuotable {word : Word} (wellFormed : word.WellFormed)
    (string : word.kind = .string) : word.text.toList.all Text.isQuotable = true := by
  cases wellFormed with
  | punctuation punctuation =>
      exact absurd string ((Scanner.punctuation_facts punctuation).2.2.2 .string (by decide))
  | quoted quotable => exact quotable
  | bare bare => exact absurd string (Scanner.ofText_ne_string _)

end Word

end AudioMarkup
