import AudioMarkup.Proofs.Token.Places

/-!
What becomes of the characters of a text. `Text.kept` says it without a scanner: quotes, line feeds,
and blanks outside of quotes are dropped, where a character is in quotes if an odd number of quotes
stands before it. A lexeme without a kind has to be a run of characters that goes on to neither
side, `Lexeme.IsRun`.

Two invariants of the scanner go along with the characters that it has read: what it has kept of
them, `Scanner.Accounts`, and how its lexemes stand in them, `Scanner.Forms`.
-/

namespace AudioMarkup

/-! ### Texts -/

namespace Text

def endsQuoted (text : List Char) : Bool := text.count '"' % 2 = 1

def isKept (before : List Char) (c : Char) : Bool :=
  c != '"' && c != '\n' && (endsQuoted before || !isBlank c)

/-- The text without its quotes, its line feeds, and its blanks outside of quotes. -/
def kept (text : List Char) : List Char :=
  (text.zipIdx.filter fun entry => isKept (text.take entry.2) entry.1).map Prod.fst

theorem kept_concat (text : List Char) (c : Char) :
    kept (text ++ [c]) = kept text ++ if isKept text c then [c] else [] := by
  have earlier : ∀ entry ∈ text.zipIdx,
      isKept ((text ++ [c]).take entry.2) entry.1 = isKept (text.take entry.2) entry.1 := by
    intro entry member
    have within : entry.2 < text.length := List.snd_lt_of_mem_zipIdx member
    rw [List.take_append_of_le_length (Nat.le_of_lt within)]
  have last : isKept ((text ++ [c]).take (0 + text.length)) c = isKept text c := by
    rw [Nat.zero_add, List.take_left]
  rw [kept, List.zipIdx_append, List.filter_append, List.map_append, List.filter_congr earlier]
  apply congrArg (kept text ++ ·)
  rw [List.zipIdx_singleton]
  cases keeps : isKept text c with
  | true =>
      rw [List.filter_cons_of_pos (by rw [last, keeps])]
      rfl
  | false =>
      rw [List.filter_cons_of_neg (by rw [last, keeps]; exact Bool.false_ne_true)]
      rfl

theorem count_concat_of_ne {c : Char} (other : c ≠ '"') (text : List Char) :
    (text ++ [c]).count '"' = text.count '"' := by
  have absent : [c].count '"' = 0 := List.count_eq_zero.mpr (by simpa using other.symm)
  rw [List.count_append, absent, Nat.add_zero]

theorem count_concat_quote (text : List Char) : (text ++ ['"']).count '"' = text.count '"' + 1 := by
  rw [List.count_append, List.count_singleton_self]

theorem endsQuoted_concat_of_ne {c : Char} (other : c ≠ '"') (text : List Char) :
    endsQuoted (text ++ [c]) = endsQuoted text := by
  rw [endsQuoted, endsQuoted, count_concat_of_ne other]

theorem endsQuoted_concat_quote (text : List Char) :
    endsQuoted (text ++ ['"']) = !endsQuoted text := by
  rw [Bool.eq_iff_iff, Bool.not_eq_true', endsQuoted, endsQuoted, count_concat_quote,
    decide_eq_true_iff, decide_eq_false_iff_not]
  omega

end Text

/-! ### What is kept -/

namespace Scanner

def texts (scanner : Scanner) : List Char :=
  (scanner.lexemes.toList.flatMap fun lexeme => lexeme.text.toList) ++ scanner.pending.toList

def strings (scanner : Scanner) : Nat :=
  scanner.lexemes.toList.countP fun lexeme => lexeme.kind? == some .string

theorem texts_flush (scanner : Scanner) : scanner.flush.texts = scanner.texts := by
  unfold flush
  split
  · rfl
  · simp [texts, emit]

theorem strings_flush (scanner : Scanner) : scanner.flush.strings = scanner.strings := by
  unfold flush
  split
  · rfl
  · simp [strings, emit]

theorem texts_emit {scanner : Scanner} (settled : scanner.pending = "") (text : String)
    (kind? : Option Token.Kind) :
    (scanner.emit text kind?).texts = scanner.texts ++ text.toList := by
  simp [texts, emit, settled]

theorem strings_emit (scanner : Scanner) (text : String) {kind : Token.Kind}
    (other : kind ≠ .string) : (scanner.emit text (some kind)).strings = scanner.strings := by
  simp [strings, emit, other]

theorem texts_collect (scanner : Scanner) (c : Char) :
    (scanner.collect c).texts = scanner.texts ++ [c] := by
  simp [texts, collect]

theorem texts_closeString (scanner : Scanner) : scanner.closeString.texts = scanner.texts := by
  simp [texts, closeString, emit]

theorem strings_closeString (scanner : Scanner) :
    scanner.closeString.strings = scanner.strings + 1 := by
  simp [strings, closeString, emit]

structure Accounts (read : List Char) (scanner : Scanner) : Prop where
  mode : scanner.inString = Text.endsQuoted read
  texts : scanner.texts = Text.kept read
  strings : 2 * scanner.strings + scanner.inString.toNat = read.count '"'

theorem accounts_start : Accounts [] start := ⟨rfl, rfl, rfl⟩

variable {read : List Char} {scanner : Scanner}

/-- A step over a character other than a quote, which leaves the mode and the strings. -/
private theorem Accounts.passing (accounts : Accounts read scanner) {next : Scanner} {c : Char}
    (notQuote : c ≠ '"') (mode : next.inString = scanner.inString)
    (strings : next.strings = scanner.strings)
    (texts : next.texts = scanner.texts ++ if Text.isKept read c then [c] else []) :
    Accounts (read ++ [c]) next := by
  refine ⟨?_, ?_, ?_⟩
  · rw [mode, accounts.mode, Text.endsQuoted_concat_of_ne notQuote]
  · rw [texts, accounts.texts, Text.kept_concat]
  · rw [mode, strings, Text.count_concat_of_ne notQuote, accounts.strings]

theorem Accounts.step (accounts : Accounts read scanner) (c : Char) :
    Accounts (read ++ [c]) (scanner.step c) := by
  have quoteDropped : Text.kept (read ++ ['"']) = Text.kept read := by
    rw [Text.kept_concat]
    exact List.append_nil _
  have counted := accounts.strings
  have how := scanner.stepped c
  generalize scanner.step c = next at how
  cases how with
  | opened outside quote =>
      subst quote
      refine ⟨?_, ?_, ?_⟩
      · rw [Text.endsQuoted_concat_quote, ← accounts.mode, outside]
        rfl
      · rw [quoteDropped, ← accounts.texts]
        exact texts_flush scanner
      · have same : scanner.openString.strings = scanner.strings := strings_flush scanner
        rw [outside, Bool.toNat_false] at counted
        rw [same, Text.count_concat_quote, openString, Bool.toNat_true]
        omega
  | broken outside feed =>
      subst feed
      refine accounts.passing (by decide) (inString_flush scanner) (strings_flush scanner) ?_
      exact (texts_flush scanner).trans (List.append_nil _).symm
  | blank outside notQuote notFeed blank =>
      refine accounts.passing notQuote (inString_flush scanner) (strings_flush scanner) ?_
      have dropped : Text.isKept read c = false := by
        rw [Text.isKept, ← accounts.mode, outside, blank]
        exact Bool.and_false _
      rw [dropped, if_neg Bool.false_ne_true, List.append_nil]
      exact texts_flush scanner
  | @mark kind outside found =>
      obtain ⟨notQuote, notFeed, notBlank, otherKinds⟩ := punctuation_facts found
      have noString : kind ≠ .string := otherKinds .string (by decide)
      have keeps : Text.isKept read c = true := by
        simp [Text.isKept, notQuote, notFeed, notBlank]
      refine accounts.passing notQuote (inString_flush scanner) ?_ ?_
      · rw [strings_emit _ _ noString]
        exact strings_flush scanner
      · have settled : scanner.flush.advance.pending = "" := pending_flush scanner
        have same : scanner.flush.advance.texts = scanner.texts := texts_flush scanner
        rw [texts_emit settled, keeps, if_pos rfl, same]
        exact congrArg (scanner.texts ++ ·) (String.toList_singleton c)
  | bare outside isBare =>
      obtain ⟨notQuote, notFeed, notBlank⟩ := bareChar_facts isBare
      have keeps : Text.isKept read c = true := by
        simp [Text.isKept, notQuote, notFeed, notBlank]
      refine accounts.passing notQuote rfl rfl ?_
      rw [texts_collect, keeps, if_pos rfl]
  | closed inside quote =>
      subst quote
      refine ⟨?_, ?_, ?_⟩
      · rw [Text.endsQuoted_concat_quote, ← accounts.mode, inside]
        rfl
      · rw [quoteDropped, ← accounts.texts]
        exact texts_closeString scanner
      · have more : scanner.closeString.advance.strings = scanner.strings + 1 :=
          strings_closeString scanner
        rw [inside, Bool.toNat_true] at counted
        rw [more, Text.count_concat_quote, advance, closeString, Bool.toNat_false]
        omega
  | dropped inside feed =>
      subst feed
      refine accounts.passing (by decide) rfl rfl ?_
      exact (List.append_nil _).symm
  | quoted inside quotable =>
      simp only [Text.isQuotable, Bool.and_eq_true, bne_iff_ne] at quotable
      have keeps : Text.isKept read c = true := by
        simp [Text.isKept, quotable, ← accounts.mode, inside]
      refine accounts.passing quotable.1 rfl rfl ?_
      rw [texts_collect, keeps, if_pos rfl]

theorem Accounts.foldl (accounts : Accounts read scanner) (text : List Char) :
    Accounts (read ++ text) (text.foldl Scanner.step scanner) := by
  induction text generalizing read scanner with
  | nil =>
      rw [List.append_nil]
      exact accounts
  | cons c rest ih =>
      have stepped := ih (accounts.step c)
      rw [List.append_assoc, List.singleton_append] at stepped
      exact stepped

/-- The end of the text completes what is pending and, with an odd number of quotes, a string. -/
theorem Accounts.finish (accounts : Accounts read scanner) :
    (scanner.finish.flatMap fun lexeme => lexeme.text.toList) = Text.kept read ∧
      (scanner.finish.countP fun lexeme => lexeme.kind? == some .string) =
        (read.count '"' + 1) / 2 := by
  have counted := accounts.strings
  cases mode : scanner.inString with
  | false =>
      have settled : scanner.flush.texts =
          scanner.flush.lexemes.toList.flatMap fun lexeme => lexeme.text.toList := by
        rw [Scanner.texts, pending_flush]
        exact List.append_nil _
      rw [mode, Bool.toNat_false] at counted
      rw [finish_of_outside mode, ← settled, texts_flush, accounts.texts]
      refine ⟨rfl, (strings_flush scanner).trans ?_⟩
      omega
  | true =>
      have settled : scanner.closeString.texts =
          scanner.closeString.lexemes.toList.flatMap fun lexeme => lexeme.text.toList :=
        List.append_nil _
      have closes : scanner.finish = scanner.closeString.lexemes.toList := by
        rw [Scanner.finish, mode]
        rfl
      rw [mode, Bool.toNat_true] at counted
      rw [closes, ← settled, texts_closeString, accounts.texts]
      refine ⟨rfl, (strings_closeString scanner).trans ?_⟩
      omega

end Scanner

/-! ### How lexemes stand in a text -/

/-- The lexeme is a run of bare characters outside of quotes. It ends at its place in the text, and
neither the character before the run nor the one behind it is bare. -/
def Lexeme.IsRun (source : List Char) (lexeme : Lexeme) : Prop :=
  Text.isBare lexeme.text = true ∧ ∃ before after,
    source = before ++ (lexeme.text.toList ++ after) ∧
    (lexeme.line, lexeme.column) = Text.place (before ++ lexeme.text.toList) ∧
    Text.endsQuoted before = false ∧
    (∀ c ∈ before.getLast?, Text.isBareChar c = false) ∧
    ∀ c ∈ after.head?, Text.isBareChar c = false

inductive Lexeme.Form (source : List Char) (lexeme : Lexeme) : Prop where
  | string : lexeme.kind? = some .string → Form source lexeme
  | mark {c : Char} {kind : Token.Kind} : Token.Kind.ofPunctuation? c = some kind →
      lexeme.text = c.toString → lexeme.kind? = some kind → Form source lexeme
  | run : lexeme.kind? = none → lexeme.IsRun source → Form source lexeme

namespace Scanner

structure Forms (read : List Char) (scanner : Scanner) : Prop where
  lexemes : ∀ lexeme ∈ scanner.lexemes.toList, ∀ more, lexeme.Form (read ++ more)
  pending : scanner.inString = false → ∃ before, read = before ++ scanner.pending.toList ∧
    Text.endsQuoted before = false ∧ ∀ c ∈ before.getLast?, Text.isBareChar c = false

theorem forms_start : Forms [] start := by
  refine ⟨fun lexeme member => ?_, fun _ => ⟨[], rfl, rfl, fun c last => ?_⟩⟩
  · simp [start] at member
  · cases last

variable {read : List Char} {scanner : Scanner}

/-- What is pending is a whole run where no bare character follows. -/
private theorem Forms.flush (forms : Forms read scanner) (sound : scanner.Sound)
    (traces : Traces read scanner) (outside : scanner.inString = false) {more : List Char}
    (ends : ∀ c ∈ more.head?, Text.isBareChar c = false) :
    ∀ lexeme ∈ scanner.flush.lexemes.toList, lexeme.Form (read ++ more) := by
  unfold Scanner.flush
  split
  · intro lexeme member
    exact forms.lexemes lexeme member more
  · rename_i nonempty
    intro lexeme member
    rw [emit, Array.toList_push, List.mem_append, List.mem_singleton] at member
    rcases member with earlier | rfl
    · exact forms.lexemes lexeme earlier more
    · obtain ⟨before, split, unquoted, starts⟩ := forms.pending outside
      have bare : Text.isBare scanner.pending = true := by
        rw [Text.isBare, sound.bare outside, Bool.and_true, Bool.not_eq_true']
        simpa using nonempty
      refine .run rfl ⟨bare, before, more, ?_, ?_, unquoted, starts, ends⟩
      · rw [split, List.append_assoc]
      · rw [← split]
        exact traces.place

/-- A scanner outside of strings that has nothing pending, behind a character that is not bare. -/
private theorem forms_of_settled {next : Scanner} {c : Char}
    (lexemes : ∀ lexeme ∈ next.lexemes.toList, ∀ more, lexeme.Form (read ++ c :: more))
    (settled : next.pending = "") (unquoted : Text.endsQuoted (read ++ [c]) = next.inString)
    (separates : Text.isBareChar c = false) : Forms (read ++ [c]) next := by
  refine ⟨fun lexeme member more => ?_, fun outside => ⟨read ++ [c], ?_, ?_, ?_⟩⟩
  · rw [List.append_assoc]
    exact lexemes lexeme member more
  · rw [settled]
    exact (List.append_nil _).symm
  · rw [unquoted, outside]
  · intro last found
    rw [List.getLast?_concat] at found
    cases found
    exact separates

theorem Forms.step (forms : Forms read scanner) (accounts : Accounts read scanner)
    (sound : scanner.Sound) (traces : Traces read scanner) (c : Char) :
    Forms (read ++ [c]) (scanner.step c) := by
  have mode : Text.endsQuoted (read ++ [c]) = (scanner.step c).inString :=
    (accounts.step c).mode.symm
  have flushed (outside : scanner.inString = false) (separates : Text.isBareChar c = false) :
      ∀ lexeme ∈ scanner.flush.lexemes.toList, ∀ more, lexeme.Form (read ++ c :: more) := by
    intro lexeme member more
    refine forms.flush sound traces outside (fun first found => ?_) lexeme member
    cases found
    exact separates
  have unchanged {next : Scanner} (same : next.lexemes = scanner.lexemes) :
      ∀ lexeme ∈ next.lexemes.toList, ∀ more, lexeme.Form (read ++ [c] ++ more) := by
    intro lexeme member more
    rw [same] at member
    rw [List.append_assoc]
    exact forms.lexemes lexeme member ([c] ++ more)
  have how := scanner.stepped c
  generalize scanner.step c = next at how mode
  cases how with
  | opened outside quote =>
      refine ⟨fun lexeme member more => ?_, fun impossible => by cases impossible⟩
      rw [List.append_assoc]
      exact flushed outside (by rw [quote]; rfl) lexeme member more
  | broken outside feed =>
      have separates : Text.isBareChar c = false := by rw [feed]; rfl
      exact forms_of_settled (flushed outside separates) (pending_flush scanner) mode separates
  | blank outside _ _ blank =>
      have separates : Text.isBareChar c = false := by simp [Text.isBareChar, blank]
      exact forms_of_settled (flushed outside separates) (pending_flush scanner) mode separates
  | mark outside found =>
      have separates : Text.isBareChar c = false := by simp [Text.isBareChar, found]
      refine forms_of_settled (fun lexeme member more => ?_) (pending_flush scanner) mode separates
      rw [emit, Array.toList_push, List.mem_append, List.mem_singleton] at member
      rcases member with earlier | rfl
      · exact flushed outside separates lexeme earlier more
      · exact .mark found rfl rfl
  | bare outside isBare =>
      refine ⟨unchanged rfl, fun _ => ?_⟩
      obtain ⟨before, split, unquoted, starts⟩ := forms.pending outside
      refine ⟨before, ?_, unquoted, starts⟩
      rw [collect, String.toList_push, ← List.append_assoc, ← split]
  | closed inside quote =>
      have separates : Text.isBareChar c = false := by rw [quote]; rfl
      refine forms_of_settled (fun lexeme member more => ?_) rfl mode separates
      rw [advance, closeString, emit, Array.toList_push, List.mem_append,
        List.mem_singleton] at member
      rcases member with earlier | rfl
      · exact forms.lexemes lexeme earlier (c :: more)
      · exact .string rfl
  | dropped inside feed =>
      refine ⟨unchanged rfl, fun outside => ?_⟩
      rw [breakLine, inside] at outside
      cases outside
  | quoted inside quotable =>
      refine ⟨unchanged rfl, fun outside => ?_⟩
      rw [collect, inside] at outside
      cases outside

theorem Forms.foldl (forms : Forms read scanner) (accounts : Accounts read scanner)
    (sound : scanner.Sound) (traces : Traces read scanner) (text : List Char) :
    Forms (read ++ text) (text.foldl Scanner.step scanner) := by
  induction text generalizing read scanner with
  | nil =>
      rw [List.append_nil]
      exact forms
  | cons c rest ih =>
      have stepped := ih (forms.step accounts sound traces c) (accounts.step c) (sound.step c)
        (traces.step c)
      rw [List.append_assoc, List.singleton_append] at stepped
      exact stepped

theorem Forms.finish (forms : Forms read scanner) (sound : scanner.Sound)
    (traces : Traces read scanner) : ∀ lexeme ∈ scanner.finish, lexeme.Form read := by
  intro lexeme member
  cases mode : scanner.inString with
  | false =>
      rw [finish_of_outside mode] at member
      have form : lexeme.Form (read ++ []) := forms.flush sound traces mode (by simp) lexeme member
      rwa [List.append_nil] at form
  | true =>
      rw [finish_of_inString mode, List.mem_append, List.mem_singleton] at member
      rcases member with earlier | rfl
      · have form := forms.lexemes lexeme earlier []
        rwa [List.append_nil] at form
      · exact .string rfl

end Scanner

/-- The texts of the lexemes are what is kept of the text. There is a string for every two quotes,
and one more for a quote that is left over. A lexeme that is no string is a punctuation character or
a run without a kind. -/
theorem Lexeme.scan_conserves_text (source : String) :
    String.join ((Lexeme.scan source).map Lexeme.text) = String.ofList (Text.kept source.toList) ∧
    ((Lexeme.scan source).countP fun lexeme => lexeme.kind? == some .string) =
      (source.toList.count '"' + 1) / 2 ∧
    ∀ lexeme ∈ Lexeme.scan source, lexeme.kind? ≠ some .string →
      (∃ c kind, Token.Kind.ofPunctuation? c = some kind ∧ lexeme.text = c.toString ∧
        lexeme.kind? = some kind) ∨
      (lexeme.kind? = none ∧ lexeme.IsRun source.toList) := by
  have sound := Scanner.sound_start.foldl source.toList
  have traces := Scanner.traces_start.foldl source.toList
  have accounts := Scanner.accounts_start.foldl source.toList
  have forms := Scanner.forms_start.foldl Scanner.accounts_start Scanner.sound_start
    Scanner.traces_start source.toList
  refine ⟨?_, accounts.finish.2, fun lexeme member notString => ?_⟩
  · rw [← String.toList_inj, String.toList_join, List.flatMap_map, String.toList_ofList]
    exact accounts.finish.1
  · cases forms.finish sound traces lexeme member with
    | string string => exact absurd string notString
    | mark found text kind => exact .inl ⟨_, _, found, text, kind⟩
    | run bare isRun => exact .inr ⟨bare, isRun⟩

/-- A name between a string that is broken over two lines and a mark, and a string that is left open
at the end. -/
theorem Lexeme.scan_conserves_text_of_open_string :
    String.join ((Lexeme.scan "a\"b c\n\"d> \"e").map Lexeme.text) = "ab cd>e" ∧
    ((Lexeme.scan "a\"b c\n\"d> \"e").countP fun lexeme => lexeme.kind? == some .string) = 2 ∧
    (⟨2, 2, "d", none⟩ : Lexeme) ∈ Lexeme.scan "a\"b c\n\"d> \"e" ∧
    (⟨2, 2, "d", none⟩ : Lexeme).IsRun "a\"b c\n\"d> \"e".toList := by
  have member : (⟨2, 2, "d", none⟩ : Lexeme) ∈ Lexeme.scan "a\"b c\n\"d> \"e" := by decide
  obtain ⟨joined, counted, formed⟩ := Lexeme.scan_conserves_text "a\"b c\n\"d> \"e"
  refine ⟨joined.trans (by decide), counted.trans (by decide), member, ?_⟩
  rcases formed _ member (by simp) with ⟨_, _, _, _, kind⟩ | ⟨_, isRun⟩
  · cases kind
  · exact isRun

end AudioMarkup
