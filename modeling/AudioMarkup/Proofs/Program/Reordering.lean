import AudioMarkup.Proofs.Program.Canonical
import AudioMarkup.Proofs.Program.Layout
import AudioMarkup.Proofs.Series.Truncation

/-!
Property lists as lists of entries. An entry is a name and the words of a value. Where an entry ends
is seen from the brackets alone, since a comma outside of brackets never belongs to a value, so a
list of tokens is made of the entries of one list only.

The value of an entry is read from its own words, and setting a property leaves the other properties
of the node alone. So the node has each property from the last entry with its name, and entries with
different names can change places: `Definition.parseSettings_reordered`.
-/

namespace AudioMarkup

open Parse

/-! ### The properties of a node -/

theorem Property.name_injective {property other : Property} (same : property.name = other.name) :
    property = other := by
  cases property <;> cases other <;> first | rfl | exact absurd same (by decide)

namespace Node

/-- The value of a property. There is none if the node has no such property, or no value for it. -/
def value? : Node → Property → Option PropertyValue
  | .constant value, .value => some (.expression value)
  | .oscillator source, .detune => source.detune?.map .expression
  | .oscillator source, .frequency => some (.expression source.frequency)
  | .oscillator source, .waveType => some (.text source.waveType)
  | .oscillator source, .periodicWave => source.wave?.map .expression
  | .periodicWave wave, .real => some (.series wave.real)
  | .periodicWave wave, .imaginary => some (.series wave.imaginary)
  | _, _ => none

theorem eq_of_value?_eq {node other : Node} (sameClass : node.nodeClass = other.nodeClass)
    (same : ∀ property, node.value? property = other.value? property) : node = other := by
  have optional {first second : Option Expr}
      (equal : first.map PropertyValue.expression = second.map .expression) : first = second :=
    Option.map_injective (fun _ _ => PropertyValue.expression.inj) equal
  cases node with
  | constant value =>
      cases other with
      | constant _ =>
          have values := same .value
          simp only [value?, Option.some.injEq, PropertyValue.expression.injEq] at values
          rw [values]
      | _ => cases sameClass
  | oscillator source =>
      cases other with
      | oscillator _ =>
          have detunes := optional (same .detune)
          have frequencies := same .frequency
          have types := same .waveType
          have waves := optional (same .periodicWave)
          simp only [value?, Option.some.injEq, PropertyValue.expression.injEq,
            PropertyValue.text.injEq] at frequencies types
          rw [oscillator.injEq, Oscillator.mk.injEq]
          exact ⟨detunes, frequencies, types, waves⟩
      | _ => cases sameClass
  | periodicWave wave =>
      cases other with
      | periodicWave _ =>
          have reals := same .real
          have imaginaries := same .imaginary
          simp only [value?, Option.some.injEq, PropertyValue.series.injEq] at reals imaginaries
          rw [periodicWave.injEq, PeriodicWave.mk.injEq]
          exact ⟨reals, imaginaries⟩
      | _ => cases sameClass

theorem value?_set? {node updated : Node} {property : Property} {value : PropertyValue}
    (changed : node.set? property value = some updated) (other : Property) :
    updated.value? other = if other = property then some value else node.value? other := by
  unfold set? at changed
  split at changed <;> cases changed <;> cases other <;> rfl

def Applies (nodeClass : NodeClass) (setting : Property × PropertyValue) : Prop :=
  setting.1 ∈ nodeClass.properties ∧ setting.2.shape = setting.1.shape

theorem nodeClass_setAll (node : Node) (settings : List (Property × PropertyValue)) :
    (node.setAll settings).nodeClass = node.nodeClass := by
  induction settings generalizing node with
  | nil => rfl
  | cons setting settings ih =>
      rw [setAll_cons, ih]
      cases changed : node.set? setting.1 setting.2 with
      | none => rfl
      | some updated => exact nodeClass_set? changed

/-- Of several settings of one property the last one counts. -/
theorem value?_setAll {node : Node} {settings : List (Property × PropertyValue)}
    (apply : ∀ setting ∈ settings, Applies node.nodeClass setting) (property : Property) :
    (node.setAll settings).value? property =
      ((settings.filter fun setting => setting.1 == property).getLast?.map Prod.snd).or
        (node.value? property) := by
  induction settings generalizing node with
  | nil => rfl
  | cons setting settings ih =>
      obtain ⟨changedProperty, value⟩ := setting
      have own := apply _ (List.mem_cons_self ..)
      obtain ⟨updated, changed⟩ :=
        Option.isSome_iff_exists.mp ((set?_isSome_iff node changedProperty value).mpr own)
      have laterApply : ∀ setting ∈ settings, Applies updated.nodeClass setting := by
        intro setting member
        rw [nodeClass_set? changed]
        exact apply setting (List.mem_cons_of_mem _ member)
      rw [setAll_cons, changed, Option.getD_some, ih laterApply, value?_set? changed]
      by_cases same : property = changedProperty
      · rw [if_pos same, List.filter_cons_of_pos (by rw [same, beq_self_eq_true]),
          List.getLast?_cons]
        cases (settings.filter fun setting => setting.1 == property).getLast? with
        | none => rfl
        | some _ => rfl
      · rw [if_neg same, List.filter_cons_of_neg (by rw [beq_iff_eq]; exact Ne.symm same)]

end Node

/-! ### Where a value ends -/

namespace Word

/-- The number of brackets that are open behind a word of a value. No comma of a value stands
outside of brackets, and a value has no braces. -/
def bracketsBehind? (opened : Nat) (word : Word) : Option Nat :=
  match word.kind with
  | .leftBracket => some (opened + 1)
  | .rightBracket => if opened = 0 then none else some (opened - 1)
  | .comma => if opened = 0 then none else some opened
  | .leftBrace | .rightBrace => none
  | _ => some opened

/-- The words of a value can be told from what follows them. -/
def AreBracketed (words : List Word) : Prop := words.foldlM bracketsBehind? 0 = some 0

instance (words : List Word) : Decidable (AreBracketed words) :=
  inferInstanceAs (Decidable (_ = _))

private theorem foldlM_of_unchanged {opened : Nat} {words : List Word}
    (unchanged : ∀ word ∈ words, bracketsBehind? opened word = some opened) :
    words.foldlM bracketsBehind? opened = some opened := by
  induction words with
  | nil => rfl
  | cons word words ih =>
      rw [List.foldlM_cons, unchanged word (List.mem_cons_self ..)]
      exact ih fun other member => unchanged other (List.mem_cons_of_mem _ member)

private theorem bracketsBehind?_of_tokenKinds {word : Word} (opened : Nat)
    (listed : word.kind ∈ Expr.tokenKinds) : bracketsBehind? opened word = some opened := by
  obtain ⟨kind, text⟩ := word
  cases kind with
  | leftBrace | rightBrace | leftBracket | rightBracket | comma =>
      dsimp only at listed
      exact absurd listed (by decide)
  | _ => rfl

private theorem bracketsBehind?_of_innerKinds {word : Word} (opened : Nat)
    (listed : word.kind ∈ Series.innerKinds) :
    bracketsBehind? (opened + 1) word = some (opened + 1) := by
  rcases List.mem_cons.mp listed with comma | plain
  · simp [bracketsBehind?, comma]
  · exact bracketsBehind?_of_tokenKinds (opened + 1) plain

/-- Both values end before a word that cannot stand in them. If one went on behind the end of the
other, this word would stand in it, with no bracket open. -/
private theorem eq_of_append_eq {tokens others : List Token} {mark otherMark : Token}
    {rest otherRest : List Token} {opened : Nat}
    (bracketed : (tokens.map Token.word).foldlM bracketsBehind? opened = some 0)
    (othersBracketed : (others.map Token.word).foldlM bracketsBehind? opened = some 0)
    (ends : bracketsBehind? 0 mark.word = none)
    (otherEnds : bracketsBehind? 0 otherMark.word = none)
    (same : tokens ++ mark :: rest = others ++ otherMark :: otherRest) :
    tokens = others ∧ mark = otherMark ∧ rest = otherRest := by
  induction tokens generalizing others opened with
  | nil =>
      cases others with
      | nil => exact ⟨rfl, List.cons.inj same⟩
      | cons token others =>
          obtain ⟨rfl, _⟩ := List.cons.inj same
          obtain rfl : opened = 0 := Option.some.inj bracketed
          rw [List.map_cons, List.foldlM_cons, ends] at othersBracketed
          cases othersBracketed
  | cons token tokens ih =>
      cases others with
      | nil =>
          obtain ⟨rfl, _⟩ := List.cons.inj same
          obtain rfl : opened = 0 := Option.some.inj othersBracketed
          rw [List.map_cons, List.foldlM_cons, otherEnds] at bracketed
          cases bracketed
      | cons other others =>
          obtain ⟨rfl, sameRest⟩ := List.cons.inj same
          rw [List.map_cons, List.foldlM_cons] at bracketed othersBracketed
          cases behind : bracketsBehind? opened token.word with
          | none =>
              rw [behind] at bracketed
              cases bracketed
          | some count =>
              rw [behind] at bracketed othersBracketed
              obtain ⟨rfl, marks⟩ := ih bracketed othersBracketed sameRest
              exact ⟨rfl, marks⟩

end Word

theorem PropertyValue.Spelling.areBracketed {tokens : List Token} {value : PropertyValue}
    (spelled : Spelling tokens value) : Word.AreBracketed (tokens.map Token.word) := by
  cases spelled with
  | text string => simp [Word.AreBracketed, Word.bracketsBehind?, Token.word, string]
  | expression spelled =>
      apply Word.foldlM_of_unchanged
      intro word member
      obtain ⟨token, inTokens, rfl⟩ := List.mem_map.mp member
      exact Word.bracketsBehind?_of_tokenKinds 0 (spelled.kind_mem token inTokens)
  | series spelled =>
      obtain ⟨opening, inner, closing, rfl, opened, closed, kinds⟩ := spelled.exists_inner
      have inside : (inner.map Token.word).foldlM Word.bracketsBehind? 1 = some 1 := by
        apply Word.foldlM_of_unchanged
        intro word member
        obtain ⟨token, inInner, rfl⟩ := List.mem_map.mp member
        exact Word.bracketsBehind?_of_innerKinds 0 (kinds token inInner)
      have opens : Word.bracketsBehind? 0 opening.word = some 1 := by
        simp [Word.bracketsBehind?, Token.word, opened]
      have closes : Word.bracketsBehind? 1 closing.word = some 0 := by
        simp [Word.bracketsBehind?, Token.word, closed]
      rw [Word.AreBracketed, List.map_cons, List.map_append, List.foldlM_cons, opens]
      simp [inside, closes]

/-! ### The value that words are read as -/

def Word.token (word : Word) : Token := ⟨1, 0, word.text, word.kind⟩

theorem Word.map_word_map_token (words : List Word) :
    (words.map Word.token).map Token.word = words := by
  rw [List.map_map]
  exact List.map_id words

namespace PropertyValue

def ofWords? (scope : Scope) (shape : Shape) (words : List Word) : Option PropertyValue :=
  match parse scope shape (.ofTokens (words.map Word.token)) with
  | .ok value after => if after.hasNext then none else some value
  | .error _ _ => none

/-- A value is spelled by the tokens that it is read from if nothing follows them. -/
private theorem parse_ofTokens_iff {scope : Scope} {shape : Shape} {tokens : List Token}
    {value : PropertyValue} :
    (∃ after, parse scope shape (.ofTokens tokens) = .ok value after ∧ after.hasNext = false) ↔
      Spelling tokens value ∧ value.shape = shape ∧ value.Fits scope := by
  constructor
  · rintro ⟨⟨ahead, stop⟩, success, ended⟩
    obtain rfl : ahead = [] := by simpa [Stream.hasNext] using ended
    obtain ⟨read, same, spelled⟩ := sound_parse _ _ _ success
    have all : tokens = read := by
      simpa [Stream.ofTokens] using congrArg Stream.ahead same
    rw [all]
    exact spelled
  · intro spelled
    have split : Stream.ofTokens tokens =
        Stream.unread ⟨[], (Stream.ofTokens tokens).stop⟩ tokens := by
      simp [Stream.unread, Stream.ofTokens]
    rw [split]
    exact ⟨_, complete_parse _ _ _ spelled (by simp [Stream.NoOperator, Stream.peek?]), rfl⟩

theorem ofWords?_eq_some_iff {scope : Scope} {shape : Shape} {tokens : List Token}
    {value : PropertyValue} :
    ofWords? scope shape (tokens.map Token.word) = some value ↔
      Spelling tokens value ∧ value.shape = shape ∧ value.Fits scope := by
  have alike : ((tokens.map Token.word).map Word.token).map Token.word =
      tokens.map Token.word :=
    Word.map_word_map_token _
  have outcome := parallel_parse (Token.faithful_samePlace alike) scope shape _ _
    (Token.parallel_ofTokens alike)
  rw [← parse_ofTokens_iff, ofWords?]
  generalize parse scope shape (.ofTokens ((tokens.map Token.word).map Word.token)) = left
    at outcome ⊢
  generalize parse scope shape (.ofTokens tokens) = right at outcome ⊢
  cases outcome with
  | @ok found _ _ after same rest =>
      cases same
      dsimp only
      rw [rest.hasNext_eq]
      cases ended : after.hasNext with
      | false => simp [ended]
      | true => simp [ended]
  | error _ _ => simp

end PropertyValue

/-! ### Entries -/

namespace Definition

structure Entry where
  name : String
  value : List Word
  deriving DecidableEq, Repr

namespace Entry

inductive Spelling : List Token → Entry → Prop where
  | intro {name colon : Token} {tokens : List Token} :
      name.kind = .name → colon.kind = .colon → Word.AreBracketed (tokens.map Token.word) →
      Spelling (name :: colon :: tokens) ⟨name.text, tokens.map Token.word⟩

abbrev Lists (tokens : List Token) (entries : List Entry) : Prop :=
  DelimitedSpelling .leftBrace .rightBrace Spelling tokens entries

def words (entry : Entry) : List Word :=
  ⟨.name, entry.name⟩ :: ⟨.colon, ":"⟩ :: entry.value

def listWords (entries : List Entry) : List Word :=
  ⟨.leftBrace, "\x7b"⟩ :: Word.separated ⟨.rightBrace, "\x7d"⟩ words entries

def setting? (nodeClass : NodeClass) (scope : Scope) (entry : Entry) :
    Option (Property × PropertyValue) := do
  let property ← nodeClass.property? entry.name
  let value ← PropertyValue.ofWords? scope property.shape entry.value
  pure (property, value)

/-- The same entries in another order, in which those with one name stay in their order. -/
structure Reorders (entries reordered : List Entry) : Prop where
  perm : entries.Perm reordered
  sameName : ∀ name, (entries.filter fun entry => entry.name == name) =
    reordered.filter fun entry => entry.name == name

variable {nodeClass : NodeClass} {scope : Scope}

theorem setting?_eq_some_iff {entry : Entry} {setting : Property × PropertyValue} :
    entry.setting? nodeClass scope = some setting ↔
      nodeClass.property? entry.name = some setting.1 ∧
        PropertyValue.ofWords? scope setting.1.shape entry.value = some setting.2 := by
  obtain ⟨property, value⟩ := setting
  constructor
  · intro found
    obtain ⟨known, named, rest⟩ := Option.bind_eq_some_iff.mp found
    obtain ⟨read, valueRead, finished⟩ := Option.bind_eq_some_iff.mp rest
    cases finished
    exact ⟨named, valueRead⟩
  · rintro ⟨named, valueRead⟩
    simp only at named valueRead
    rw [setting?, named]
    simp [valueRead]

theorem settingSpelling_iff {tokens : List Token} {setting : Property × PropertyValue} :
    SettingSpelling nodeClass tokens setting ∧ setting.2.Fits scope ↔
      ∃ entry, Spelling tokens entry ∧ entry.setting? nodeClass scope = some setting := by
  constructor
  · rintro ⟨@⟨name, colon, tokens, property, value, nameKind, found, colonKind, spelled, shape⟩,
      fits⟩
    exact ⟨_, .intro nameKind colonKind spelled.areBracketed, setting?_eq_some_iff.mpr
      ⟨found, PropertyValue.ofWords?_eq_some_iff.mpr ⟨spelled, shape, fits⟩⟩⟩
  · rintro ⟨_, ⟨nameKind, colonKind, _⟩, read⟩
    obtain ⟨property, value⟩ := setting
    obtain ⟨found, valueRead⟩ := setting?_eq_some_iff.mp read
    obtain ⟨spelled, shape, fits⟩ := PropertyValue.ofWords?_eq_some_iff.mp valueRead
    exact ⟨.intro nameKind found colonKind spelled shape, fits⟩

/-- The setting is one of the property that the entry names, and it applies to the class. -/
theorem applies_of_setting? {entry : Entry} {setting : Property × PropertyValue}
    (found : entry.setting? nodeClass scope = some setting) :
    entry.name = setting.1.name ∧ Node.Applies nodeClass setting := by
  obtain ⟨named, valueRead⟩ := setting?_eq_some_iff.mp found
  rw [NodeClass.property?] at named
  have sameName : setting.1.name = entry.name := by simpa using List.find?_some named
  rw [← Word.map_word_map_token entry.value] at valueRead
  obtain ⟨_, shape, _⟩ := PropertyValue.ofWords?_eq_some_iff.mp valueRead
  exact ⟨sameName.symm, List.mem_of_find?_eq_some named, shape⟩

/-! A list of tokens has one list of entries. -/

private theorem Spelling.eq_of_append_eq {tokens others : List Token} {entry other : Entry}
    {mark otherMark : Token} {rest otherRest : List Token} (spelled : Spelling tokens entry)
    (otherSpelled : Spelling others other) (ends : mark.kind = .comma ∨ mark.kind = .rightBrace)
    (otherEnds : otherMark.kind = .comma ∨ otherMark.kind = .rightBrace)
    (same : tokens ++ mark :: rest = others ++ otherMark :: otherRest) :
    entry = other ∧ mark = otherMark ∧ rest = otherRest := by
  have stops {mark : Token} (ends : mark.kind = .comma ∨ mark.kind = .rightBrace) :
      Word.bracketsBehind? 0 mark.word = none := by
    rcases ends with comma | brace
    · simp [Word.bracketsBehind?, Token.word, comma]
    · simp [Word.bracketsBehind?, Token.word, brace]
  obtain ⟨_, _, bracketed⟩ := spelled
  obtain ⟨_, _, otherBracketed⟩ := otherSpelled
  simp only [List.cons_append, List.cons.injEq] at same
  obtain ⟨rfl, rfl, sameValue⟩ := same
  obtain ⟨rfl, marks⟩ :=
    Word.eq_of_append_eq bracketed otherBracketed (stops ends) (stops otherEnds) sameValue
  exact ⟨rfl, marks⟩

private theorem listSpelling_unique {tokens : List Token} {entries others : List Entry}
    (spelled : ListSpelling .rightBrace Spelling tokens entries)
    (otherwise : ListSpelling .rightBrace Spelling tokens others) : entries = others := by
  induction spelled generalizing others with
  | @last part entry mark own closed =>
      generalize split : part ++ [mark] = tokens at otherwise
      cases otherwise with
      | last otherOwn otherClosed =>
          obtain ⟨rfl, _⟩ := own.eq_of_append_eq otherOwn (.inr closed) (.inr otherClosed) split
          rfl
      | more otherOwn comma _ =>
          obtain ⟨_, rfl, _⟩ := own.eq_of_append_eq otherOwn (.inr closed) (.inl comma) split
          rw [closed] at comma
          cases comma
  | @more part rest entry entries mark own comma _ ih =>
      generalize split : part ++ mark :: rest = tokens at otherwise
      cases otherwise with
      | last otherOwn closed =>
          obtain ⟨_, rfl, _⟩ := own.eq_of_append_eq otherOwn (.inl comma) (.inr closed) split
          rw [closed] at comma
          cases comma
      | more otherOwn otherComma otherRest =>
          obtain ⟨rfl, _, rfl⟩ :=
            own.eq_of_append_eq otherOwn (.inl comma) (.inl otherComma) split
          rw [ih otherRest]

theorem Lists.unique {tokens : List Token} {entries others : List Entry}
    (spelled : Lists tokens entries) (otherwise : Lists tokens others) : entries = others := by
  -- An entry has at least two tokens before its mark.
  have several {last : Token} {entries : List Entry} :
      ¬ ListSpelling .rightBrace Spelling [last] entries := by
    intro spelled
    generalize single : [last] = tokens at spelled
    cases spelled with
    | last own _ | more own _ _ =>
        cases own
        cases single
  cases spelled with
  | empty _ _ =>
      cases otherwise with
      | empty _ _ => rfl
      | items _ listed => exact absurd listed several
  | items _ listed =>
      cases otherwise with
      | empty _ _ => exact absurd listed several
      | items _ otherListed => exact listSpelling_unique listed otherListed

theorem Lists.areBracketed {tokens : List Token} {entries : List Entry} {entry : Entry}
    (spelled : Lists tokens entries) (member : entry ∈ entries) :
    Word.AreBracketed entry.value := by
  obtain ⟨_, _, ⟨_, _, bracketed⟩⟩ := spelled.exists_item member
  exact bracketed

theorem lists_of_listWords {entries : List Entry}
    (bracketed : ∀ entry ∈ entries, Word.AreBracketed entry.value) {tokens : List Token}
    (same : tokens.map Token.word = listWords entries) : Lists tokens entries := by
  apply Word.delimitedSpelling_of_words ?_ same
  intro entry member entryTokens sameEntry
  obtain ⟨name, behind, rfl, sameName, sameBehind⟩ := List.map_eq_cons_iff.mp sameEntry
  obtain ⟨colon, value, rfl, sameColon, sameValue⟩ := List.map_eq_cons_iff.mp sameBehind
  have whole := bracketed entry member
  obtain ⟨text, words⟩ := entry
  obtain ⟨nameKind, rfl⟩ := Word.mk.inj sameName
  subst sameValue
  exact .intro nameKind (congrArg Word.kind sameColon) whole

/-! ### The node that entries make -/

/-- The settings of a property come from the entries with its name. -/
private theorem map_filter {entries : List Entry} {settings : List (Property × PropertyValue)}
    (read : entries.map (setting? nodeClass scope) = settings.map some) (property : Property) :
    (entries.filter fun entry => entry.name == property.name).map (setting? nodeClass scope) =
      (settings.filter fun setting => setting.1 == property).map some := by
  induction entries generalizing settings with
  | nil =>
      rw [List.map_eq_nil_iff.mp read.symm]
      rfl
  | cons entry entries ih =>
      obtain ⟨setting, others, rfl, found, othersRead⟩ := List.map_eq_cons_iff.mp read.symm
      obtain ⟨named, _⟩ := applies_of_setting? found.symm
      have rest := ih othersRead.symm
      by_cases same : setting.1 = property
      · rw [List.filter_cons_of_pos (by rw [named, same, beq_self_eq_true]),
          List.filter_cons_of_pos (by rw [same, beq_self_eq_true]), List.map_cons, List.map_cons,
          rest, found]
      · have different : entry.name ≠ property.name := by
          rw [named]
          exact fun sameName => same (Property.name_injective sameName)
        rw [List.filter_cons_of_neg (by rw [beq_iff_eq]; exact different),
          List.filter_cons_of_neg (by rw [beq_iff_eq]; exact same), rest]

/-- Each entry has its setting wherever it stands in a list. -/
private theorem exists_settings_of_perm {entries reordered : List Entry}
    {settings : List (Property × PropertyValue)}
    (read : entries.map (setting? nodeClass scope) = settings.map some)
    (perm : entries.Perm reordered) :
    ∃ otherSettings : List (Property × PropertyValue),
      reordered.map (setting? nodeClass scope) = otherSettings.map some := by
  induction perm generalizing settings with
  | nil => exact ⟨[], rfl⟩
  | cons entry _ ih =>
      obtain ⟨setting, others, rfl, found, othersRead⟩ := List.map_eq_cons_iff.mp read.symm
      obtain ⟨otherSettings, otherRead⟩ := ih othersRead.symm
      exact ⟨setting :: otherSettings, by rw [List.map_cons, List.map_cons, found, otherRead]⟩
  | swap first second entries =>
      obtain ⟨setting, more, rfl, found, moreRead⟩ := List.map_eq_cons_iff.mp read.symm
      obtain ⟨other, others, rfl, otherFound, othersRead⟩ := List.map_eq_cons_iff.mp moreRead
      exact ⟨other :: setting :: others, by simp [found, otherFound, othersRead]⟩
  | trans _ _ first second =>
      obtain ⟨between, betweenRead⟩ := first read
      exact second betweenRead

theorem value?_setAll {entries : List Entry} {settings : List (Property × PropertyValue)}
    (read : entries.map (setting? nodeClass scope) = settings.map some) (property : Property) :
    ((Node.initial nodeClass).setAll settings).value? property =
      (((entries.filter fun entry => entry.name == property.name).getLast?.bind
        (setting? nodeClass scope)).map Prod.snd).or
        ((Node.initial nodeClass).value? property) := by
  have applies : ∀ setting ∈ settings, Node.Applies (Node.initial nodeClass).nodeClass setting := by
    intro setting member
    have among : some setting ∈ entries.map (setting? nodeClass scope) := by
      rw [read]
      exact List.mem_map_of_mem member
    obtain ⟨entry, _, found⟩ := List.mem_map.mp among
    rw [Node.nodeClass_initial]
    exact (applies_of_setting? found).2
  have last := congrArg List.getLast? (map_filter read property)
  rw [List.getLast?_map, List.getLast?_map] at last
  rw [Node.value?_setAll applies]
  cases counted : (entries.filter fun entry => entry.name == property.name).getLast? with
  | none =>
      rw [counted, Option.map_none, eq_comm, Option.map_eq_none_iff] at last
      rw [last]
      rfl
  | some entry =>
      rw [counted, Option.map_some, eq_comm, Option.map_eq_some_iff] at last
      obtain ⟨setting, lastSetting, found⟩ := last
      rw [lastSetting, Option.bind_some, ← found]

theorem value?_of_last {entries : List Entry} {settings : List (Property × PropertyValue)}
    (read : entries.map (setting? nodeClass scope) = settings.map some) {property : Property}
    {entry : Entry}
    (last : (entries.filter fun entry => entry.name == property.name).getLast? = some entry) :
    ∃ value, PropertyValue.ofWords? scope property.shape entry.value = some value ∧
      ((Node.initial nodeClass).setAll settings).value? property = some value := by
  obtain ⟨member, named⟩ := List.mem_filter.mp (List.mem_of_getLast? last)
  have among : entry.setting? nodeClass scope ∈ settings.map some := by
    rw [← read]
    exact List.mem_map_of_mem member
  obtain ⟨setting, _, found⟩ := List.mem_map.mp among
  obtain ⟨ownName, _⟩ := applies_of_setting? found.symm
  obtain rfl : setting.1 = property :=
    Property.name_injective (ownName.symm.trans (eq_of_beq named))
  refine ⟨setting.2, (setting?_eq_some_iff.mp found.symm).2, ?_⟩
  rw [value?_setAll read, last, Option.bind_some, ← found]
  rfl

end Entry

variable {nodeClass : NodeClass} {scope : Scope}

theorem parseSettings_eq_ok_iff_entries {before after : Stream}
    {settings : List (Property × PropertyValue)} :
    parseSettings nodeClass scope before = .ok settings after ↔
      ∃ tokens entries, before = after.unread tokens ∧ Entry.Lists tokens entries ∧
        entries.map (Entry.setting? nodeClass scope) = settings.map some := by
  have listed (tokens : List Token) :
      DelimitedSpelling .leftBrace .rightBrace (SettingSpelling nodeClass) tokens settings ∧
          (∀ setting ∈ settings, setting.2.Fits scope) ↔
        ∃ entries, Entry.Lists tokens entries ∧
          entries.map (Entry.setting? nodeClass scope) = settings.map some := by
    rw [← delimitedSpelling_and_iff]
    apply delimitedSpelling_iff_exists_read
    intro itemTokens setting
    exact Entry.settingSpelling_iff
  simp only [parseSettings_eq_ok_iff, listed, exists_and_left]

/-- Entries with different names can change places in a property list that is accepted, and of
those with one name the last one counts. -/
theorem parseSettings_reordered {before after : Stream}
    {settings : List (Property × PropertyValue)}
    (accepted : parseSettings nodeClass scope before = .ok settings after) :
    ∃ tokens entries, before = after.unread tokens ∧ Entry.Lists tokens entries ∧
      (∀ others, Entry.Lists tokens others → others = entries) ∧
      (∀ reordered, Entry.Reorders entries reordered →
        (∃ otherTokens, Entry.Lists otherTokens reordered) ∧
        ∀ otherTokens rest, Entry.Lists otherTokens reordered →
          ∃ otherSettings,
            parseSettings nodeClass scope (rest.unread otherTokens) = .ok otherSettings rest ∧
            (Node.initial nodeClass).setAll otherSettings =
              (Node.initial nodeClass).setAll settings) ∧
      ∀ property : Property,
        (∀ entry, (entries.filter fun entry => entry.name == property.name).getLast? = some entry →
          ∃ value, PropertyValue.ofWords? scope property.shape entry.value = some value ∧
            ((Node.initial nodeClass).setAll settings).value? property = some value) ∧
        ((∀ entry ∈ entries, entry.name ≠ property.name) →
          ((Node.initial nodeClass).setAll settings).value? property =
            (Node.initial nodeClass).value? property) := by
  obtain ⟨tokens, entries, rfl, listed, read⟩ := parseSettings_eq_ok_iff_entries.mp accepted
  refine ⟨tokens, entries, rfl, listed, fun others otherListed =>
    Entry.Lists.unique otherListed listed, ?_, fun property => ⟨?_, ?_⟩⟩
  · intro reordered reorders
    constructor
    · refine ⟨(Entry.listWords reordered).map Word.token,
        Entry.lists_of_listWords (fun entry member => ?_) (Word.map_word_map_token _)⟩
      exact Entry.Lists.areBracketed listed (reorders.perm.mem_iff.mpr member)
    intro otherTokens rest otherListed
    obtain ⟨otherSettings, otherRead⟩ := Entry.exists_settings_of_perm read reorders.perm
    refine ⟨otherSettings,
      parseSettings_eq_ok_iff_entries.mpr ⟨otherTokens, reordered, rfl, otherListed, otherRead⟩,
      Node.eq_of_value?_eq ?_ fun property => ?_⟩
    · rw [Node.nodeClass_setAll, Node.nodeClass_setAll]
    · rw [Entry.value?_setAll otherRead, Entry.value?_setAll read, reorders.sameName]
  · intro entry last
    exact Entry.value?_of_last read last
  · intro unnamed
    have none : (entries.filter fun entry => entry.name == property.name) = [] := by
      simpa using unnamed
    rw [Entry.value?_setAll read, none]
    rfl

theorem parseSettings_reordered_of_repeated_name :
    ∃ settings, parseSettings .oscillator (.ofNames [])
        ((Stream.ofTokens []).unread ((Entry.listWords [⟨"type", [⟨.string, "saw"⟩]⟩,
          ⟨"frequency", [⟨.number, "1"⟩]⟩, ⟨"frequency", [⟨.number, "2"⟩]⟩]).map Word.token)) =
        .ok settings (.ofTokens []) ∧
      (Node.initial .oscillator).setAll settings = .oscillator
        { detune? := none, frequency := .number ⟨0x4000000000000000⟩, waveType := "saw",
          wave? := none } := by
  have accepted : parseSettings .oscillator (.ofNames [])
      ((Stream.ofTokens []).unread ((Entry.listWords [⟨"frequency", [⟨.number, "1"⟩]⟩,
        ⟨"type", [⟨.string, "saw"⟩]⟩, ⟨"frequency", [⟨.number, "2"⟩]⟩]).map Word.token)) =
      .ok [(.frequency, .expression (.number ⟨0x3ff0000000000000⟩)), (.waveType, .text "saw"),
        (.frequency, .expression (.number ⟨0x4000000000000000⟩))] (.ofTokens []) := by
    decide +kernel
  obtain ⟨tokens, entries, same, _, unique, accepts, _⟩ := parseSettings_reordered accepted
  obtain rfl : (Entry.listWords _).map Word.token = tokens := by
    simpa [Stream.ofTokens] using congrArg Stream.ahead same
  obtain rfl := unique _ (Entry.lists_of_listWords (by decide) (Word.map_word_map_token _))
  have reorders : Entry.Reorders [⟨"frequency", [⟨.number, "1"⟩]⟩, ⟨"type", [⟨.string, "saw"⟩]⟩,
        ⟨"frequency", [⟨.number, "2"⟩]⟩]
      [⟨"type", [⟨.string, "saw"⟩]⟩, ⟨"frequency", [⟨.number, "1"⟩]⟩,
        ⟨"frequency", [⟨.number, "2"⟩]⟩] := by
    refine ⟨by decide, fun name => ?_⟩
    by_cases first : "frequency" = name
    · subst first
      decide
    · simp [List.filter_cons, first]
  exact (accepts _ reorders).2 _ (.ofTokens [])
    (Entry.lists_of_listWords (by decide) (Word.map_word_map_token _))

end Definition
end AudioMarkup
