import AudioMarkup.Program.Parse
import AudioMarkup.Proofs.Series.Grammar

/-!
The grammar of definitions and programs. `Definition.Spelling` has the tokens of one definition and
keeps its settings in the order in which they were written, since a later setting of a property
replaces an earlier one. `Definition.Admitted` is what reading asks of a definition after others:
its name is new and not reserved, it refers to earlier names only, and it is exported only with a
name.

`Program.Spelling` follows the definitions one by one with the names defined so far, and
`Program.ofTokens_eq_ok_iff` states that exactly the token lists it describes are programs.
-/

namespace AudioMarkup

open Parse

/-! ### Values and settings -/

namespace PropertyValue

inductive Spelling : List Token → PropertyValue → Prop where
  | text {token : Token} : token.kind = .string → Spelling [token] (.text token.text)
  | expression {tokens : List Token} {expr : Expr} :
      Expr.Spelling tokens expr → Spelling tokens (.expression expr)
  | series {tokens : List Token} {values : Series} :
      Series.Spelling tokens values → Spelling tokens (.series values)

def Fits (scope : Scope) : PropertyValue → Prop
  | .text _ => True
  | .expression expr => expr.Fits scope nestingLimit
  | .series values => values.Fits scope

variable {scope : Scope} {shape : Shape}

theorem sound_parse : (parse scope shape).Sound fun tokens value =>
    Spelling tokens value ∧ value.shape = shape ∧ value.Fits scope := by
  intro before value after success
  cases shape with
  | text =>
      obtain ⟨token, afterToken, tokenRead, finished⟩ := bind_eq_ok.mp success
      obtain ⟨string, rfl⟩ := expect_eq_ok_iff.mp tokenRead
      obtain ⟨rfl, rfl⟩ := pure_eq_ok_iff.mp finished
      exact ⟨[token], rfl, .text string, rfl, trivial⟩
  | expression =>
      obtain ⟨expr, afterExpr, exprRead, finished⟩ := bind_eq_ok.mp success
      obtain ⟨tokens, rfl, spelled, fits⟩ := Expr.sound_parseWithin _ _ _ _ _ exprRead
      obtain ⟨rfl, rfl⟩ := pure_eq_ok_iff.mp finished
      exact ⟨tokens, rfl, .expression spelled, rfl, fits⟩
  | series =>
      obtain ⟨values, afterSeries, seriesRead, finished⟩ := bind_eq_ok.mp success
      obtain ⟨tokens, rfl, spelled, fits⟩ := Series.parse_eq_ok_iff.mp seriesRead
      obtain ⟨rfl, rfl⟩ := pure_eq_ok_iff.mp finished
      exact ⟨tokens, rfl, .series spelled, rfl, fits⟩

theorem complete_parse : (parse scope shape).Complete
    (fun tokens value => Spelling tokens value ∧ value.shape = shape ∧ value.Fits scope)
    Stream.NoOperator := by
  rintro tokens value after ⟨spelled, rfl, fits⟩ ends
  cases spelled with
  | text string => exact bind_of_ok (expect_unread after string)
  | expression spelled =>
      exact bind_of_ok (Expr.complete_parseWithin _ _ _ _ _ ⟨spelled, fits⟩ ends)
  | series spelled =>
      exact bind_of_ok (Series.parse_eq_ok_iff.mpr ⟨tokens, rfl, spelled, fits⟩)

end PropertyValue

namespace Definition

inductive SettingSpelling (nodeClass : NodeClass) :
    List Token → Property × PropertyValue → Prop where
  | intro {name colon : Token} {tokens : List Token} {property : Property} {value : PropertyValue} :
      name.kind = .name → nodeClass.property? name.text = some property → colon.kind = .colon →
      PropertyValue.Spelling tokens value → value.shape = property.shape →
      SettingSpelling nodeClass (name :: colon :: tokens) (property, value)

variable {nodeClass : NodeClass} {scope : Scope}

theorem parseProperty_eq_ok_iff {before after : Stream} {property : Property} :
    parseProperty nodeClass before = .ok property after ↔
      ∃ name colon, name.kind = .name ∧ nodeClass.property? name.text = some property ∧
        colon.kind = .colon ∧ before = after.unread [name, colon] := by
  constructor
  · intro success
    obtain ⟨name, afterName, nameRead, propertyRead⟩ := bind_eq_ok.mp success
    obtain ⟨nameKind, rfl⟩ := expect_eq_ok_iff.mp nameRead
    cases found : nodeClass.property? name.text with
    | none =>
        simp only [found] at propertyRead
        exact absurd propertyRead fail_ne_ok
    | some known =>
        simp only [found] at propertyRead
        obtain ⟨colon, afterColon, colonRead, finished⟩ := bind_eq_ok.mp propertyRead
        obtain ⟨colonKind, rfl⟩ := expect_eq_ok_iff.mp colonRead
        obtain ⟨rfl, rfl⟩ := pure_eq_ok_iff.mp finished
        exact ⟨name, colon, nameKind, found, colonKind, rfl⟩
  · rintro ⟨name, colon, nameKind, found, colonKind, rfl⟩
    have nameRead : expect .name (after.unread [name, colon]) = .ok name (after.unread [colon]) :=
      expect_unread (after.unread [colon]) nameKind
    rw [parseProperty, bind_of_ok nameRead]
    simp only [found]
    exact bind_of_ok (expect_unread after colonKind)

theorem sound_parseSetting : (parseSetting nodeClass scope).Sound fun tokens setting =>
    SettingSpelling nodeClass tokens setting ∧ setting.2.Fits scope := by
  intro before setting after success
  obtain ⟨property, afterProperty, propertyRead, remainder⟩ := bind_eq_ok.mp success
  obtain ⟨value, afterValue, valueRead, finished⟩ := bind_eq_ok.mp remainder
  obtain ⟨rfl, rfl⟩ := pure_eq_ok_iff.mp finished
  obtain ⟨tokens, rfl, spelled, shape, fits⟩ := PropertyValue.sound_parse _ _ _ valueRead
  obtain ⟨name, colon, nameKind, found, colonKind, rfl⟩ := parseProperty_eq_ok_iff.mp propertyRead
  exact ⟨name :: colon :: tokens, Stream.unread_unread _ _ _,
    .intro nameKind found colonKind spelled shape, fits⟩

theorem complete_parseSetting : (parseSetting nodeClass scope).Complete
    (fun tokens setting => SettingSpelling nodeClass tokens setting ∧ setting.2.Fits scope)
    Stream.NoOperator := by
  rintro tokens setting after ⟨spelled, fits⟩ ends
  obtain @⟨name, colon, tokens, property, value, nameKind, found, colonKind, spelled, shape⟩ :=
    spelled
  have propertyRead : parseProperty nodeClass (after.unread (name :: colon :: tokens)) =
      .ok property (after.unread tokens) :=
    parseProperty_eq_ok_iff.mpr ⟨name, colon, nameKind, found, colonKind, rfl⟩
  have valueRead : PropertyValue.parse scope property.shape (after.unread tokens) =
      .ok value after :=
    PropertyValue.complete_parse _ _ _ ⟨spelled, shape, fits⟩ ends
  rw [parseSetting, bind_of_ok propertyRead, bind_of_ok valueRead]
  rfl

private theorem settingSpelling_starts {tokens : List Token} {setting : Property × PropertyValue}
    (spelled : SettingSpelling nodeClass tokens setting ∧ setting.2.Fits scope) :
    ∃ first rest, tokens = first :: rest ∧ first.kind ≠ .rightBrace := by
  obtain ⟨@⟨name, colon, rest, _, _, nameKind, _, _, _, _⟩, _⟩ := spelled
  refine ⟨name, colon :: rest, rfl, ?_⟩
  rw [nameKind]
  decide

theorem parseSettings_eq_ok_iff {before after : Stream}
    {settings : List (Property × PropertyValue)} :
    parseSettings nodeClass scope before = .ok settings after ↔
      ∃ tokens, before = after.unread tokens ∧
        DelimitedSpelling .leftBrace .rightBrace (SettingSpelling nodeClass) tokens settings ∧
        ∀ setting ∈ settings, setting.2.Fits scope := by
  constructor
  · intro success
    obtain ⟨tokens, same, spelled⟩ :=
      sound_delimited .leftBrace sound_parseSetting _ _ _ success
    exact ⟨tokens, same, delimitedSpelling_and_iff.mp spelled⟩
  · rintro ⟨tokens, rfl, spelled⟩
    exact complete_delimited .leftBrace complete_parseSetting (by decide)
      (Stream.noOperator_of_mark rfl) (fun _ _ => settingSpelling_starts) _ _ _
      (delimitedSpelling_and_iff.mpr spelled) trivial

/-! ### Definitions -/

inductive NameSpelling : List Token → Option String → Prop where
  | anonymous : NameSpelling [] none
  | named {token : Token} :
      token.kind = .name ∨ token.kind = .className → NameSpelling [token] (some token.text)

inductive ExportSpelling : List Token → Bool → Prop where
  | kept : ExportSpelling [] false
  | exported {token : Token} : token.isKeyword exportKeyword = true → ExportSpelling [token] true

/-- The tokens of a definition, with its settings as they were written. -/
inductive Spelling : List Token → List (Property × PropertyValue) → Definition → Prop where
  | intro {classToken : Token} {nameTokens settingTokens exportTokens : List Token}
      {nodeClass : NodeClass} {name? : Option String} {settings : List (Property × PropertyValue)}
      {exported : Bool} :
      classToken.kind = .className → NodeClass.ofName? classToken.text = some nodeClass →
      NameSpelling nameTokens name? →
      DelimitedSpelling .leftBrace .rightBrace (SettingSpelling nodeClass) settingTokens settings →
      ExportSpelling exportTokens exported →
      Spelling (classToken :: (nameTokens ++ (settingTokens ++ exportTokens))) settings
        { name?, exported, node := (Node.initial nodeClass).setAll settings }

structure Admitted (context : String) (defined : List String)
    (settings : List (Property × PropertyValue)) (definition : Definition) : Prop where
  unreserved : ∀ name, definition.name? = some name → isReservedName context name = false
  fresh : ∀ name, definition.name? = some name → name ∉ defined
  fits : ∀ setting ∈ settings, setting.2.Fits (.ofNames defined)
  named : definition.exported = true → definition.name?.isSome = true

theorem parseClass_eq_ok_iff {before after : Stream} {token : Token} :
    parseClass before = .ok (token, nodeClass) after ↔
      token.kind = .className ∧ NodeClass.ofName? token.text = some nodeClass ∧
        before = after.unread [token] := by
  constructor
  · intro success
    obtain ⟨classToken, afterToken, tokenRead, classRead⟩ := bind_eq_ok.mp success
    obtain ⟨kind, rfl⟩ := expect_eq_ok_iff.mp tokenRead
    cases found : NodeClass.ofName? classToken.text with
    | none =>
        simp only [found] at classRead
        exact absurd classRead fail_ne_ok
    | some known =>
        simp only [found] at classRead
        obtain ⟨same, rfl⟩ := pure_eq_ok_iff.mp classRead
        cases same
        exact ⟨kind, found, rfl⟩
  · rintro ⟨kind, found, rfl⟩
    rw [parseClass, bind_of_ok (expect_unread after kind)]
    simp only [found]
    rfl

variable {context : String} {defined : List String}

theorem parseName_eq_ok {before after : Stream} {name? : Option String}
    (success : parseName context defined before = .ok name? after) :
    ∃ tokens, before = after.unread tokens ∧ NameSpelling tokens name? ∧
      ∀ name, name? = some name → isReservedName context name = false ∧ name ∉ defined := by
  obtain ⟨token?, afterToken, tokenRead, nameRead⟩ := bind_eq_ok.mp success
  cases token? with
  | none =>
      obtain ⟨rfl, _⟩ := takeIf_eq_none_iff.mp tokenRead
      obtain ⟨rfl, rfl⟩ := pure_eq_ok_iff.mp nameRead
      exact ⟨[], rfl, .anonymous, fun _ impossible => by cases impossible⟩
  | some token =>
      obtain ⟨word, rfl⟩ := takeIf_eq_some_iff.mp tokenRead
      simp only [Bool.or_eq_true, beq_iff_eq] at word
      cases reserved : isReservedName context token.text with
      | true =>
          simp only [reserved, if_true] at nameRead
          exact absurd nameRead fail_ne_ok
      | false =>
          cases known : defined.contains token.text with
          | true =>
              simp only [reserved, known, Bool.false_eq_true, if_false, if_true] at nameRead
              exact absurd nameRead fail_ne_ok
          | false =>
              simp only [reserved, known, Bool.false_eq_true, if_false] at nameRead
              obtain ⟨rfl, rfl⟩ := pure_eq_ok_iff.mp nameRead
              refine ⟨[token], rfl, .named word, fun name same => ?_⟩
              cases same
              refine ⟨reserved, fun member => ?_⟩
              rw [List.contains_iff_mem.mpr member] at known
              cases known

theorem parseName_unread {tokens : List Token} {name? : Option String} {after : Stream}
    (spelled : NameSpelling tokens name?)
    (unreserved : ∀ name, name? = some name → isReservedName context name = false)
    (fresh : ∀ name, name? = some name → name ∉ defined)
    (braced : ∀ token, after.peek? = some token → token.kind = .leftBrace) :
    parseName context defined (after.unread tokens) = .ok name? after := by
  cases spelled with
  | anonymous =>
      have nothingTaken : takeIf (fun token => token.kind == .name || token.kind == .className)
          after = .ok none after := by
        refine takeIf_eq_none_iff.mpr ⟨rfl, fun token found => ?_⟩
        rw [braced token found]
        rfl
      exact bind_of_ok nothingTaken
  | @named token word =>
      have taken : takeIf (fun token => token.kind == .name || token.kind == .className)
          (after.unread [token]) = .ok (some token) after := by
        refine takeIf_eq_some_iff.mpr ⟨?_, rfl⟩
        simpa only [Bool.or_eq_true, beq_iff_eq] using word
      have unknown : defined.contains token.text = false := by
        rw [← Bool.not_eq_true, List.contains_iff_mem]
        exact fresh _ rfl
      rw [parseName, bind_of_ok taken]
      simp only [unreserved _ rfl, unknown, Bool.false_eq_true, if_false]
      rfl

theorem parseExport_eq_ok {classToken : Token} {name? : Option String} {before after : Stream}
    {exported : Bool} (success : parseExport classToken name? before = .ok exported after) :
    ∃ tokens, before = after.unread tokens ∧ ExportSpelling tokens exported ∧
      (exported = true → name?.isSome = true) := by
  unfold parseExport at success
  split at success
  · cases success
    exact ⟨[], rfl, .kept, fun impossible => by cases impossible⟩
  · rename_i token found
    split at success
    · rename_i keyword
      cases name? with
      | none => cases success
      | some name =>
          cases success
          obtain ⟨rest, ahead⟩ : ∃ rest, before.ahead = token :: rest :=
            List.head?_eq_some_iff.mp found
          refine ⟨[token], ?_, .exported keyword, fun _ => rfl⟩
          rw [ahead]
          exact Stream.eq_unread_of_ahead ahead
    · cases success
      exact ⟨[], rfl, .kept, fun impossible => by cases impossible⟩

theorem parseExport_unread {tokens : List Token} {classToken : Token} {name? : Option String}
    {exported : Bool} {after : Stream} (spelled : ExportSpelling tokens exported)
    (named : exported = true → name?.isSome = true)
    (ends : exported = false → ∀ token, after.peek? = some token →
      token.isKeyword exportKeyword = false) :
    parseExport classToken name? (after.unread tokens) = .ok exported after := by
  cases spelled with
  | kept =>
      rw [Stream.unread_nil]
      cases found : after.peek? with
      | none => simp only [parseExport, found]
      | some token =>
          simp only [parseExport, found, ends rfl token found, Bool.false_eq_true, if_false]
  | @exported token keyword =>
      obtain ⟨name, rfl⟩ := Option.isSome_iff_exists.mp (named rfl)
      simp only [parseExport, Stream.peek?_unread_cons, keyword, if_true]
      rfl

def NoExport (stream : Stream) : Prop :=
  ∀ token, stream.peek? = some token → token.isKeyword exportKeyword = false

theorem sound_parse (context : String) (defined : List String) :
    (parse context defined).Sound fun tokens definition =>
      ∃ settings, Spelling tokens settings definition ∧
        Admitted context defined settings definition := by
  intro before definition after success
  obtain ⟨⟨classToken, nodeClass⟩, afterClass, classRead, afterClassRead⟩ := bind_eq_ok.mp success
  obtain ⟨name?, afterName, nameRead, afterNameRead⟩ := bind_eq_ok.mp afterClassRead
  obtain ⟨settings, afterSettings, settingsRead, afterSettingsRead⟩ := bind_eq_ok.mp afterNameRead
  obtain ⟨exported, afterExport, exportRead, finished⟩ := bind_eq_ok.mp afterSettingsRead
  obtain ⟨rfl, rfl⟩ := pure_eq_ok_iff.mp finished
  obtain ⟨exportTokens, rfl, exportSpelled, named⟩ := parseExport_eq_ok exportRead
  obtain ⟨settingTokens, rfl, settingsSpelled, fits⟩ := parseSettings_eq_ok_iff.mp settingsRead
  obtain ⟨nameTokens, rfl, nameSpelled, nameFree⟩ := parseName_eq_ok nameRead
  obtain ⟨classKind, found, rfl⟩ := parseClass_eq_ok_iff.mp classRead
  refine ⟨classToken :: (nameTokens ++ (settingTokens ++ exportTokens)), ?_, settings,
    .intro classKind found nameSpelled settingsSpelled exportSpelled, ?_⟩
  · simp only [Stream.unread_unread, List.cons_append, List.nil_append]
  · exact ⟨fun name same => (nameFree name same).1, fun name same => (nameFree name same).2, fits,
      named⟩

theorem parse_unread {tokens : List Token} {settings : List (Property × PropertyValue)}
    {definition : Definition} {after : Stream} (spelled : Spelling tokens settings definition)
    (admitted : Admitted context defined settings definition)
    (ends : definition.exported = false → NoExport after) :
    parse context defined (after.unread tokens) = .ok definition after := by
  obtain @⟨classToken, nameTokens, settingTokens, exportTokens, nodeClass, name?, settings,
    exported, classKind, found, nameSpelled, settingsSpelled, exportSpelled⟩ := spelled
  let beforeExport := after.unread exportTokens
  let beforeSettings := beforeExport.unread settingTokens
  have braced : ∀ token, beforeSettings.peek? = some token → token.kind = .leftBrace := by
    intro token next
    cases settingsSpelled with
    | empty opened _ =>
        cases next
        exact opened
    | items opened _ =>
        cases next
        exact opened
  have classRead : parseClass ((beforeSettings.unread nameTokens).unread [classToken]) =
      .ok (classToken, nodeClass) (beforeSettings.unread nameTokens) :=
    parseClass_eq_ok_iff.mpr ⟨classKind, found, rfl⟩
  have nameRead : parseName context defined (beforeSettings.unread nameTokens) =
      .ok name? beforeSettings :=
    parseName_unread nameSpelled admitted.unreserved admitted.fresh braced
  have settingsRead : parseSettings nodeClass (.ofNames defined) beforeSettings =
      .ok settings beforeExport :=
    parseSettings_eq_ok_iff.mpr ⟨settingTokens, rfl, settingsSpelled, admitted.fits⟩
  have exportRead : parseExport classToken name? beforeExport = .ok exported after :=
    parseExport_unread exportSpelled admitted.named ends
  have split : after.unread (classToken :: (nameTokens ++ (settingTokens ++ exportTokens))) =
      (beforeSettings.unread nameTokens).unread [classToken] := by
    simp only [beforeSettings, beforeExport, Stream.unread_unread, List.cons_append,
      List.nil_append]
  rw [split, parse, bind_of_ok classRead]
  dsimp only
  rw [bind_of_ok nameRead, bind_of_ok settingsRead, bind_of_ok exportRead]
  rfl

theorem Spelling.starts {tokens : List Token} {settings : List (Property × PropertyValue)}
    {definition : Definition} (spelled : Spelling tokens settings definition) :
    ∃ first rest, tokens = first :: rest ∧ first.kind = .className := by
  obtain ⟨classKind, _, _, _, _⟩ := spelled
  exact ⟨_, _, rfl, classKind⟩

end Definition

/-! ### Programs -/

namespace Program

inductive Spelling (context : String) : List String → List Token → List Definition → Prop where
  | nil {defined : List String} : Spelling context defined [] []
  | cons {defined : List String} {tokens rest : List Token}
      {settings : List (Property × PropertyValue)} {definition : Definition}
      {others : List Definition} :
      Definition.Spelling tokens settings definition →
      Definition.Admitted context defined settings definition →
      Spelling context (definition.name?.toList ++ defined) rest others →
      Spelling context defined (tokens ++ rest) (definition :: others)

variable {context : String} {defined : List String}

theorem parseDefinitions_eq_ok {before after : Stream} {definitions : List Definition}
    (success : parseDefinitions context defined before = .ok definitions after) :
    after.ahead = [] ∧ ∃ tokens, before = after.unread tokens ∧
      Spelling context defined tokens definitions := by
  fun_induction parseDefinitions context defined before generalizing definitions after with
  | case1 => cases success
  | case2 => cases success
  | case3 defined stream _ definition rest definitionRead _ others final othersRead ih =>
      cases success
      obtain ⟨finished, otherTokens, rfl, othersSpelled⟩ := ih othersRead
      obtain ⟨tokens, rfl, settings, spelled, admitted⟩ :=
        Definition.sound_parse context defined _ _ _ definitionRead
      exact ⟨finished, tokens ++ otherTokens, Stream.unread_unread _ _ _,
        .cons spelled admitted othersSpelled⟩
  | case4 defined stream finished =>
      cases success
      refine ⟨?_, [], rfl, .nil⟩
      simpa [Stream.hasNext] using finished

/-- Reading takes the first of several definitions. What follows them may not start with the word
that exports a definition, which would belong to the last of them. -/
theorem parse_unread_first {tokens rest : List Token} {settings : List (Property × PropertyValue)}
    {definition : Definition} {known : List String} {others : List Definition} {after : Stream}
    (spelled : Definition.Spelling tokens settings definition)
    (admitted : Definition.Admitted context defined settings definition)
    (othersSpelled : Spelling context known rest others) (noExport : Definition.NoExport after) :
    (after.unread (tokens ++ rest)).hasNext = true ∧
      Definition.parse context defined (after.unread (tokens ++ rest)) =
        .ok definition (after.unread rest) := by
  have ends : Definition.NoExport (after.unread rest) := by
    cases othersSpelled with
    | nil => exact noExport
    | cons nextSpelled _ _ =>
        obtain ⟨first, others, rfl, className⟩ := nextSpelled.starts
        intro token next
        cases next
        simp [Token.isKeyword, className]
  constructor
  · obtain ⟨first, others, rfl, _⟩ := spelled.starts
    rfl
  · rw [← Stream.unread_unread]
    exact Definition.parse_unread spelled admitted fun _ => ends

theorem parseDefinitions_unread {tokens : List Token} {definitions : List Definition}
    {after : Stream} (spelled : Spelling context defined tokens definitions)
    (finished : after.ahead = []) :
    parseDefinitions context defined (after.unread tokens) = .ok definitions after := by
  have noExport : Definition.NoExport after := by
    intro token next
    rw [Stream.peek?, finished] at next
    cases next
  induction spelled with
  | nil =>
      rw [parseDefinitions]
      simp [Stream.hasNext, finished]
  | @cons defined tokens rest settings definition others spelled admitted othersSpelled ih =>
      obtain ⟨more, definitionRead⟩ :=
        parse_unread_first spelled admitted othersSpelled noExport
      rw [parseDefinitions, if_pos more]
      split
      · rename_i failed
        rw [definitionRead] at failed
        cases failed
      · rename_i read
        rw [definitionRead] at read
        cases read
        simp only [ih]

/-- The token lists that are programs, with the program that each of them spells. -/
theorem ofTokens_eq_ok_iff {tokens : List Token} {program : Program} :
    ofTokens context tokens = .ok program ↔ Spelling context [] tokens program.definitions := by
  constructor
  · intro success
    unfold ofTokens at success
    split at success
    · rename_i read
      cases success
      obtain ⟨definitions, afterAll, definitionsRead, made⟩ := bind_eq_ok.mp read
      obtain ⟨rfl, rfl⟩ := pure_eq_ok_iff.mp made
      obtain ⟨finished, spelledTokens, same, spelled⟩ := parseDefinitions_eq_ok definitionsRead
      have sameTokens : tokens = spelledTokens := by
        have ahead := congrArg Stream.ahead same
        rw [Stream.unread_ahead, finished, List.append_nil] at ahead
        exact ahead
      rw [sameTokens]
      exact spelled
    · cases success
  · intro spelled
    let after : Stream := { Stream.ofTokens tokens with ahead := [] }
    have start : Stream.ofTokens tokens = after.unread tokens := by
      simp only [after, Stream.unread, Stream.ofTokens, List.append_nil]
    have read : parse context (.ofTokens tokens) = .ok program after := by
      rw [start, parse]
      exact bind_of_ok (parseDefinitions_unread spelled rfl)
    simp only [ofTokens, read]

end Program
end AudioMarkup
