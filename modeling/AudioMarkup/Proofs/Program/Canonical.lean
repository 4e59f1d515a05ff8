import AudioMarkup.Proofs.Expr.Canonical
import AudioMarkup.Proofs.Program.Scoping
import AudioMarkup.Script.Basic
import Mathlib.Control.Monad.Basic

/-!
Programs as markup. `Program.WellFormed` is said on the tree alone; each program that is read has
it, and the markup of a program that has it is read as that program again. The markup has all
settings of a node in a fixed order and single blanks between its words.

Going from words back to tokens, `tokens.map Token.word = words` stands for tokens that a scanner
may have placed anywhere.
-/

namespace AudioMarkup

open Parse

/-! ### Lists of words -/

namespace Word

def separated {α : Type} (close : Word) (itemWords : α → List Word) : List α → List Word
  | [] => [close]
  | [item] => itemWords item ++ [close]
  | item :: rest => itemWords item ++ .of "," :: separated close itemWords rest

variable {α : Type} {close : Word} {itemWords : α → List Word}

theorem wellFormed_separated {items : List α} (closes : close.WellFormed)
    (wellFormed : ∀ item ∈ items, ∀ word ∈ itemWords item, word.WellFormed) :
    ∀ word ∈ separated close itemWords items, word.WellFormed := by
  induction items with
  | nil =>
      intro word member
      rw [List.mem_singleton.mp member]
      exact closes
  | cons item rest ih =>
      have own := wellFormed item (List.mem_cons_self ..)
      have others := ih fun other member => wellFormed other (List.mem_cons_of_mem _ member)
      cases rest with
      | nil =>
          intro word member
          rcases List.mem_append.mp member with inItem | last
          · exact own word inItem
          · rw [List.mem_singleton.mp last]
            exact closes
      | cons next others' =>
          intro word member
          rw [separated, List.mem_append, List.mem_cons] at member
          · rcases member with inItem | rfl | later
            · exact own word inItem
            · exact wellFormed_of_mark ',' rfl
            · exact others word later
          · nofun

theorem listSpelling_of_words {Item : List Token → α → Prop} {first : α} {rest : List α}
    (spelled : ∀ item ∈ first :: rest, ∀ tokens : List Token,
      tokens.map Token.word = itemWords item → Item tokens item)
    {tokens : List Token}
    (same : tokens.map Token.word = separated close itemWords (first :: rest)) :
    ListSpelling close.kind Item tokens (first :: rest) := by
  induction rest generalizing first tokens with
  | nil =>
      obtain ⟨itemTokens, last, rfl, sameItem, sameLast⟩ := List.map_eq_append_iff.mp same
      obtain ⟨mark, rfl, sameMark⟩ := List.map_eq_singleton_iff.mp sameLast
      exact .last (spelled first (List.mem_cons_self ..) itemTokens sameItem)
        (congrArg Word.kind sameMark)
  | cons next others ih =>
      rw [separated] at same
      · obtain ⟨itemTokens, later, rfl, sameItem, sameLater⟩ := List.map_eq_append_iff.mp same
        obtain ⟨mark, laterTokens, rfl, sameMark, sameRest⟩ := List.map_eq_cons_iff.mp sameLater
        have restSpelled := ih (fun item member => spelled item (List.mem_cons_of_mem _ member))
          sameRest
        exact .more (spelled first (List.mem_cons_self ..) itemTokens sameItem)
          (congrArg Word.kind sameMark) restSpelled
      · nofun

theorem delimitedSpelling_of_words {Item : List Token → α → Prop} {opening : Word}
    {items : List α}
    (spelled : ∀ item ∈ items, ∀ tokens : List Token,
      tokens.map Token.word = itemWords item → Item tokens item)
    {tokens : List Token}
    (same : tokens.map Token.word = opening :: separated close itemWords items) :
    DelimitedSpelling opening.kind close.kind Item tokens items := by
  obtain ⟨first, others, rfl, sameFirst, sameOthers⟩ := List.map_eq_cons_iff.mp same
  cases items with
  | nil =>
      obtain ⟨last, rfl, sameLast⟩ := List.map_eq_singleton_iff.mp sameOthers
      exact .empty (congrArg Word.kind sameFirst) (congrArg Word.kind sameLast)
  | cons item rest =>
      exact .items (congrArg Word.kind sameFirst) (listSpelling_of_words spelled sameOthers)

end Word

/-! ### Values -/

namespace Expr

def isWellFormed (expr : Expr) : Bool :=
  expr.leansRight && decide (expr.depth ≤ nestingLimit) && expr.isWritable

theorem isWellFormed_iff {expr : Expr} :
    expr.isWellFormed = true ↔
      expr.leansRight = true ∧ expr.depth ≤ nestingLimit ∧ expr.isWritable = true := by
  simp only [isWellFormed, Bool.and_eq_true, decide_eq_true_eq, and_assoc]

theorem Spelling.isWellFormed {tokens : List Token} {expr : Expr} {scope : Scope}
    (spelled : Spelling tokens expr) (fits : expr.Fits scope nestingLimit)
    (formed : ∀ token ∈ tokens, token.word.WellFormed) : expr.isWellFormed = true :=
  isWellFormed_iff.mpr ⟨fits.leansRight, fits.depth_le, spelled.isWritable formed⟩

end Expr

namespace Series

def isWellFormed : Series → Bool
  | .list items => items.all Expr.isWellFormed
  | .range index lower upper body =>
    Text.isName index && !Text.startsCapital index &&
      [lower, upper, body].all Expr.isWellFormed

def words : Series → List Word
  | .list items => .of "[" :: Word.separated (.of "]") Expr.words items
  | .range index lower upper body =>
    .of "[" :: .of index :: .of "," ::
      (lower.words ++ .of rangeKeyword ::
        (upper.words ++ .of "," :: (body.words ++ [.of "]"])))

private theorem keyword_facts :
    (Word.of rangeKeyword).WellFormed ∧ Token.Kind.ofText rangeKeyword = .name :=
  ⟨.bare rfl, rfl⟩

theorem wellFormed_words {series : Series} (good : series.isWellFormed = true) :
    ∀ word ∈ series.words, word.WellFormed := by
  have opens : (Word.of "[").WellFormed := Word.wellFormed_of_mark '[' rfl
  have closes : (Word.of "]").WellFormed := Word.wellFormed_of_mark ']' rfl
  have comma : (Word.of ",").WellFormed := Word.wellFormed_of_mark ',' rfl
  have exprWords {expr : Expr} (exprGood : expr.isWellFormed = true) :
      ∀ word ∈ expr.words, word.WellFormed :=
    Expr.wellFormed_words (Expr.isWellFormed_iff.mp exprGood).2.2
  cases series with
  | list items =>
      have each := List.all_eq_true.mp good
      intro word member
      rcases List.mem_cons.mp member with rfl | inside
      · exact opens
      · exact Word.wellFormed_separated closes (fun item inItems => exprWords (each item inItems))
          word inside
  | range index lower upper body =>
      simp only [isWellFormed, List.all_cons, List.all_nil, Bool.and_true, Bool.and_eq_true] at good
      obtain ⟨⟨isName, _⟩, lowerGood, upperGood, bodyGood⟩ := good
      intro word member
      simp only [words, List.mem_cons, List.mem_append, List.not_mem_nil, or_false] at member
      rcases member with rfl | rfl | rfl | inLower | rfl | inUpper | rfl | inBody | rfl
      · exact opens
      · exact Word.wellFormed_of_isName isName
      · exact comma
      · exact exprWords lowerGood word inLower
      · exact keyword_facts.1
      · exact exprWords upperGood word inUpper
      · exact comma
      · exact exprWords bodyGood word inBody
      · exact closes

theorem spelling_of_words {series : Series} (good : series.isWellFormed = true)
    {tokens : List Token} (same : tokens.map Token.word = series.words) :
    Spelling tokens series := by
  have exprSpelled {expr : Expr} (exprGood : expr.isWellFormed = true) {exprTokens : List Token}
      (sameWords : exprTokens.map Token.word = expr.words) : Expr.Spelling exprTokens expr :=
    Expr.spelling_of_words (Expr.isWellFormed_iff.mp exprGood).2.2 sameWords
  cases series with
  | list items =>
      have each := List.all_eq_true.mp good
      exact .list (Word.delimitedSpelling_of_words
        (fun item inItems _ sameItem => exprSpelled (each item inItems) sameItem) same)
  | range index lower upper body =>
      simp only [isWellFormed, List.all_cons, List.all_nil, Bool.and_true, Bool.and_eq_true,
        Bool.not_eq_true'] at good
      obtain ⟨⟨isName, lowerCase⟩, lowerGood, upperGood, bodyGood⟩ := good
      obtain ⟨opening, afterOpening, rfl, sameOpening, same⟩ := List.map_eq_cons_iff.mp same
      obtain ⟨indexToken, afterIndex, rfl, sameIndex, same⟩ := List.map_eq_cons_iff.mp same
      obtain ⟨comma, afterComma, rfl, sameComma, same⟩ := List.map_eq_cons_iff.mp same
      obtain ⟨lowerTokens, afterLower, rfl, sameLower, same⟩ := List.map_eq_append_iff.mp same
      obtain ⟨keyword, afterKeyword, rfl, sameKeyword, same⟩ := List.map_eq_cons_iff.mp same
      obtain ⟨upperTokens, afterUpper, rfl, sameUpper, same⟩ := List.map_eq_append_iff.mp same
      obtain ⟨secondComma, afterSecond, rfl, sameSecond, same⟩ := List.map_eq_cons_iff.mp same
      obtain ⟨bodyTokens, afterBody, rfl, sameBody, same⟩ := List.map_eq_append_iff.mp same
      obtain ⟨closing, rfl, sameClosing⟩ := List.map_eq_singleton_iff.mp same
      have indexKind : indexToken.kind = .name := by
        have kind : indexToken.kind = Token.Kind.ofText index := congrArg Word.kind sameIndex
        rw [kind, Text.ofText_of_isName isName, lowerCase, if_neg Bool.false_ne_true]
      have isKeyword : keyword.isKeyword rangeKeyword = true := by
        have kind : keyword.kind = Token.Kind.ofText rangeKeyword := congrArg Word.kind sameKeyword
        have text : keyword.text = rangeKeyword := congrArg Word.text sameKeyword
        rw [Token.isKeyword, kind, keyword_facts.2, text, beq_self_eq_true, beq_self_eq_true,
          Bool.and_self]
      have spelled := Spelling.range (congrArg Word.kind sameOpening) indexKind
        (congrArg Word.kind sameComma) (exprSpelled lowerGood sameLower) isKeyword
        (exprSpelled upperGood sameUpper) (congrArg Word.kind sameSecond)
        (exprSpelled bodyGood sameBody) (congrArg Word.kind sameClosing)
      have text : indexToken.text = index := congrArg Word.text sameIndex
      rwa [text] at spelled

theorem Spelling.isWellFormed {tokens : List Token} {series : Series} {scope : Scope}
    (spelled : Spelling tokens series) (fits : series.Fits scope)
    (formed : ∀ token ∈ tokens, token.word.WellFormed) : series.isWellFormed = true := by
  cases spelled with
  | list listed =>
      refine List.all_eq_true.mpr fun item member => ?_
      obtain ⟨itemTokens, included, itemSpelled⟩ := listed.exists_item member
      exact itemSpelled.isWellFormed (fits item member) fun token inItem =>
        formed token (included inItem)
  | @range opening index afterIndex keyword afterUpper closing lowerTokens upperTokens bodyTokens
      lower upper body _ name _ lowerSpelled _ upperSpelled _ bodySpelled _ =>
      have indexFormed := formed index (by simp)
      have lowerGood := lowerSpelled.isWellFormed (fits lower (by simp)) fun token member =>
        formed token (by simp [member])
      have upperGood := upperSpelled.isWellFormed (fits upper (by simp)) fun token member =>
        formed token (by simp [member])
      have bodyGood := bodySpelled.isWellFormed (fits body (by simp)) fun token member =>
        formed token (by simp [member])
      have isName : Text.isName index.text = true := indexFormed.isName (.inl name)
      have lowerCase : Text.startsCapital index.text = false := indexFormed.startsCapital name
      simp only [Series.isWellFormed, isName, lowerCase, lowerGood, upperGood, bodyGood,
        List.all_cons, List.all_nil, Bool.not_false, Bool.and_self]

end Series
namespace PropertyValue

def isWellFormed : PropertyValue → Bool
  | .text content => content.toList.all Text.isQuotable
  | .expression expr => expr.isWellFormed
  | .series values => values.isWellFormed

def words : PropertyValue → List Word
  | .text content => [⟨.string, content⟩]
  | .expression expr => expr.words
  | .series values => values.words

theorem wellFormed_words {value : PropertyValue} (good : value.isWellFormed = true) :
    ∀ word ∈ value.words, word.WellFormed := by
  cases value with
  | text text =>
      intro word member
      rw [List.mem_singleton.mp member]
      exact .quoted good
  | expression expr => exact Expr.wellFormed_words (Expr.isWellFormed_iff.mp good).2.2
  | series values => exact Series.wellFormed_words good

theorem spelling_of_words {value : PropertyValue} (good : value.isWellFormed = true)
    {tokens : List Token} (same : tokens.map Token.word = value.words) : Spelling tokens value := by
  cases value with
  | text text =>
      obtain ⟨token, rfl, sameWord⟩ := List.map_eq_singleton_iff.mp same
      have string : token.kind = .string := congrArg Word.kind sameWord
      have spelled := Spelling.text string
      have sameText : token.text = text := congrArg Word.text sameWord
      rwa [sameText] at spelled
  | expression expr =>
      exact .expression (Expr.spelling_of_words (Expr.isWellFormed_iff.mp good).2.2 same)
  | series values => exact .series (Series.spelling_of_words good same)

theorem Spelling.isWellFormed {tokens : List Token} {value : PropertyValue} {scope : Scope}
    (spelled : Spelling tokens value) (fits : value.Fits scope)
    (formed : ∀ token ∈ tokens, token.word.WellFormed) : value.isWellFormed = true := by
  cases spelled with
  | @text token string => exact (formed token (List.mem_singleton_self _)).isQuotable string
  | expression spelled => exact Expr.Spelling.isWellFormed spelled fits formed
  | series spelled => exact Series.Spelling.isWellFormed spelled fits formed

end PropertyValue

/-! ### Definitions -/

namespace Node

/-- A node is what its own settings make of a new node. -/
theorem setAll_settings (node : Node) : (initial node.nodeClass).setAll node.settings = node := by
  cases node with
  | constant value => rfl
  | oscillator source =>
      obtain ⟨detune?, frequency, waveType, wave?⟩ := source
      cases detune? <;> cases wave? <;> rfl
  | periodicWave wave => rfl

theorem settings_apply {node : Node} {setting : Property × PropertyValue}
    (member : setting ∈ node.settings) :
    setting.1 ∈ node.nodeClass.properties ∧ setting.2.shape = setting.1.shape := by
  cases node with
  | constant value =>
      rw [List.mem_singleton.mp member]
      exact ⟨by simp [nodeClass, NodeClass.properties], rfl⟩
  | oscillator source =>
      simp only [settings, Option.mem_toList, Option.map_eq_some_iff, List.mem_append,
        List.mem_cons, List.not_mem_nil, or_false] at member
      rcases member with (⟨_, _, rfl⟩ | rfl | rfl) | ⟨_, _, rfl⟩
      all_goals exact ⟨by simp [nodeClass, NodeClass.properties], rfl⟩
  | periodicWave wave =>
      simp only [settings, List.mem_cons, List.not_mem_nil, or_false] at member
      rcases member with rfl | rfl
      all_goals exact ⟨by simp [nodeClass, NodeClass.properties], rfl⟩

end Node

private theorem Property.name_facts (property : Property) :
    Text.isBare property.name = true ∧ Token.Kind.ofText property.name = .name := by
  cases property <;> exact ⟨rfl, rfl⟩

private theorem NodeClass.name_facts (nodeClass : NodeClass) :
    Text.isBare nodeClass.name = true ∧ Token.Kind.ofText nodeClass.name = .className ∧
      NodeClass.ofName? nodeClass.name = some nodeClass := by
  cases nodeClass <;> exact ⟨rfl, rfl, rfl⟩

private theorem NodeClass.property?_name {nodeClass : NodeClass} {property : Property}
    (member : property ∈ nodeClass.properties) :
    nodeClass.property? property.name = some property := by
  cases nodeClass <;> cases property <;>
    first
    | rfl
    | simp [NodeClass.properties] at member

namespace Definition

def settingWords (setting : Property × PropertyValue) : List Word :=
  .of setting.1.name :: .of ":" :: setting.2.words

def words (definition : Definition) : List Word :=
  .of definition.node.nodeClass.name :: (definition.name?.toList.map Word.of ++
    (.of "\x7b" :: Word.separated (.of "\x7d") settingWords definition.node.settings ++
      if definition.exported then [.of exportKeyword] else []))

private theorem export_facts :
    (Word.of exportKeyword).WellFormed ∧ Token.Kind.ofText exportKeyword = .name :=
  ⟨.bare rfl, rfl⟩

structure WellFormed (definition : Definition) : Prop where
  name : ∀ name, definition.name? = some name → Text.isName name = true
  values : ∀ setting ∈ definition.node.settings, setting.2.isWellFormed = true
  named : definition.exported = true → definition.name?.isSome = true

theorem wellFormed_words {definition : Definition} (good : definition.WellFormed) :
    ∀ word ∈ definition.words, word.WellFormed := by
  have setting (setting : Property × PropertyValue) (member : setting ∈ definition.node.settings) :
      ∀ word ∈ settingWords setting, word.WellFormed := by
    intro word inSetting
    simp only [settingWords, List.mem_cons] at inSetting
    rcases inSetting with rfl | rfl | inValue
    · exact .bare (Property.name_facts _).1
    · exact Word.wellFormed_of_mark ':' rfl
    · exact PropertyValue.wellFormed_words (good.values setting member) word inValue
  have settings := Word.wellFormed_separated (Word.wellFormed_of_mark '\x7d' rfl) setting
  intro word member
  simp only [words, List.mem_cons, List.mem_append, List.mem_map, Option.mem_toList] at member
  rcases member with rfl | ⟨name, named, rfl⟩ | (rfl | inSettings) | exported
  · exact .bare (NodeClass.name_facts _).1
  · exact Word.wellFormed_of_isName (good.name name named)
  · exact Word.wellFormed_of_mark '\x7b' rfl
  · exact settings word inSettings
  · split at exported
    · rw [List.mem_singleton.mp exported]
      exact export_facts.1
    · cases exported

private theorem nameSpelling_of_words {name? : Option String}
    (good : ∀ name, name? = some name → Text.isName name = true) {tokens : List Token}
    (same : tokens.map Token.word = name?.toList.map Word.of) : NameSpelling tokens name? := by
  cases name? with
  | none =>
      rw [List.map_eq_nil_iff.mp same]
      exact .anonymous
  | some name =>
      obtain ⟨token, rfl, sameWord⟩ := List.map_eq_singleton_iff.mp same
      have spelled := NameSpelling.named (Expr.refers_of_word (good name rfl) sameWord)
      have text : token.text = name := congrArg Word.text sameWord
      rwa [text] at spelled

private theorem settingSpelling_of_words {node : Node} {setting : Property × PropertyValue}
    (member : setting ∈ node.settings) (good : setting.2.isWellFormed = true)
    {tokens : List Token} (same : tokens.map Token.word = settingWords setting) :
    SettingSpelling node.nodeClass tokens setting := by
  obtain ⟨applies, shape⟩ := Node.settings_apply member
  obtain ⟨name, afterName, rfl, sameName, sameRest⟩ := List.map_eq_cons_iff.mp same
  obtain ⟨colon, valueTokens, rfl, sameColon, sameValue⟩ := List.map_eq_cons_iff.mp sameRest
  have text : name.text = setting.1.name := congrArg Word.text sameName
  have kind : name.kind = Token.Kind.ofText setting.1.name := congrArg Word.kind sameName
  exact .intro (kind.trans (Property.name_facts _).2)
    (by rw [text, NodeClass.property?_name applies]) (congrArg Word.kind sameColon)
    (PropertyValue.spelling_of_words good sameValue) shape

private theorem exportSpelling_of_words {exported : Bool} {tokens : List Token}
    (same : tokens.map Token.word = if exported then [.of exportKeyword] else []) :
    ExportSpelling tokens exported := by
  cases exported with
  | false =>
      rw [if_neg Bool.false_ne_true] at same
      rw [List.map_eq_nil_iff.mp same]
      exact .kept
  | true =>
      rw [if_pos rfl] at same
      obtain ⟨token, rfl, sameWord⟩ := List.map_eq_singleton_iff.mp same
      have kind : token.kind = Token.Kind.ofText exportKeyword := congrArg Word.kind sameWord
      have text : token.text = exportKeyword := congrArg Word.text sameWord
      apply ExportSpelling.exported
      rw [Token.isKeyword, kind, export_facts.2, text, beq_self_eq_true, beq_self_eq_true,
        Bool.and_self]

theorem spelling_of_words {definition : Definition} (good : definition.WellFormed)
    {tokens : List Token} (same : tokens.map Token.word = definition.words) :
    Spelling tokens definition.node.settings definition := by
  obtain ⟨classToken, afterClass, rfl, sameClass, same⟩ := List.map_eq_cons_iff.mp same
  obtain ⟨nameTokens, afterName, rfl, sameName, same⟩ := List.map_eq_append_iff.mp same
  obtain ⟨settingTokens, exportTokens, rfl, sameSettings, sameExport⟩ :=
    List.map_eq_append_iff.mp same
  obtain ⟨_, classKind, found⟩ := definition.node.nodeClass.name_facts
  have className : classToken.text = definition.node.nodeClass.name := congrArg Word.text sameClass
  have kind : classToken.kind = .className := (congrArg Word.kind sameClass).trans classKind
  have settingsSpelled := Word.delimitedSpelling_of_words
    (fun setting member _ sameSetting =>
      settingSpelling_of_words member (good.values setting member) sameSetting) sameSettings
  -- Setting all that a node has, one after the other, gives the node again.
  have spelled := Spelling.intro kind (className ▸ found) (nameSpelling_of_words good.name sameName)
    settingsSpelled (exportSpelling_of_words sameExport)
  rwa [Node.setAll_settings] at spelled

end Definition

/-! ### Programs -/

private theorem Expr.fits_of_isWellFormed {expr : Expr} {scope : Scope}
    (good : expr.isWellFormed = true)
    (resolves : ∀ name ∈ expr.references, scope.resolves name = true) :
    expr.Fits scope nestingLimit := by
  obtain ⟨leansRight, depth_le, _⟩ := Expr.isWellFormed_iff.mp good
  exact ⟨leansRight, depth_le, resolves⟩

private theorem Node.Scoped.toFits {defined : List String} {node : Node}
    (resolved : node.Scoped (· ∈ defined))
    (values : ∀ setting ∈ node.settings, setting.2.isWellFormed = true) :
    node.Fits (.ofNames defined) := by
  have loose {setting : Property × PropertyValue} (inNode : setting ∈ node.settings) {expr : Expr}
      (inValue : expr ∈ setting.2.looseExpressions) (name : String)
      (used : name ∈ expr.references) :
      (Scope.ofNames defined).resolves name = true := by
    have known := resolved.loose expr (List.mem_flatMap.mpr ⟨setting, inNode, inValue⟩) name used
    simpa [Scope.resolves, Scope.ofNames] using known
  intro setting member
  have good := values setting member
  obtain ⟨property, value⟩ := setting
  cases value with
  | text content => trivial
  | expression expr =>
      exact Expr.fits_of_isWellFormed good (loose member (List.mem_singleton_self _))
  | series values =>
      cases values with
      | list items =>
          intro item inItems
          exact Expr.fits_of_isWellFormed (List.all_eq_true.mp good item inItems)
            (loose member inItems)
      | range index lower upper body =>
          simp only [PropertyValue.isWellFormed, Series.isWellFormed, Bool.and_eq_true] at good
          intro part inParts
          refine Expr.fits_of_isWellFormed (List.all_eq_true.mp good.2 part inParts) ?_
          intro name used
          have known :=
            resolved.ranges property index lower upper body member part inParts name used
          simp only [Scope.resolves, Scope.withIndex, Scope.ofNames, Bool.or_eq_true, beq_iff_eq,
            Option.some.injEq, List.contains_iff_mem]
          exact known.symm.imp_left Eq.symm

namespace Program

def names (program : Program) : List String := program.definitions.filterMap Definition.name?

structure WellFormed (context : String) (program : Program) : Prop where
  definitions : ∀ definition ∈ program.definitions, definition.WellFormed
  distinct : program.names.Nodup
  unreserved : ∀ name ∈ program.names, isReservedName context name = false
  resolved : ∀ (index : Nat) (definition : Definition),
    program.definitions[index]? = some definition →
      definition.node.Scoped (program.DefinesBefore index)

def words (program : Program) : List Word := program.definitions.flatMap Definition.words

def markup (program : Program) : String := String.ofList (Word.markupAll program.words)

variable {context : String} {program : Program}

def Knows (defined : List String) (before : List Definition) : Prop :=
  ∀ name, name ∈ defined ↔ ∃ definition ∈ before, definition.name? = some name

private theorem Knows.append {defined : List String} {before : List Definition}
    (knows : Knows defined before) (definition : Definition) :
    Knows (definition.name?.toList ++ defined) (before ++ [definition]) := by
  intro name
  rw [List.mem_append, Option.mem_toList, knows name]
  simp only [List.mem_append, List.mem_singleton]
  constructor
  · intro either
    rcases either with own | ⟨other, inBefore, otherName⟩
    · exact ⟨definition, .inr rfl, own⟩
    · exact ⟨other, .inl inBefore, otherName⟩
  · intro ⟨other, position, otherName⟩
    rcases position with inBefore | rfl
    · exact .inr ⟨other, inBefore, otherName⟩
    · exact .inl otherName

private theorem WellFormed.admitted (good : program.WellFormed context)
    {before rest : List Definition} {definition : Definition}
    (split : program.definitions = before ++ definition :: rest) {defined : List String}
    (knows : Knows defined before) :
    Definition.Admitted context defined definition.node.settings definition := by
  have member : definition ∈ program.definitions := by simp [split]
  have found : program.definitions[before.length]? = some definition := by simp [split]
  have definitionGood := good.definitions definition member
  have earlier (name : String) (defines : program.DefinesBefore before.length name) :
      name ∈ defined := by
    obtain ⟨index, less, other, at_, own⟩ := defines
    rw [split, List.getElem?_append_left less] at at_
    exact (knows name).mpr ⟨other, List.mem_of_getElem? at_, own⟩
  refine ⟨?_, ?_, ?_, definitionGood.named⟩
  · intro name own
    exact good.unreserved name (List.mem_filterMap.mpr ⟨definition, member, own⟩)
  · intro name own isKnown
    obtain ⟨other, inBefore, otherName⟩ := (knows name).mp isKnown
    have distinct := good.distinct
    rw [names, split, List.filterMap_append, List.filterMap_cons_some own,
      List.nodup_append] at distinct
    exact distinct.2.2 name (List.mem_filterMap.mpr ⟨other, inBefore, otherName⟩) name
      (List.mem_cons_self ..) rfl
  · exact ((good.resolved _ definition found).mono earlier).toFits definitionGood.values

private theorem spelling_of_words (good : program.WellFormed context)
    (before rest : List Definition) (split : program.definitions = before ++ rest)
    {defined : List String} (knows : Knows defined before) {tokens : List Token}
    (same : tokens.map Token.word = rest.flatMap Definition.words) :
    Spelling context defined tokens rest := by
  -- The run over the definitions that are left; those before it have given the names.
  induction rest generalizing before defined tokens with
  | nil =>
      rw [List.map_eq_nil_iff.mp same]
      exact .nil
  | cons definition rest ih =>
      obtain ⟨ownTokens, restTokens, rfl, sameOwn, sameRest⟩ := List.map_eq_append_iff.mp same
      have definitionGood := good.definitions definition (by simp [split])
      have restSpelled := ih (before ++ [definition]) (by simp [split]) (knows.append definition)
        sameRest
      exact .cons (Definition.spelling_of_words definitionGood sameOwn) (good.admitted split knows)
        restSpelled

theorem ofText_markup (good : program.WellFormed context) :
    ofText context program.markup = .ok program := by
  have wellFormed : ∀ word ∈ program.words, word.WellFormed := by
    intro word member
    obtain ⟨definition, inProgram, inDefinition⟩ := List.mem_flatMap.mp member
    exact Definition.wellFormed_words (good.definitions definition inProgram) word inDefinition
  have same := Token.scan_markupAll wellFormed
  exact ofTokens_eq_ok_iff.mpr
    (spelling_of_words good [] program.definitions rfl (fun name => by simp) same)

example :
    markup { definitions := [
      { name? := some "to", exported := true, node := .constant (.number ⟨0⟩) },
      { name? := none, exported := false, node := .periodicWave {
          real := .list []
          imaginary :=
            .range "to" (.number ⟨0⟩) (.reference "to") (.call .sin (.reference "to")) } }] } =
      "Constant to \x7b value : 0 \x7d export " ++
        "PeriodicWave \x7b real : [ ] , img : [ to , 0 to to , @sin ( to ) ] \x7d" := by
  decide +kernel

/-! ### Programs that were read -/

theorem isWellFormed_initial {nodeClass : NodeClass} {setting : Property × PropertyValue}
    (member : setting ∈ (Node.initial nodeClass).settings) : setting.2.isWellFormed = true := by
  cases nodeClass with
  | constant =>
      rw [List.mem_singleton.mp member]
      decide
  | oscillator =>
      simp only [Node.initial, Node.settings, Option.map_none, Option.toList_none,
        List.nil_append, List.append_nil, List.mem_cons, List.not_mem_nil, or_false] at member
      rcases member with rfl | rfl
      · decide
      · decide
  | periodicWave =>
      simp only [Node.initial, Node.settings, List.mem_cons, List.not_mem_nil, or_false] at member
      rcases member with rfl | rfl
      · rfl
      · rfl

private theorem wellFormed_of_definition {defined : List String} {tokens : List Token}
    {settings : List (Property × PropertyValue)} {definition : Definition}
    (spelled : Definition.Spelling tokens settings definition)
    (admitted : Definition.Admitted context defined settings definition)
    (formed : ∀ token ∈ tokens, token.word.WellFormed) : definition.WellFormed := by
  have named := admitted.named
  have fits := admitted.fits
  cases spelled with
  | intro _ _ nameSpelled settingsSpelled _ =>
      refine ⟨fun name own => ?_, fun setting member => ?_, named⟩
      · cases nameSpelled with
        | anonymous => cases own
        | @named token word =>
            cases own
            exact (formed token (by simp)).isName word
      · rcases Node.mem_settings_setAll member with atFirst | change
        · exact isWellFormed_initial atFirst
        · obtain ⟨settingTokens, included, settingSpelled⟩ := settingsSpelled.exists_item change
          have settingFits := fits setting change
          cases settingSpelled with
          | intro _ _ _ valueSpelled _ =>
              refine valueSpelled.isWellFormed settingFits fun token inValue => formed token ?_
              have inSettings := included (List.mem_cons_of_mem _ (List.mem_cons_of_mem _ inValue))
              simp [inSettings]

theorem Spelling.distinct {defined : List String} {tokens : List Token}
    {definitions : List Definition} (spelled : Spelling context defined tokens definitions) :
    (definitions.filterMap Definition.name?).Nodup ∧
      ∀ name ∈ definitions.filterMap Definition.name?, name ∉ defined := by
  induction spelled with
  | nil => exact ⟨List.nodup_nil, by simp⟩
  | @cons defined _ _ _ definition others _ admitted _ ih =>
      obtain ⟨distinct, fresh⟩ := ih
      cases named : definition.name? with
      | none =>
          rw [List.filterMap_cons_none named]
          refine ⟨distinct, fun name member isKnown => ?_⟩
          exact fresh name member (List.mem_append_right _ isKnown)
      | some own =>
          rw [List.filterMap_cons_some named]
          constructor
          · refine List.nodup_cons.mpr ⟨fun repeated => ?_, distinct⟩
            exact fresh own repeated (by simp [named])
          · intro name member
            rcases List.mem_cons.mp member with rfl | later
            · exact admitted.fresh name named
            · exact fun isKnown => fresh name later (List.mem_append_right _ isKnown)

theorem wellFormed_of_ofText {source : String} (read : ofText context source = .ok program) :
    program.WellFormed context := by
  have spelled := ofTokens_eq_ok_iff.mp read
  refine ⟨fun definition member => ?_, spelled.distinct.1, fun name member => ?_,
    fun index definition => scoped_of_spelling spelled⟩
  · obtain ⟨index, found⟩ := List.getElem?_of_mem member
    obtain ⟨_, _, _, tokens, included, definitionSpelled, admitted⟩ := spelled.getElem? found
    exact wellFormed_of_definition definitionSpelled admitted fun token inDefinition =>
      Token.wellFormed_of_mem_scan (included inDefinition)
  · obtain ⟨definition, inProgram, named⟩ := List.mem_filterMap.mp member
    obtain ⟨index, found⟩ := List.getElem?_of_mem inProgram
    exact unreserved_of_spelling spelled found named

/-- Reading gives exactly the well formed programs, and each of them from its own markup. -/
theorem wellFormed_iff_read (context : String) (program : Program) :
    (program.WellFormed context ↔ ∃ source, ofText context source = .ok program) ∧
      (program.WellFormed context → ofText context program.markup = .ok program) := by
  refine ⟨⟨fun good => ⟨_, ofText_markup good⟩, ?_⟩, ofText_markup⟩
  intro ⟨source, read⟩
  exact wellFormed_of_ofText read

theorem wellFormed_iff_read_of_keyword_names :
    ∃ program : Program,
      ofText "audioCtx" ("Constant to\x7b\x7dexport Oscillator Constant\x7btype:\"a b\"," ++
        "periodicWave:to\x7dPeriodicWave export\x7bimg:[to,to to Constant,@sin(to)]\x7d") =
          .ok program ∧
      program.WellFormed "audioCtx" ∧
      ofText "audioCtx" program.markup = .ok program := by
  have read : ofText "audioCtx" ("Constant to\x7b\x7dexport Oscillator Constant\x7btype:\"a b\"," ++
      "periodicWave:to\x7dPeriodicWave export\x7bimg:[to,to to Constant,@sin(to)]\x7d") =
        .ok { definitions := [
          { name? := some "to", exported := true, node := .constant (.number ⟨0⟩) },
          { name? := some "Constant", exported := false, node := .oscillator {
              detune? := none
              frequency := Node.concertPitch
              waveType := "a b"
              wave? := some (.reference "to") } },
          { name? := some "export", exported := false, node := .periodicWave {
              real := .list []
              imaginary := .range "to" (.reference "to") (.reference "Constant")
                (.call .sin (.reference "to")) } }] } := by
    decide +kernel
  have good := (wellFormed_iff_read "audioCtx" _).1.mpr ⟨_, read⟩
  exact ⟨_, read, good, (wellFormed_iff_read "audioCtx" _).2 good⟩

end Program

end AudioMarkup
