import AudioMarkup.Proofs.Script.Capture
import AudioMarkup.Proofs.Script.Names
import AudioMarkup.Settings

/-!
Names and identifiers. The names of definitions and the indices of ranges are declared in a script
as they were written. Reading asks of them what keeps them apart from the other words of the markup
and from the names that the script makes itself, but not that they are identifiers, as the settings
ask of the context.

Main statement: the names that a script can declare, and which of them are no identifiers or hide
what the script reads.
-/

namespace AudioMarkup

/-! ### Characters of identifiers -/

namespace Text

/-- A character of an identifier. Those beyond ASCII are not told apart. -/
def isWordChar (c : Char) : Bool := Settings.isIdentifierStart c || c.isDigit || 128 ≤ c.toNat

theorem all_isWordChar_of_isIdentifier {name : String}
    (identifier : Settings.isIdentifier name = true) : name.toList.all isWordChar = true := by
  unfold Settings.isIdentifier at identifier
  split at identifier
  · cases identifier
  · rename_i first rest characters
    rw [Bool.and_eq_true, List.all_eq_true] at identifier
    rw [characters, List.all_cons, isWordChar, identifier.1, Bool.true_or, Bool.true_or,
      Bool.true_and, List.all_eq_true]
    intro c member
    rw [isWordChar, identifier.2 c member, Bool.true_or]

def startsWithDigit (name : String) : Bool := name.toList.head?.any Char.isDigit

def isLocalName (name : String) : Bool := !startsWithDigit name && name.toList.all isWordChar

/-- The characters that a name can have and an identifier cannot. -/
def isStray (c : Char) : Bool :=
  c.toNat < 9 || (14 ≤ c.toNat && c.toNat < 32) || c.toNat == 127 ||
    "!#%&'.;<=?@\\^`|~".toList.contains c

private theorem isStray_iff_of_isBareChar {c : Char} (bare : isBareChar c = true) :
    isStray c = true ↔ isWordChar c = false := by
  by_cases ascii : c.toNat < 128
  · have each : ∀ code < 128, isBareChar (Char.ofNat code) = true →
        (isStray (Char.ofNat code) = true ↔ isWordChar (Char.ofNat code) = false) := by
      decide
    have own := each c.toNat ascii
    rw [Char.ofNat_toNat] at own
    exact own bare
  · have listed : "!#%&'.;<=?@\\^`|~".toList.all (fun other => other.toNat < 128) = true := by
      decide
    rw [List.all_eq_true] at listed
    have word : isWordChar c = true := by
      rw [isWordChar, decide_eq_true (Nat.le_of_not_lt ascii), Bool.or_true]
    simp only [isStray, word, Bool.or_eq_true, Bool.and_eq_true, decide_eq_true_eq, beq_iff_eq,
      List.contains_iff_mem, Bool.true_eq_false, iff_false]
    rintro (((low | low) | low) | inList)
    · omega
    · omega
    · omega
    · exact ascii (of_decide_eq_true (listed c inList))

theorem isLocalName_eq_false_iff {name : String} (isName : isName name = true) :
    isLocalName name = false ↔
      startsWithDigit name = true ∨ ∃ c ∈ name.toList, isStray c = true := by
  simp only [Text.isName, isBare, Bool.and_eq_true] at isName
  have bare := List.all_eq_true.mp isName.1.1.2
  rw [isLocalName, Bool.and_eq_false_iff, Bool.not_eq_false', List.all_eq_false]
  refine or_congr_right (exists_congr fun c => and_congr_right fun member => ?_)
  rw [isStray_iff_of_isBareChar (bare c member), Bool.not_eq_true]

def Contains (text part : String) : Prop := ∃ before after, text = before ++ part ++ after

namespace Contains

variable {text part : String}

theorem left (contains : Contains text part) (before : String) :
    Contains (before ++ text) part := by
  obtain ⟨front, back, rfl⟩ := contains
  refine ⟨before ++ front, back, ?_⟩
  rw [String.append_assoc, String.append_assoc, String.append_assoc]

theorem right (contains : Contains text part) (after : String) :
    Contains (text ++ after) part := by
  obtain ⟨front, back, rfl⟩ := contains
  exact ⟨front, back ++ after, String.append_assoc ..⟩

end Contains

end Text

namespace NodeClass

private theorem isIdentifierStart_of_mem_name {nodeClass : NodeClass} {c : Char}
    (member : c ∈ nodeClass.name.toList) : Settings.isIdentifierStart c = true := by
  have letters : nodeClass.name.toList.all Settings.isIdentifierStart = true := by
    cases nodeClass <;> decide
  exact List.all_eq_true.mp letters c member

/-- The settings accept each generated name as a context. -/
theorem isIdentifier_generatedName (nodeClass : NodeClass) (number : Nat) :
    Settings.isIdentifier (nodeClass.generatedName number) = true := by
  have digits : (toString number).toList = Nat.toDigits 10 number := by
    rw [Nat.toString_eq_repr, Nat.toList_repr]
  have characters : (nodeClass.generatedName number).toList =
      '_' :: '_' :: (nodeClass.name.toList ++ '_' :: Nat.toDigits 10 number) := by
    rw [generatedName, String.toList_append, String.toList_append, String.toList_append, digits,
      List.append_assoc, List.append_assoc]
    rfl
  rw [Settings.isIdentifier, characters]
  dsimp only
  rw [Bool.and_eq_true, List.all_eq_true]
  refine ⟨rfl, fun c member => ?_⟩
  rw [List.mem_cons, List.mem_append, List.mem_cons] at member
  rcases member with rfl | inName | rfl | inNumber
  · rfl
  · rw [isIdentifierStart_of_mem_name inName, Bool.true_or]
  · rfl
  · rw [Nat.isDigit_of_mem_toDigits (by decide) (by decide) inNumber, Bool.or_true]

end NodeClass

open Text (Contains)

/-! ### Declarations -/

/-- The names that every script reads and does not declare. -/
def Script.globals : List String := ["window", "Math", "Float32Array", "Infinity"]

private theorem Statement.contains_declaration {statement : Statement} {name : String}
    (declares : statement.declared? = some name) (context : String) :
    Contains (statement.render context) (Script.declaration name) := by
  obtain ⟨value, written⟩ := render_of_declared declares context
  exact ⟨"", value, by rw [written, String.empty_append]⟩

namespace Series

def index? : Series → Option String
  | .list _ => none
  | .range index _ _ _ => some index

private theorem contains_declaration {series : Series} {index : String}
    (ranges : series.index? = some index) :
    Contains series.scriptText (Script.declaration index) := by
  cases series with
  | list items => cases ranges
  | range own lower upper body =>
      cases ranges
      have start : Contains ("for(var " ++ index ++ "=") (Script.declaration index) := by
        have split : "for(var " = "for(" ++ "var " := by decide
        refine ⟨"for(", "", ?_⟩
        rw [String.append_empty, Script.declaration, split, String.append_assoc,
          String.append_assoc, String.append_assoc]
      rw [scriptText_range]
      refine Contains.right (Contains.left ?_ _) _
      iterate 12 refine Contains.right ?_ _
      exact start

end Series

def Node.indices (node : Node) : List String :=
  node.settings.filterMap fun setting =>
    match setting.2 with
    | .series series => series.index?
    | _ => none

private theorem Node.contains_declaration {node : Node} {index : String}
    (member : index ∈ node.indices) (name context : String) :
    ∃ statement ∈ node.statements name,
      Contains (statement.render context) (Script.declaration index) := by
  obtain ⟨⟨property, value⟩, inNode, found⟩ := List.mem_filterMap.mp member
  cases node with
  | constant expr =>
      cases List.mem_singleton.mp inNode
      cases found
  | oscillator source =>
      simp only [settings, List.mem_append, List.mem_cons, Option.mem_toList,
        Option.map_eq_some_iff, Prod.mk.injEq, List.not_mem_nil, or_false] at inNode
      rcases inNode with (⟨_, _, _, rfl⟩ | ⟨_, rfl⟩ | ⟨_, rfl⟩) | ⟨_, _, _, rfl⟩ <;> cases found
  | periodicWave wave =>
      refine ⟨_, List.mem_singleton_self _, ?_⟩
      simp only [settings, List.mem_cons, Prod.mk.injEq, List.not_mem_nil, or_false] at inNode
      rcases inNode with ⟨_, rfl⟩ | ⟨_, rfl⟩
      · have real := (Series.contains_declaration found).left "new Float32Array("
        exact ((((real.right _).right _).right _).left _).right _
      · have imaginary := (Series.contains_declaration found).left
          ("new Float32Array(" ++ wave.real.scriptText ++ "),new Float32Array(")
        exact ((imaginary.right _).left _).right _

/-- A node without a name that is not exported is well formed if its values are. -/
theorem Definition.wellFormed_of_values {node : Node}
    (values : ∀ setting ∈ node.settings, setting.2.isWellFormed = true) :
    ({ name? := none, exported := false, node := node } : Definition).WellFormed := by
  refine ⟨fun name named => ?_, values, fun exported => ?_⟩
  · cases named
  · cases exported

namespace Program

def indices (program : Program) : List String :=
  program.definitions.flatMap fun definition => definition.node.indices

def Declares (context : String) (program : Program) (name : String) : Prop :=
  ∃ statement ∈ (program.toScript context).statements.toList,
    Contains (statement.render context) (Script.declaration name)

variable {context name : String} {program : Program}

theorem mem_scriptNames_of_mem_names (member : name ∈ program.names) :
    name ∈ program.scriptNames := by
  obtain ⟨definition, inProgram, named⟩ := List.mem_filterMap.mp member
  obtain ⟨index, bound, same⟩ := List.mem_iff_getElem.mp inProgram
  refine List.mem_mapIdx.mpr ⟨index, bound, ?_⟩
  rw [same, Definition.scriptName, named, Option.getD_some]

theorem declares_of_mem_names (context : String) (member : name ∈ program.names) :
    program.Declares context name := by
  have declared := (List.cons.inj (declaredNames_toScript context program)).2
  have inScript := mem_scriptNames_of_mem_names member
  rw [← declared] at inScript
  obtain ⟨statement, inStatements, declares⟩ := List.mem_filterMap.mp inScript
  exact ⟨statement, inStatements, statement.contains_declaration declares context⟩

theorem declares_of_mem_indices (context : String) (member : name ∈ program.indices) :
    program.Declares context name := by
  obtain ⟨definition, inProgram, inNode⟩ := List.mem_flatMap.mp member
  obtain ⟨index, bound, same⟩ := List.mem_iff_getElem.mp inProgram
  obtain ⟨statement, inBlock, contains⟩ := Node.contains_declaration inNode
    (definition.scriptName (program.definitions.take (index + 1))) context
  refine ⟨statement, ?_, contains⟩
  rw [statements_eq_flatten]
  refine List.mem_flatten.mpr ⟨_, List.mem_mapIdx.mpr ⟨index, bound, rfl⟩, ?_⟩
  rw [same]
  exact List.mem_append_left _ inBlock

/-! ### A program for each name -/

theorem wellFormed_singleton {definition : Definition} (good : definition.WellFormed)
    (unreserved : ∀ own, definition.name? = some own → isReservedName context own = false)
    (closed : definition.node.Scoped fun _ => False) :
    ({ definitions := [definition] } : Program).WellFormed context := by
  refine ⟨fun other member => ?_, ?_, fun own member => ?_, fun index other found => ?_⟩
  · rw [List.mem_singleton.mp member]
    exact good
  · rw [names]
    cases named : definition.name? with
    | none =>
        rw [List.filterMap_cons_none named]
        exact List.nodup_nil
    | some own =>
        rw [List.filterMap_cons_some named]
        exact List.nodup_singleton own
  · obtain ⟨other, inProgram, named⟩ := List.mem_filterMap.mp member
    rw [List.mem_singleton.mp inProgram] at named
    exact unreserved own named
  · rw [List.mem_singleton.mp (List.mem_of_getElem? found)]
    exact closed.mono fun _ => False.elim

theorem wellFormed_constant {exported : Bool} (isName : Text.isName name = true)
    (unreserved : isReservedName context name = false) :
    ({ definitions := [{ name? := some name, exported := exported,
                         node := .initial .constant }] } : Program).WellFormed context := by
  have values (setting : Property × PropertyValue)
      (member : setting ∈ (Node.initial .constant).settings) : setting.2.isWellFormed = true :=
    isWellFormed_initial member
  refine wellFormed_singleton ⟨fun own named => ?_, values, fun _ => rfl⟩
    (fun own named => ?_) ?_
  · cases named
    exact isName
  · cases named
    exact unreserved
  · exact (Node.fits_initial .constant).toScoped.mono fun _ impossible =>
      List.not_mem_nil impossible

def naming (name : String) : Program where
  definitions := [{ name? := some name, exported := false, node := .initial .constant }]

private theorem exists_name_iff :
    (∃ (source : String) (program : Program), ofText context source = .ok program ∧
        name ∈ program.names) ↔
      Text.isName name = true ∧ isReservedName context name = false := by
  constructor
  · rintro ⟨source, program, read, member⟩
    have good := wellFormed_of_ofText read
    obtain ⟨definition, inProgram, named⟩ := List.mem_filterMap.mp member
    exact ⟨(good.definitions definition inProgram).name name named, good.unreserved name member⟩
  · rintro ⟨isName, unreserved⟩
    have good : (naming name).WellFormed context := wellFormed_constant isName unreserved
    exact ⟨_, _, ofText_markup good, List.mem_singleton_self name⟩

def ranging (index : String) : Program where
  definitions := [
    { name? := none, exported := false, node := .periodicWave {
        real := .range index (.number ⟨0⟩) (.number ⟨0⟩) (.number ⟨0⟩)
        imaginary := .list [] } }]

private theorem exists_index_iff :
    (∃ (source : String) (program : Program), ofText context source = .ok program ∧
        name ∈ program.indices) ↔
      Text.isName name = true ∧ Text.startsCapital name = false := by
  constructor
  · rintro ⟨source, program, read, member⟩
    obtain ⟨definition, inProgram, inNode⟩ := List.mem_flatMap.mp member
    obtain ⟨⟨property, value⟩, isSetting, found⟩ := List.mem_filterMap.mp inNode
    have good := ((wellFormed_of_ofText read).definitions definition inProgram).values _ isSetting
    cases value with
    | text _ => cases found
    | expression _ => cases found
    | series values =>
        cases values with
        | list _ => cases found
        | range index lower upper body =>
            cases found
            simp only [PropertyValue.isWellFormed, Series.isWellFormed, Bool.and_eq_true,
              Bool.not_eq_true'] at good
            exact good.1
  · rintro ⟨isName, lowerCase⟩
    have good : (ranging name).WellFormed context := by
      have zero : (Expr.number ⟨0⟩).isWellFormed = true := by decide
      refine wellFormed_singleton (Definition.wellFormed_of_values fun setting inNode => ?_)
        (fun own named => ?_) ⟨fun expr loose => ?_, ?_⟩
      · simp only [Node.settings, List.mem_cons, List.not_mem_nil, or_false] at inNode
        rcases inNode with rfl | rfl
        · simp only [PropertyValue.isWellFormed, Series.isWellFormed, isName, lowerCase, zero,
            List.all_cons, List.all_nil, Bool.not_false, Bool.and_self]
        · rfl
      · cases named
      · cases loose
      · intro property index lower upper body inNode part inParts other used
        simp only [Node.settings, List.mem_cons, Prod.mk.injEq, PropertyValue.series.injEq,
          Series.range.injEq, reduceCtorEq, and_false, List.not_mem_nil, or_false] at inNode
        obtain ⟨_, _, rfl, rfl, rfl⟩ := inNode
        simp only [List.mem_cons, List.not_mem_nil, or_false, or_self] at inParts
        rw [inParts] at used
        cases used
    exact ⟨_, _, ofText_markup good, List.mem_singleton_self name⟩

/-- A script declares each name of a definition and each index. These are all the words of the
markup that can be names, up to the reserved ones and those with a capital; they are no local names
if they start with a digit or have a stray character, and each global can be among them. -/
theorem name_declared_iff_isName (context name : String) :
    (∀ (source : String) (program : Program), ofText context source = .ok program →
      name ∈ program.names ++ program.indices → program.Declares context name) ∧
    ((∃ (source : String) (program : Program), ofText context source = .ok program ∧
        name ∈ program.names) ↔
      Text.isName name = true ∧ isReservedName context name = false) ∧
    ((∃ (source : String) (program : Program), ofText context source = .ok program ∧
        name ∈ program.indices) ↔
      Text.isName name = true ∧ Text.startsCapital name = false) ∧
    (Text.isName name = true → (Text.isLocalName name = false ↔
      Text.startsWithDigit name = true ∨ ∃ c ∈ name.toList, Text.isStray c = true)) ∧
    (name ∈ Script.globals → ((∃ (source : String) (program : Program),
      ofText context source = .ok program ∧ name ∈ program.names) ↔ name ≠ context)) := by
  refine ⟨fun source program _ member => ?_, exists_name_iff, exists_index_iff,
    Text.isLocalName_eq_false_iff, fun isGlobal => ?_⟩
  · rcases List.mem_append.mp member with own | index
    · exact declares_of_mem_names context own
    · exact declares_of_mem_indices context index
  · have each : ∀ other ∈ Script.globals, Text.isName other = true ∧
        generatedMark.toList.isPrefixOf other.toList = false := by decide
    rw [exists_name_iff, isReservedName, (each name isGlobal).1, (each name isGlobal).2,
      Bool.or_false, beq_eq_false_iff_ne]
    exact and_iff_right rfl

/-- A definition can hide the window, and an index can end its own declaration. -/
theorem name_declared_iff_isName_of_window_and_semicolon :
    (∃ (source : String) (program : Program), ofText "audioCtx" source = .ok program ∧
      "window" ∈ program.names) ∧
    (¬ ∃ (source : String) (program : Program), ofText "audioCtx" source = .ok program ∧
      "audioCtx" ∈ program.names) ∧
    Text.isLocalName "i;j" = false ∧
    ∃ (source : String) (program : Program), ofText "audioCtx" source = .ok program ∧
      program.Declares "audioCtx" "i;j" := by
  have semicolon := name_declared_iff_isName "audioCtx" "i;j"
  obtain ⟨source, program, read, member⟩ := semicolon.2.2.1.mpr (by decide)
  refine ⟨?_, ?_, ?_, source, program, read, ?_⟩
  · exact ((name_declared_iff_isName "audioCtx" "window").2.2.2.2 (by decide)).mpr
      (by decide)
  · rw [(name_declared_iff_isName "audioCtx" "audioCtx").2.1]
    decide
  · exact (semicolon.2.2.2.1 (by decide)).mpr (.inr ⟨';', by decide, by decide⟩)
  · exact semicolon.1 source program read (List.mem_append_right _ member)

/-- The window is lost, a declaration starts with a digit, and an assignment stands in the head of
the loop. -/
theorem script_of_names_that_are_no_identifiers :
    ∃ program : Program,
      ofText "audioCtx" ("Constant window \x7b \x7d Constant 7up \x7b \x7d " ++
        "PeriodicWave \x7b real: [i;j, 0 to 1, 1] \x7d") = .ok program ∧
      program.names = ["window", "7up"] ∧ program.indices = ["i;j"] ∧
      program.names.map Text.isLocalName = [true, false] ∧
      program.indices.map Text.isLocalName = [false] ∧
      program.scriptText "audioCtx" =
        "(function()\x7b\nvar audioCtx=new (window.AudioContext||window.webkitAudioContext)();\n" ++
        "var window=0;\nvar 7up=0;\n" ++
        "var __PeriodicWave_1=audioCtx.createPeriodicWave(new Float32Array(" ++
        "(function()\x7bvar _i;j=[];for(var i;j=0;i;j<1;++i;j)\x7b_i;j.push(1);\x7d" ++
        "return _i;j;\x7d)()),new Float32Array([]));\n\x7d)();\n" := by
  have read : ofText "audioCtx" ("Constant window \x7b \x7d Constant 7up \x7b \x7d " ++
      "PeriodicWave \x7b real: [i;j, 0 to 1, 1] \x7d") =
        .ok { definitions := [
          { name? := some "window", exported := false, node := .initial .constant },
          { name? := some "7up", exported := false, node := .initial .constant },
          { name? := none, exported := false, node := .periodicWave {
              real := .range "i;j" (.number ⟨0⟩) (.number ⟨0x3ff0000000000000⟩)
                (.number ⟨0x3ff0000000000000⟩)
              imaginary := .list [] } }] } := by
    decide +kernel
  refine ⟨_, read, ?_⟩
  decide +kernel

end Program
end AudioMarkup
