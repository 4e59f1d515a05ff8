import AudioMarkup.Proofs.Script.Identifiers

/-!
What a setter writes to. The function of a setter has a parameter of a fixed name, and what it
assigns to starts with the name of the definition. A name that the parameter has as well leads to
the parameter, so that the setter changes nothing outside of itself.

Main statement: the setter of an exported node writes to the node exactly if the name of the node is
an identifier and not that of the parameter, and which names exported nodes can have.
-/

namespace AudioMarkup

/-! ### Identifiers of a script -/

namespace Script

def setterParameter : String := "v"

def keywords : List String :=
  ["break", "case", "catch", "class", "const", "continue", "debugger", "default", "delete", "do",
   "else", "enum", "export", "extends", "false", "finally", "for", "function", "if", "import", "in",
   "instanceof", "new", "null", "return", "super", "switch", "this", "throw", "true", "try",
   "typeof", "var", "void", "while", "with"]

def isVariable (word : String) : Bool :=
  !word.isEmpty && Text.isLocalName word && !keywords.contains word

def leadingIdentifier? (text : String) : Option String :=
  let word := String.ofList (text.toList.takeWhile Text.isWordChar)
  if isVariable word then some word else none

inductive Binding where
  /-- As a parameter of the function that it stands in. -/
  | parameter (name : String)
  /-- As a local name of the script. -/
  | topLevel (name : String)
  deriving DecidableEq, Repr

/-- The declaration of an identifier that stands in a function of the script. The parameters of the
function hide the local names of the script. -/
def resolve? (script : Script) (parameters : List String) (name : String) : Option Binding :=
  if parameters.contains name then some (.parameter name)
  else if script.declaredNames.contains name then some (.topLevel name)
  else none

private theorem takeWhile_append_cons {condition : Char → Bool} {mark : Char}
    (stops : condition mark = false) (before after : List Char) :
    (before ++ mark :: after).takeWhile condition = before.takeWhile condition := by
  induction before with
  | nil =>
      rw [List.nil_append, List.takeWhile_nil]
      exact List.takeWhile_cons_of_neg (ne_true_of_eq_false stops)
  | cons c rest ih =>
      rw [List.cons_append, List.takeWhile_cons, List.takeWhile_cons, ih]

/-- What follows the name in a target starts with a dot. -/
theorem leadingIdentifier?_target (name : String) (property : Property) (access : Access) :
    leadingIdentifier? (access.target name property) = leadingIdentifier? name := by
  have dot : ".".toList = ['.'] := rfl
  have word : (access.target name property).toList.takeWhile Text.isWordChar =
      name.toList.takeWhile Text.isWordChar := by
    cases access with
    | parameter =>
        simp only [Access.target, String.toList_append, dot, List.append_assoc,
          List.singleton_append]
        exact takeWhile_append_cons (by decide) _ _
    | field =>
        simp only [Access.target, String.toList_append, dot, List.append_assoc,
          List.singleton_append]
        exact takeWhile_append_cons (by decide) _ _
    | binding => rfl
  rw [leadingIdentifier?, leadingIdentifier?, word]

theorem leadingIdentifier?_eq_self_iff {name : String} :
    leadingIdentifier? name = some name ↔ isVariable name = true := by
  constructor
  · intro same
    rw [leadingIdentifier?, Option.ite_none_right_eq_some, Option.some.injEq] at same
    rw [← same.2]
    exact same.1
  · intro isVariable
    have characters : name.toList.all Text.isWordChar = true := by
      simp only [Script.isVariable, Text.isLocalName, Bool.and_eq_true] at isVariable
      exact isVariable.1.2.2
    have whole : name.toList.takeWhile Text.isWordChar = name.toList :=
      List.takeWhile_eq_self_iff.mpr (List.all_eq_true.mp characters)
    rw [leadingIdentifier?, whole, String.ofList_toList]
    exact if_pos isVariable

variable {script : Script} {parameters : List String} {name word : String}

theorem resolve?_eq_topLevel_iff : script.resolve? parameters word = some (.topLevel name) ↔
    word = name ∧ name ∉ parameters ∧ name ∈ script.declaredNames := by
  simp only [resolve?, List.contains_iff_mem]
  split
  · grind
  · grind

theorem resolve?_eq_parameter_iff : script.resolve? parameters word = some (.parameter name) ↔
    word = name ∧ name ∈ parameters := by
  simp only [resolve?, List.contains_iff_mem]
  split
  · grind
  · grind

end Script

/-! ### Setters of a program -/

def Statement.setter? : Statement → Option (String × Property × Access)
  | .setter parent property access => some (parent, property, access)
  | _ => none

def Program.setters (program : Program) : List (String × Property × Access) :=
  program.definitions.flatMap <| Definition.ifExported fun name nodeClass =>
    nodeClass.exposed.map fun (property, access) => (name, property, access)

theorem Statement.render_setter (context name : String) (property : Property) (access : Access) :
    (setter name property access).render context =
      "this.set_" ++ name ++ "_" ++ property.name ++ "=function(" ++ Script.setterParameter ++
        ")\x7b" ++ access.target name property ++ "=" ++ Script.setterParameter ++ ";\x7d;" := by
  have regrouped (before opening target closing : String)
      (opens : opening = "=function(" ++ Script.setterParameter ++ ")\x7b")
      (closes : closing = "=" ++ Script.setterParameter ++ ";\x7d;") :
      before ++ opening ++ target ++ closing = before ++ "=function(" ++ Script.setterParameter ++
        ")\x7b" ++ target ++ "=" ++ Script.setterParameter ++ ";\x7d;" := by
    subst opens closes
    simp only [String.append_assoc]
  exact regrouped ("this.set_" ++ name ++ "_" ++ property.name) _ _ _ (by decide) (by decide)

namespace Program

variable {context name : String} {program : Program}

theorem setters_toScript (context : String) (program : Program) :
    (program.toScript context).statements.toList.filterMap Statement.setter? =
      program.setters := by
  have skipped (name : String) (node : Node) :
      (node.statements name).filterMap Statement.setter? = [] := by
    cases node with
    | constant value => rfl
    | periodicWave wave => rfl
    | oscillator source =>
        obtain ⟨detune?, frequency, waveType, wave?⟩ := source
        cases detune? <;> cases wave? <;> rfl
  have each (name : String) (nodeClass : NodeClass) :
      (nodeClass.accessors name).filterMap Statement.setter? =
        nodeClass.exposed.map fun (property, access) => (name, property, access) := by
    cases nodeClass <;> rfl
  exact filterMap_accessors context program skipped each

private theorem mem_names_of_mem_setters {property : Property} {access : Access}
    (member : (name, property, access) ∈ program.setters) : name ∈ program.names := by
  obtain ⟨definition, inProgram, inSetters⟩ := List.mem_flatMap.mp member
  unfold Definition.ifExported at inSetters
  split at inSetters
  · rename_i own named
    split at inSetters
    · obtain ⟨_, _, same⟩ := List.mem_map.mp inSetters
      cases same
      exact List.mem_filterMap.mpr ⟨definition, inProgram, named⟩
    · cases inSetters
  · cases inSetters

/-- What the function of a setter for the property of a node assigns to. -/
def setterBinding? (context : String) (program : Program) (name : String) (property : Property)
    (access : Access) : Option Script.Binding :=
  (Script.leadingIdentifier? (access.target name property)).bind
    ((program.toScript context).resolve? [Script.setterParameter])

private theorem setterBinding?_eq_topLevel_iff {property : Property} {access : Access}
    (member : (name, property, access) ∈ program.setters) :
    program.setterBinding? context name property access = some (.topLevel name) ↔
      Script.isVariable name = true ∧ name ≠ Script.setterParameter := by
  have declared : name ∈ (program.toScript context).declaredNames := by
    rw [declaredNames_toScript]
    exact List.mem_cons_of_mem _ (mem_scriptNames_of_mem_names (mem_names_of_mem_setters member))
  rw [setterBinding?, Script.leadingIdentifier?_target, Option.bind_eq_some_iff,
    ← Script.leadingIdentifier?_eq_self_iff]
  simp only [Script.resolve?_eq_topLevel_iff, declared, and_true, List.mem_singleton]
  constructor
  · rintro ⟨word, leading, rfl, other⟩
    exact ⟨leading, other⟩
  · rintro ⟨leading, other⟩
    exact ⟨name, leading, rfl, other⟩

private theorem setterBinding?_eq_parameter_iff {property : Property} {access : Access} :
    program.setterBinding? context name property access =
        some (.parameter Script.setterParameter) ↔
      Script.leadingIdentifier? name = some Script.setterParameter := by
  rw [setterBinding?, Script.leadingIdentifier?_target, Option.bind_eq_some_iff]
  simp only [Script.resolve?_eq_parameter_iff, List.mem_singleton, and_true, exists_eq_right]

def exporting (name : String) : Program where
  definitions := [{ name? := some name, exported := true, node := .initial .constant }]

private theorem exists_setter_iff :
    (∃ (source : String) (program : Program), ofText context source = .ok program ∧
        ∃ (property : Property) (access : Access), (name, property, access) ∈ program.setters) ↔
      Text.isName name = true ∧ isReservedName context name = false := by
  constructor
  · rintro ⟨source, program, read, property, access, member⟩
    have good := wellFormed_of_ofText read
    have inNames := mem_names_of_mem_setters member
    obtain ⟨definition, inProgram, named⟩ := List.mem_filterMap.mp inNames
    exact ⟨(good.definitions definition inProgram).name name named,
      good.unreserved name inNames⟩
  · rintro ⟨isName, unreserved⟩
    have good : (exporting name).WellFormed context := wellFormed_constant isName unreserved
    exact ⟨_, _, ofText_markup good, .value, .binding, List.mem_singleton_self _⟩

/-- The setters of a script are those of the exported nodes. What one assigns to starts with the
name of its node, which is the declaration of the node exactly if it is an identifier other than the
parameter. All words of the markup that can be names have setters, up to the reserved ones. -/
theorem setter_writes_node_iff (context name : String) :
    (∀ program : Program, (program.toScript context).statements.toList.filterMap
      Statement.setter? = program.setters) ∧
    (∀ (program : Program) (property : Property) (access : Access),
      (name, property, access) ∈ program.setters →
      (Statement.setter name property access).render context =
        "this.set_" ++ name ++ "_" ++ property.name ++ "=function(" ++ Script.setterParameter ++
          ")\x7b" ++ access.target name property ++ "=" ++ Script.setterParameter ++ ";\x7d;" ∧
      (program.setterBinding? context name property access = some (.topLevel name) ↔
        Script.isVariable name = true ∧ name ≠ Script.setterParameter) ∧
      (program.setterBinding? context name property access =
          some (.parameter Script.setterParameter) ↔
        Script.leadingIdentifier? name = some Script.setterParameter)) ∧
    ((∃ (source : String) (program : Program), ofText context source = .ok program ∧
        ∃ (property : Property) (access : Access), (name, property, access) ∈ program.setters) ↔
      Text.isName name = true ∧ isReservedName context name = false) := by
  refine ⟨setters_toScript context, fun program property access member => ?_, exists_setter_iff⟩
  exact ⟨Statement.render_setter context name property access,
    setterBinding?_eq_topLevel_iff member, setterBinding?_eq_parameter_iff⟩

/-- A name that only starts with that of the parameter is written to; the context has no setter. -/
theorem setter_writes_node_iff_of_volume :
    ("volume", .value, .binding) ∈ (exporting "volume").setters ∧
    (exporting "volume").setterBinding? "v" "volume" .value .binding = some (.topLevel "volume") ∧
    ¬ ∃ (source : String) (program : Program), ofText "v" source = .ok program ∧
      ∃ (property : Property) (access : Access), ("v", property, access) ∈ program.setters := by
  have member : ("volume", .value, .binding) ∈ (exporting "volume").setters :=
    List.mem_singleton_self _
  have volume := (setter_writes_node_iff "v" "volume").2.1 _ _ _ member
  refine ⟨member, volume.2.1.mpr (by decide), ?_⟩
  rw [(setter_writes_node_iff "v" "v").2.2]
  decide

/-- The value that is to be set is assigned to the parameter. -/
theorem script_of_setter_without_effect :
    ∃ program : Program,
      ofText "audioCtx" "Constant v \x7b value: 1 \x7d export" = .ok program ∧
      ("v", .value, .binding) ∈ program.setters ∧
      program.setterBinding? "audioCtx" "v" .value .binding = some (.parameter "v") ∧
      program.scriptText "audioCtx" =
        "(function()\x7b\nvar audioCtx=new (window.AudioContext||window.webkitAudioContext)();\n" ++
        "var v=1;\nthis.set_v_value=function(v)\x7bv=v;\x7d;\n" ++
        "this.get_v_value=function()\x7breturn v;\x7d;\n\x7d)();\n" := by
  have read : ofText "audioCtx" "Constant v \x7b value: 1 \x7d export" =
      .ok { definitions := [
        { name? := some "v", exported := true,
          node := .constant (.number ⟨0x3ff0000000000000⟩) }] } := by
    decide +kernel
  refine ⟨_, read, List.mem_singleton_self _, ?_⟩
  decide +kernel

end Program
end AudioMarkup
