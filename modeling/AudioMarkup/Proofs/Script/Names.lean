import AudioMarkup.Proofs.Script.Lines

/-!
The names that a script declares. Each definition declares one name, its own or one that is made
from its class and a number, and the script declares the context before all of them.

Own names differ because reading asks for new ones, and they differ from the others because reading
refuses the mark and the context. Two names that are made differ in their class or in their number,
which counts the definitions of the class that have no name.
-/

namespace AudioMarkup

/-! ### Generated names -/

namespace NodeClass

private theorem eq_of_head?_name {first second : NodeClass}
    (same : first.name.toList.head? = second.name.toList.head?) : first = second := by
  revert same
  cases first <;> cases second <;> decide

private theorem head?_name_append (nodeClass : NodeClass) (rest : String) :
    (nodeClass.name ++ rest).toList.head? = nodeClass.name.toList.head? := by
  have nonempty : nodeClass.name.toList.head?.isSome = true := by
    cases nodeClass <;> decide
  obtain ⟨letter, found⟩ := Option.isSome_iff_exists.mp nonempty
  rw [String.toList_append, List.head?_append, found]
  rfl

/-- The class can be told from the letter behind the mark. -/
theorem generatedName_inj {first second : NodeClass} {number other : Nat}
    (same : first.generatedName number = second.generatedName other) :
    first = second ∧ number = other := by
  simp only [generatedName, String.append_assoc] at same
  have behindMark := (String.append_right_inj generatedMark).mp same
  have sameClass : first = second := by
    apply eq_of_head?_name
    rw [← head?_name_append first ("_" ++ toString number), behindMark, head?_name_append]
  subst sameClass
  have numerals := (String.append_right_inj _).mp ((String.append_right_inj _).mp behindMark)
  refine ⟨rfl, ?_⟩
  have digits : Nat.toDigits 10 number = Nat.toDigits 10 other := by
    simpa only [Nat.toString_eq_repr, Nat.repr, String.toList_ofList] using
      congrArg String.toList numerals
  calc
    number = Nat.ofDigitChars 10 (Nat.toDigits 10 number) 0 := Nat.ofDigitChars_ten_toDigits.symm
    _ = Nat.ofDigitChars 10 (Nat.toDigits 10 other) 0 := by rw [digits]
    _ = other := Nat.ofDigitChars_ten_toDigits

theorem isPrefixOf_generatedName (nodeClass : NodeClass) (number : Nat) :
    generatedMark.toList.isPrefixOf (nodeClass.generatedName number).toList = true := by
  rw [generatedName, String.append_assoc, String.append_assoc, String.toList_append,
    List.isPrefixOf_iff_prefix]
  exact List.prefix_append _ _

end NodeClass

/-! ### Declared names -/

/-- The names that a script declares: the context, and then those of its statements in order. -/
def Script.declaredNames (script : Script) : List String :=
  script.context :: script.statements.toList.filterMap Statement.declared?

theorem Script.render_of_context (script : Script) :
    ∃ rest, script.render = "(function()\x7b\nvar " ++ script.context ++
      "=new (window.AudioContext||window.webkitAudioContext)();\n" ++ rest :=
  ⟨_, String.append_assoc ..⟩

def Definition.countAnonymous (nodeClass : NodeClass) (definitions : List Definition) : Nat :=
  definitions.countP fun definition =>
    definition.name?.isNone && definition.node.nodeClass == nodeClass

/-- The name of a definition in a script, which depends on the definitions up to this one. -/
def Definition.scriptName (upTo : List Definition) (definition : Definition) : String :=
  definition.name?.getD (definition.node.nodeClass.generatedName
    (countAnonymous definition.node.nodeClass upTo))

/-- A definition has its own name in a script, or one that is made. -/
theorem Definition.scriptName_own_or_made (upTo : List Definition) (definition : Definition) :
    definition.name? = some (definition.scriptName upTo) ∨
      ∃ nodeClass number,
        definition.scriptName upTo = NodeClass.generatedName nodeClass number := by
  cases own : definition.name? with
  | some name =>
      rw [scriptName, own, Option.getD_some]
      exact .inl rfl
  | none =>
      rw [scriptName, own, Option.getD_none]
      exact .inr ⟨_, _, rfl⟩

def Program.scriptNames (program : Program) : List String :=
  program.definitions.mapIdx fun index definition =>
    definition.scriptName (program.definitions.take (index + 1))

def Program.blocks (program : Program) : List (List Statement) :=
  program.definitions.mapIdx fun index definition =>
    definition.statements (definition.scriptName (program.definitions.take (index + 1)))

namespace Definition

private theorem declared_statements (name : String) (definition : Definition) :
    (definition.statements name).filterMap Statement.declared? = [name] := by
  have accessors (nodeClass : NodeClass) :
      (nodeClass.accessors name).filterMap Statement.declared? = [] := by
    cases nodeClass <;> rfl
  have node : (definition.node.statements name).filterMap Statement.declared? = [name] := by
    cases definition.node with
    | constant value => rfl
    | periodicWave wave => rfl
    | oscillator source =>
        obtain ⟨detune?, frequency, waveType, wave?⟩ := source
        cases detune? <;> cases wave? <;> rfl
  rw [statements, List.filterMap_append, node]
  split
  · rw [accessors, List.append_nil]
  · rfl

/-- The number of a name without its own is one more than the nodes of the class named before. -/
private theorem localName_eq_scriptName {named : List NodeClass} {before : List Definition}
    (counted : ∀ nodeClass, named.count nodeClass = countAnonymous nodeClass before)
    (definition : Definition) :
    definition.localName named = definition.scriptName (before ++ [definition]) := by
  cases own : definition.name? with
  | some name => rw [localName, scriptName, own, Option.getD_some, Option.getD_some]
  | none =>
      rw [localName, scriptName, counted, countAnonymous, countAnonymous, List.countP_append,
        List.countP_singleton, own, Option.isNone_none, Bool.true_and, beq_self_eq_true, if_pos rfl]

private theorem count_namedAfter {named : List NodeClass} {before : List Definition}
    (counted : ∀ nodeClass, named.count nodeClass = countAnonymous nodeClass before)
    (definition : Definition) (nodeClass : NodeClass) :
    (definition.namedAfter named).count nodeClass =
      countAnonymous nodeClass (before ++ [definition]) := by
  have appended : countAnonymous nodeClass (before ++ [definition]) =
      countAnonymous nodeClass before + countAnonymous nodeClass [definition] :=
    List.countP_append
  rw [appended, ← counted]
  cases own : definition.name? with
  | some name =>
      simp only [namedAfter, own, countAnonymous, List.countP_singleton, Option.isNone_some,
        Bool.false_and, Bool.false_eq_true, if_false, Nat.add_zero]
  | none =>
      simp only [namedAfter, own, countAnonymous, List.countP_singleton, Option.isNone_none,
        Bool.true_and, List.count_cons]

end Definition

private theorem Script.statements_foldl_blocks (definitions before : List Definition)
    (script : Script)
    (counted : ∀ nodeClass, script.named.count nodeClass =
      Definition.countAnonymous nodeClass before) :
    (definitions.foldl Script.addDefinition script).statements.toList =
      script.statements.toList ++ (definitions.mapIdx fun index definition =>
        definition.statements
          (definition.scriptName (before ++ definitions.take (index + 1)))).flatten := by
  -- The classes that the script has named are those of the definitions behind it.
  induction definitions generalizing before script with
  | nil => rw [List.foldl_nil, List.mapIdx_nil, List.flatten_nil, List.append_nil]
  | cons definition rest ih =>
      have next := ih (before ++ [definition]) (script.addDefinition definition) (by
        rw [Script.addDefinition_eq]
        exact Definition.count_namedAfter counted definition)
      rw [List.foldl_cons, next, Script.addDefinition_eq, Array.toList_appendList,
        Definition.localName_eq_scriptName counted, List.mapIdx_cons, List.flatten_cons,
        List.append_assoc]
      simp only [List.take_succ_cons, List.take_zero, List.append_assoc, List.cons_append,
        List.nil_append]

theorem Program.statements_eq_flatten (context : String) (program : Program) :
    (program.toScript context).statements.toList = program.blocks.flatten := by
  rw [Program.toScript,
    Script.statements_foldl_blocks program.definitions [] (.empty context) (fun _ => rfl)]
  rfl

def Definition.ifExported {α : Type} (ofClass : String → NodeClass → List α)
    (definition : Definition) : List α :=
  match definition.name? with
  | some name => if definition.exported then ofClass name definition.node.nodeClass else []
  | none => []

section

variable {α : Type} {pick : Statement → Option α} {ofClass : String → NodeClass → List α}

private theorem Definition.filterMap_statements {definition : Definition} {name : String}
    (own : ∀ other, definition.name? = some other → name = other)
    (skipped : ∀ node : Node, (node.statements name).filterMap pick = [])
    (accessors : ∀ nodeClass, (nodeClass.accessors name).filterMap pick = ofClass name nodeClass) :
    (definition.statements name).filterMap pick = definition.ifExported ofClass := by
  rw [statements, List.filterMap_append, skipped, List.nil_append]
  cases named : definition.name? with
  | none =>
      rw [ifExported, named, Option.isSome_none, Bool.and_false, if_neg Bool.false_ne_true]
      rfl
  | some other =>
      rw [ifExported, named, Option.isSome_some, Bool.and_true, ← own other named]
      cases definition.exported with
      | false => rfl
      | true => exact accessors definition.node.nodeClass

/-- What is picked from the accessors of a script, and from them alone, comes from the exported
definitions one by one. -/
theorem Program.filterMap_accessors (context : String) (program : Program)
    (skipped : ∀ (name : String) (node : Node), (node.statements name).filterMap pick = [])
    (accessors : ∀ (name : String) (nodeClass : NodeClass),
      (nodeClass.accessors name).filterMap pick = ofClass name nodeClass) :
    (program.toScript context).statements.toList.filterMap pick =
      program.definitions.flatMap fun definition => definition.ifExported ofClass := by
  have blockwise : program.blocks.map (List.filterMap pick) =
      program.definitions.map fun definition => definition.ifExported ofClass := by
    apply List.ext_getElem?
    intro index
    rw [List.getElem?_map, List.getElem?_map, blocks, List.getElem?_mapIdx]
    cases program.definitions[index]? with
    | none => rfl
    | some definition =>
        rw [Option.map_some, Option.map_some, Option.map_some,
          Definition.filterMap_statements ?_ (skipped _) (accessors _)]
        intro other named
        rw [Definition.scriptName, named, Option.getD_some]
  rw [statements_eq_flatten, List.filterMap_flatten, blockwise, List.flatMap_def]

end

private theorem Script.context_foldl (definitions : List Definition) (script : Script) :
    (definitions.foldl Script.addDefinition script).context = script.context := by
  induction definitions generalizing script with
  | nil => rfl
  | cons definition rest ih => rw [List.foldl_cons, ih, Script.addDefinition_eq]

theorem Program.context_toScript (context : String) (program : Program) :
    (program.toScript context).context = context :=
  Script.context_foldl program.definitions (.empty context)

theorem Program.declaredNames_toScript (context : String) (program : Program) :
    (program.toScript context).declaredNames = context :: program.scriptNames := by
  have declared : program.blocks.map (List.filterMap Statement.declared?) =
      program.scriptNames.map fun name => [name] := by
    simp only [blocks, scriptNames, List.mapIdx_eq_zipIdx_map, List.map_map, Function.comp_def,
      Definition.declared_statements]
  rw [Script.declaredNames, Program.statements_eq_flatten, Program.context_toScript,
    List.filterMap_flatten, declared, ← List.flatMap_def, List.flatMap_singleton']

/-! ### Distinct names -/

private theorem Definition.countAnonymous_take_succ {definitions : List Definition} {index : Nat}
    {definition : Definition} (found : definitions[index]? = some definition)
    (anonymous : definition.name? = none) :
    countAnonymous definition.node.nodeClass (definitions.take (index + 1)) =
      countAnonymous definition.node.nodeClass (definitions.take index) + 1 := by
  have own : countAnonymous definition.node.nodeClass [definition] = 1 := by
    rw [countAnonymous, List.countP_singleton, anonymous, Option.isNone_none, Bool.true_and,
      beq_self_eq_true, if_pos rfl]
  rw [List.take_add_one, found, ← own]
  exact List.countP_append

private theorem Definition.countAnonymous_lt {definitions : List Definition} {earlier later : Nat}
    {definition : Definition} (before : earlier < later)
    (found : definitions[later]? = some definition) (anonymous : definition.name? = none) :
    countAnonymous definition.node.nodeClass (definitions.take (earlier + 1)) <
      countAnonymous definition.node.nodeClass (definitions.take (later + 1)) := by
  have upTo := countAnonymous_take_succ found anonymous
  have shorter : List.Sublist (definitions.take (earlier + 1)) (definitions.take later) :=
    (List.take_prefix_take_left before).sublist
  have fewer : countAnonymous definition.node.nodeClass (definitions.take (earlier + 1)) ≤
      countAnonymous definition.node.nodeClass (definitions.take later) := shorter.countP_le
  omega

namespace Program

variable {context : String} {tokens : List Token} {program : Program}

private theorem isReservedName_generatedName (context : String) (nodeClass : NodeClass)
    (number : Nat) : isReservedName context (nodeClass.generatedName number) = true := by
  rw [isReservedName, NodeClass.isPrefixOf_generatedName, Bool.or_true]

private theorem scriptName_ne (spelled : Spelling context [] tokens program.definitions)
    {earlier later : Nat} (before : earlier < later) {first second : Definition}
    (atFirst : program.definitions[earlier]? = some first)
    (atSecond : program.definitions[later]? = some second) :
    first.scriptName (program.definitions.take (earlier + 1)) ≠
      second.scriptName (program.definitions.take (later + 1)) := by
  intro same
  rw [Definition.scriptName, Definition.scriptName] at same
  cases firstName : first.name? with
  | some name =>
      have unreserved := unreserved_of_spelling spelled atFirst firstName
      cases secondName : second.name? with
      | some other =>
          rw [firstName, secondName, Option.getD_some, Option.getD_some] at same
          obtain ⟨names, known, _, _, _, _, admitted⟩ := spelled.getElem? atSecond
          apply admitted.fresh other secondName
          exact (known other).mpr (.inr ⟨earlier, before, first, atFirst, same ▸ firstName⟩)
      | none =>
          rw [firstName, secondName, Option.getD_some, Option.getD_none] at same
          rw [same, isReservedName_generatedName] at unreserved
          cases unreserved
  | none =>
      cases secondName : second.name? with
      | some other =>
          have unreserved := unreserved_of_spelling spelled atSecond secondName
          rw [firstName, secondName, Option.getD_some, Option.getD_none] at same
          rw [← same, isReservedName_generatedName] at unreserved
          cases unreserved
      | none =>
          rw [firstName, secondName, Option.getD_none, Option.getD_none] at same
          obtain ⟨sameClass, sameNumber⟩ := NodeClass.generatedName_inj same
          have smaller := Definition.countAnonymous_lt before atSecond secondName
          rw [sameClass] at sameNumber
          omega

/-- A definition can only have the name of the context where that name is made. -/
theorem generatedName_of_context_mem (spelled : Spelling context [] tokens program.definitions)
    (member : context ∈ program.scriptNames) :
    ∃ nodeClass number, 0 < number ∧
      number ≤ Definition.countAnonymous nodeClass program.definitions ∧
      context = nodeClass.generatedName number := by
  obtain ⟨index, bound, same⟩ := List.mem_mapIdx.mp member
  have found : program.definitions[index]? = some program.definitions[index] :=
    List.getElem?_eq_getElem bound
  rw [Definition.scriptName] at same
  cases named : program.definitions[index].name? with
  | some name =>
      have unreserved := unreserved_of_spelling spelled found named
      rw [named, Option.getD_some] at same
      rw [same, isReservedName, beq_self_eq_true, Bool.true_or] at unreserved
      cases unreserved
  | none =>
      have counted := Definition.countAnonymous_take_succ found named
      have within : Definition.countAnonymous program.definitions[index].node.nodeClass
          (program.definitions.take (index + 1)) ≤
            Definition.countAnonymous program.definitions[index].node.nodeClass
              program.definitions := (List.take_sublist _ _).countP_le
      rw [named, Option.getD_none] at same
      exact ⟨_, _, counted ▸ Nat.succ_pos _, within, same.symm⟩

private theorem context_not_mem_scriptNames
    (spelled : Spelling context [] tokens program.definitions)
    (unmarked : generatedMark.toList.isPrefixOf context.toList = false) :
    context ∉ program.scriptNames := by
  intro member
  obtain ⟨nodeClass, number, _, _, same⟩ := generatedName_of_context_mem spelled member
  rw [same, NodeClass.isPrefixOf_generatedName] at unmarked
  cases unmarked

/-- No two declarations of a script are of the same name. -/
theorem nodup_declaredNames_of_ofTokens (context : String) (tokens : List Token)
    (program : Program) (unmarked : generatedMark.toList.isPrefixOf context.toList = false)
    (read : ofTokens context tokens = .ok program) :
    (program.toScript context).declaredNames = context :: program.scriptNames ∧
      (program.toScript context).declaredNames.Nodup ∧
      (∃ rest, (program.toScript context).render = "(function()\x7b\nvar " ++ context ++
        "=new (window.AudioContext||window.webkitAudioContext)();\n" ++ rest) ∧
      ∀ statement ∈ (program.toScript context).statements.toList, ∀ name,
        statement.declared? = some name →
          ∃ value, statement.render context = Script.declaration name ++ value := by
  have spelled := ofTokens_eq_ok_iff.mp read
  have names := declaredNames_toScript context program
  have opening := (program.toScript context).render_of_context
  rw [context_toScript] at opening
  refine ⟨names, ?_, opening,
    fun statement _ name declares => Statement.render_of_declared declares context⟩
  rw [names, List.nodup_cons]
  refine ⟨context_not_mem_scriptNames spelled unmarked, ?_⟩
  rw [List.Nodup, List.pairwise_iff_getElem]
  intro earlier later earlierBound laterBound before
  rw [scriptNames, List.length_mapIdx] at earlierBound laterBound
  simp only [scriptNames, List.getElem_mapIdx]
  exact scriptName_ne spelled before (List.getElem?_eq_getElem earlierBound)
    (List.getElem?_eq_getElem laterBound)

theorem nodup_declaredNames_of_mixed_definitions :
    generatedMark.toList.isPrefixOf "audioCtx".toList = false ∧
    ∃ program : Program,
      ofTokens "audioCtx" (Token.scan ("Constant\x7bvalue:1\x7dOscillator Constant_1\x7b\x7d" ++
        "Constant\x7b\x7dPeriodicWave\x7b\x7dConstant Constant\x7b\x7d")) = .ok program ∧
      program.scriptNames =
        ["__Constant_1", "Constant_1", "__Constant_2", "__PeriodicWave_1", "Constant"] ∧
      (program.toScript "audioCtx").declaredNames = "audioCtx" :: program.scriptNames ∧
      (program.toScript "audioCtx").declaredNames.Nodup := by
  have unmarked : generatedMark.toList.isPrefixOf "audioCtx".toList = false := by decide +kernel
  have read : ofTokens "audioCtx" (Token.scan
      ("Constant\x7bvalue:1\x7dOscillator Constant_1\x7b\x7d" ++
        "Constant\x7b\x7dPeriodicWave\x7b\x7dConstant Constant\x7b\x7d")) =
        .ok { definitions := [
          { name? := none, exported := false,
            node := .constant (.number ⟨0x3ff0000000000000⟩) },
          { name? := some "Constant_1", exported := false, node := Node.initial .oscillator },
          { name? := none, exported := false, node := Node.initial .constant },
          { name? := none, exported := false, node := Node.initial .periodicWave },
          { name? := some "Constant", exported := false, node := Node.initial .constant }] } := by
    decide +kernel
  obtain ⟨names, distinct, _⟩ :=
    nodup_declaredNames_of_ofTokens "audioCtx" _ _ unmarked read
  exact ⟨unmarked, _, read, by decide +kernel, names, distinct⟩

end Program
end AudioMarkup
