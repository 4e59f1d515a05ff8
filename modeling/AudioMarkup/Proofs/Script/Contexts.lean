import AudioMarkup.Proofs.Script.Identifiers
import AudioMarkup.Session

/-!
Contexts and generated names. Settings may choose any identifier as the name of the context, and a
script declares it before the names of the nodes. Reading keeps the names of definitions away from
the context and from the names that are generated for other nodes, but the settings do not keep
the context away from these.

Main statement: a context is declared a second time exactly if it is a generated name whose number
the program reaches, and for each generated name there is such a program.
-/

namespace AudioMarkup

theorem Settings.isIdentifier_of_parseWith {decode : String → Except Yaml.Fault Settings}
    {text : String} {settings : Settings} (parsed : parseWith decode text = .ok settings) :
    isIdentifier settings.context = true := by
  unfold parseWith at parsed
  split at parsed
  · cases parsed
  · split at parsed
    · rename_i identifier
      cases parsed
      exact identifier
    · cases parsed

theorem SettingsFile.isIdentifier_of_load {disk : Disk} {path : String} {settings : Settings}
    (loaded : load disk path = .ok settings) : Settings.isIdentifier settings.context = true := by
  unfold load loadWith at loaded
  split at loaded
  · cases loaded
  · split at loaded
    · cases loaded
    · rename_i parsed
      cases loaded
      exact Settings.isIdentifier_of_parseWith parsed

/-! ### Generated names of a program -/

/-- The nodes of a class without a name take all the numbers up to their count. -/
private theorem Definition.exists_countAnonymous_take {nodeClass : NodeClass}
    {definitions : List Definition} {number : Nat} (positive : 0 < number)
    (within : number ≤ countAnonymous nodeClass definitions) :
    ∃ index definition, definitions[index]? = some definition ∧ definition.name? = none ∧
      definition.node.nodeClass = nodeClass ∧
      countAnonymous nodeClass (definitions.take (index + 1)) = number := by
  induction definitions generalizing number with
  | nil =>
      have none : countAnonymous nodeClass [] = 0 := rfl
      omega
  | cons definition rest ih =>
      have split (others : List Definition) : countAnonymous nodeClass (definition :: others) =
          countAnonymous nodeClass [definition] + countAnonymous nodeClass others := by
        rw [← List.singleton_append]
        exact List.countP_append
      have total := split rest
      have later (count : Nat) (less : 0 < count) (inRest : count ≤ countAnonymous nodeClass rest)
          (sum : number = countAnonymous nodeClass [definition] + count) :
          ∃ index other, (definition :: rest)[index]? = some other ∧ other.name? = none ∧
            other.node.nodeClass = nodeClass ∧
            countAnonymous nodeClass ((definition :: rest).take (index + 1)) = number := by
        obtain ⟨index, other, found, anonymous, sameClass, counted⟩ := ih less inRest
        refine ⟨index + 1, other, found, anonymous, sameClass, ?_⟩
        rw [List.take_succ_cons, split, counted, sum]
      cases counts : definition.name?.isNone && definition.node.nodeClass == nodeClass with
      | false =>
          have own : countAnonymous nodeClass [definition] = 0 := by
            rw [countAnonymous, List.countP_singleton, counts, if_neg Bool.false_ne_true]
          exact later number positive (by omega) (by omega)
      | true =>
          have own : countAnonymous nodeClass [definition] = 1 := by
            rw [countAnonymous, List.countP_singleton, counts, if_pos rfl]
          rw [Bool.and_eq_true, Option.isNone_iff_eq_none, beq_iff_eq] at counts
          by_cases first : number = 1
          · exact ⟨0, definition, rfl, counts.1, counts.2, own.trans first.symm⟩
          · exact later (number - 1) (by omega) (by omega) (by omega)

namespace Program

theorem generatedName_mem_scriptNames {program : Program} {nodeClass : NodeClass} {number : Nat}
    (positive : 0 < number)
    (within : number ≤ Definition.countAnonymous nodeClass program.definitions) :
    nodeClass.generatedName number ∈ program.scriptNames := by
  obtain ⟨index, definition, found, anonymous, sameClass, counted⟩ :=
    Definition.exists_countAnonymous_take positive within
  obtain ⟨bound, same⟩ := List.getElem?_eq_some_iff.mp found
  refine List.mem_mapIdx.mpr ⟨index, bound, ?_⟩
  rw [same, Definition.scriptName, anonymous, Option.getD_none, sameClass, counted]

def anonymous (nodeClass : NodeClass) (count : Nat) : Program where
  definitions :=
    List.replicate count { name? := none, exported := false, node := .initial nodeClass }

private theorem countAnonymous_anonymous (nodeClass : NodeClass) (count : Nat) :
    Definition.countAnonymous nodeClass (anonymous nodeClass count).definitions = count := by
  rw [Definition.countAnonymous, anonymous, List.countP_replicate, if_pos]
  rw [Node.nodeClass_initial, Option.isNone_none, beq_self_eq_true, Bool.and_self]

private theorem wellFormed_anonymous (context : String) (nodeClass : NodeClass) (count : Nat) :
    (anonymous nodeClass count).WellFormed context := by
  have each {definition : Definition}
      (member : definition ∈ (anonymous nodeClass count).definitions) :
      definition = { name? := none, exported := false, node := .initial nodeClass } :=
    (List.mem_replicate.mp member).2
  have noNames : (anonymous nodeClass count).names = [] := by
    rw [names, List.filterMap_eq_nil_iff]
    intro definition member
    rw [each member]
  refine ⟨fun definition member => ?_, ?_, ?_, fun index definition found => ?_⟩
  · rw [each member]
    exact Definition.wellFormed_of_values fun setting => isWellFormed_initial
  · rw [noNames]
    exact List.nodup_nil
  · rw [noNames]
    intro name impossible
    cases impossible
  · rw [each (List.mem_of_getElem? found)]
    exact (Node.fits_initial nodeClass).toScoped.mono fun name impossible =>
      absurd impossible (List.not_mem_nil (a := name))

/-- A loaded context is an identifier. A script declares it again exactly if it is a generated name
with a number up to the count of the nodes without a name; among the identifiers just the generated
names are declared again for some text. -/
theorem context_declared_again_iff_generatedName (settings : Settings) :
    (∀ (disk : Disk) (path : String), SettingsFile.load disk path = .ok settings →
      Settings.isIdentifier settings.context = true) ∧
    (∀ (source : String) (program : Program), ofText settings.context source = .ok program →
      (program.toScript settings.context).declaredNames =
        settings.context :: program.scriptNames ∧
      (settings.context ∈ program.scriptNames ↔
        ∃ (nodeClass : NodeClass) (number : Nat), 0 < number ∧
          number ≤ Definition.countAnonymous nodeClass program.definitions ∧
          settings.context = nodeClass.generatedName number)) ∧
    ((Settings.isIdentifier settings.context = true ∧ ∃ (source : String) (program : Program),
        ofText settings.context source = .ok program ∧ settings.context ∈ program.scriptNames) ↔
      ∃ (nodeClass : NodeClass) (number : Nat), 0 < number ∧
        settings.context = nodeClass.generatedName number) := by
  refine ⟨fun disk path => SettingsFile.isIdentifier_of_load, fun source program read => ?_, ?_⟩
  · refine ⟨declaredNames_toScript _ _, ?_, ?_⟩
    · exact generatedName_of_context_mem (ofTokens_eq_ok_iff.mp read)
    · rintro ⟨nodeClass, number, positive, within, same⟩
      rw [same]
      exact generatedName_mem_scriptNames positive within
  · constructor
    · rintro ⟨_, source, program, read, member⟩
      obtain ⟨nodeClass, number, positive, _, same⟩ :=
        generatedName_of_context_mem (ofTokens_eq_ok_iff.mp read) member
      exact ⟨nodeClass, number, positive, same⟩
    · rintro ⟨nodeClass, number, positive, same⟩
      have read := ofText_markup (wellFormed_anonymous settings.context nodeClass number)
      have member : nodeClass.generatedName number ∈ (anonymous nodeClass number).scriptNames :=
        generatedName_mem_scriptNames positive (countAnonymous_anonymous nodeClass number).ge
      refine ⟨?_, _, _, read, ?_⟩
      · rw [same]
        exact nodeClass.isIdentifier_generatedName number
      · rw [same]
        exact member

/-- One oscillator leaves the context alone, two do not. -/
theorem context_declared_again_by_second_oscillator :
    ∃ settings : Settings,
      SettingsFile.load { entries := [(["c.yaml"], .file "context: __Oscillator_2\n".toUTF8)] }
        "c.yaml" = .ok settings ∧
      (∃ program : Program, ofText settings.context "Oscillator\x7b\x7d" = .ok program ∧
        settings.context ∉ program.scriptNames) ∧
      ∃ program : Program,
        ofText settings.context "Oscillator\x7b\x7dOscillator\x7b\x7d" = .ok program ∧
          settings.context ∈ program.scriptNames := by
  have again := context_declared_again_iff_generatedName
    { context := "__Oscillator_2", log := .default }
  have one : ofText "__Oscillator_2" "Oscillator\x7b\x7d" = .ok (anonymous .oscillator 1) := by
    decide +kernel
  have two : ofText "__Oscillator_2" "Oscillator\x7b\x7dOscillator\x7b\x7d" =
      .ok (anonymous .oscillator 2) := by
    decide +kernel
  refine ⟨{ context := "__Oscillator_2", log := .default }, by decide +kernel,
    ⟨_, one, by decide +kernel⟩, _, two, ?_⟩
  exact (again.2.1 _ _ two).2.mpr
    ⟨.oscillator, 2, Nat.two_pos, by decide +kernel, by decide +kernel⟩

/-- The context is lost as soon as the constant is declared. -/
theorem script_of_context_named_like_a_constant :
    ∃ (settings : Settings) (program : Program),
      SettingsFile.load { entries := [(["c.yaml"], .file "context: __Constant_1\n".toUTF8)] }
        "c.yaml" = .ok settings ∧
      ofText settings.context "Constant \x7b\x7d" = .ok program ∧
      settings.context ∈ program.scriptNames ∧
      compile settings.context "Constant \x7b\x7d" =
        .ok ("(function()\x7b\nvar __Constant_1=" ++
          "new (window.AudioContext||window.webkitAudioContext)();\n" ++
          "var __Constant_1=0;\n\x7d)();\n") := by
  refine ⟨{ context := "__Constant_1", log := .default }, anonymous .constant 1, ?_, ?_, ?_, ?_⟩
  · decide +kernel
  · decide +kernel
  · decide +kernel
  · decide +kernel

end Program
end AudioMarkup
