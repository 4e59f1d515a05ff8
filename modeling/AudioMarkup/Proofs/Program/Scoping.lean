import AudioMarkup.Proofs.Program.Grammar
import Mathlib.Tactic.Tauto

/-!
Scoping of programs that were read. A node is taken apart into its settings, one for each property
that has a value; what an expression outside of a range refers to has to be the name of an earlier
definition, inside of a range the index of that very range will do as well.

The settings of a definition are read before its node is put together. `Node.mem_settings_setAll`
says what the settings of the node can be, and all that is known of the node follows from it.
-/

namespace AudioMarkup

/-! ### The settings of a node -/

namespace Node

def settings : Node → List (Property × PropertyValue)
  | .constant value => [(.value, .expression value)]
  | .oscillator source =>
    (source.detune?.map fun detune => (.detune, .expression detune)).toList ++
      [(.frequency, .expression source.frequency), (.waveType, .text source.waveType)] ++
      (source.wave?.map fun wave => (.periodicWave, .expression wave)).toList
  | .periodicWave wave => [(.real, .series wave.real), (.imaginary, .series wave.imaginary)]

private theorem mem_settings_set? {node updated : Node} {property : Property}
    {value : PropertyValue}
    (changed : node.set? property value = some updated) {setting : Property × PropertyValue}
    (member : setting ∈ updated.settings) :
    setting ∈ node.settings ∨ setting = (property, value) := by
  -- One case for each property of each class of nodes.
  unfold Node.set? at changed
  split at changed <;> cases changed <;>
    simp only [settings, Option.map_some, Option.toList_some, List.mem_append, List.mem_cons,
      List.not_mem_nil, or_false] at member ⊢ <;>
    tauto

theorem mem_settings_setAll {changes : List (Property × PropertyValue)} {node : Node}
    {setting : Property × PropertyValue} (member : setting ∈ (node.setAll changes).settings) :
    setting ∈ node.settings ∨ setting ∈ changes := by
  induction changes generalizing node with
  | nil => exact .inl member
  | cons change rest ih =>
      obtain ⟨property, value⟩ := change
      rcases ih member with early | late
      · dsimp only at early
        cases changed : node.set? property value with
        | none =>
            rw [changed, Option.getD_none] at early
            exact .inl early
        | some updated =>
            rw [changed, Option.getD_some] at early
            rcases mem_settings_set? changed early with kept | same
            · exact .inl kept
            · exact .inr (same ▸ List.mem_cons_self ..)
      · exact .inr (List.mem_cons_of_mem _ late)

def Fits (scope : Scope) (node : Node) : Prop := ∀ setting ∈ node.settings, setting.2.Fits scope

variable {scope : Scope}

theorem fits_initial (nodeClass : NodeClass) : (initial nodeClass).Fits scope := by
  intro setting member
  cases nodeClass with
  | constant =>
      rw [List.mem_singleton.mp member]
      exact Expr.fits_number _
  | oscillator =>
      simp only [initial, settings, Option.map_none, Option.toList_none, List.nil_append,
        List.append_nil, List.mem_cons, List.not_mem_nil, or_false] at member
      rcases member with rfl | rfl
      · exact Expr.fits_number _
      · trivial
  | periodicWave =>
      simp only [initial, settings, List.mem_cons, List.not_mem_nil, or_false] at member
      rcases member with rfl | rfl
      · exact fun item impossible => by cases impossible
      · exact fun item impossible => by cases impossible

theorem Fits.setAll {changes : List (Property × PropertyValue)} {node : Node}
    (fits : node.Fits scope) (changesFit : ∀ change ∈ changes, change.2.Fits scope) :
    (node.setAll changes).Fits scope := by
  intro setting member
  rcases mem_settings_setAll member with own | change
  · exact fits setting own
  · exact changesFit setting change

end Node

/-! ### References -/

def Series.items : Series → List Expr
  | .list items => items
  | .range _ _ _ _ => []

def PropertyValue.looseExpressions : PropertyValue → List Expr
  | .text _ => []
  | .expression expr => [expr]
  | .series values => values.items

namespace Node

def looseExpressions (node : Node) : List Expr :=
  node.settings.flatMap fun setting => setting.2.looseExpressions

/-- Outside of ranges only the known names are referred to, inside of a range its index too. -/
structure Scoped (known : String → Prop) (node : Node) : Prop where
  loose : ∀ expr ∈ node.looseExpressions, ∀ name ∈ expr.references, known name
  ranges : ∀ property index lower upper body,
    (property, .series (.range index lower upper body)) ∈ node.settings →
    ∀ part ∈ [lower, upper, body], ∀ name ∈ part.references, known name ∨ name = index

theorem Fits.toScoped {defined : List String} {node : Node} (fits : node.Fits (.ofNames defined)) :
    node.Scoped (· ∈ defined) := by
  have resolved (name : String) (found : (Scope.ofNames defined).resolves name = true) :
      name ∈ defined := by
    simpa [Scope.resolves, Scope.ofNames] using found
  constructor
  · intro expr member name used
    obtain ⟨⟨property, value⟩, inNode, inValue⟩ := List.mem_flatMap.mp member
    have valueFits := fits _ inNode
    cases value with
    | text _ => cases inValue
    | expression own =>
        rw [List.mem_singleton.mp inValue] at used
        exact resolved name (valueFits.resolves name used)
    | series values =>
        cases values with
        | list items => exact resolved name ((valueFits expr inValue).resolves name used)
        | range _ _ _ _ => cases inValue
  · intro property index lower upper body inNode part member name used
    have found := ((fits _ inNode) part member).resolves name used
    simp only [Scope.resolves, Scope.withIndex, Scope.ofNames, Bool.or_eq_true, beq_iff_eq,
      Option.some.injEq, List.contains_iff_mem] at found
    rcases found with same | earlier
    · exact .inr same.symm
    · exact .inl earlier

theorem Scoped.mono {known wider : String → Prop} {node : Node} (narrow : node.Scoped known)
    (larger : ∀ name, known name → wider name) : node.Scoped wider := by
  constructor
  · intro expr member name used
    exact larger name (narrow.loose expr member name used)
  · intro property index lower upper body inNode part member name used
    exact (narrow.ranges property index lower upper body inNode part member name used).imp_left
      (larger name)

end Node

theorem Definition.Spelling.fits {tokens : List Token}
    {settings : List (Property × PropertyValue)} {definition : Definition} {context : String}
    {defined : List String} (spelled : Definition.Spelling tokens settings definition)
    (admitted : Definition.Admitted context defined settings definition) :
    definition.node.Fits (.ofNames defined) := by
  cases spelled with
  | intro _ _ _ _ _ => exact (Node.fits_initial _).setAll admitted.fits

namespace Program

def DefinesBefore (program : Program) (index : Nat) (name : String) : Prop :=
  ∃ earlier, earlier < index ∧ ∃ definition, program.definitions[earlier]? = some definition ∧
    definition.name? = some name

/-- What holds of each definition of a program that was read, with the names defined before it. -/
theorem Spelling.getElem? {context : String} {defined : List String} {tokens : List Token}
    {definitions : List Definition} (spelled : Spelling context defined tokens definitions)
    {index : Nat} {definition : Definition} (found : definitions[index]? = some definition) :
    ∃ names, (∀ name, name ∈ names ↔ name ∈ defined ∨ ∃ earlier, earlier < index ∧
        ∃ other, definitions[earlier]? = some other ∧ other.name? = some name) ∧
      ∃ settings definitionTokens, definitionTokens ⊆ tokens ∧
        Definition.Spelling definitionTokens settings definition ∧
        Definition.Admitted context names settings definition := by
  induction spelled generalizing index with
  | nil => simp at found
  | @cons defined tokens rest settings first others spelled admitted _ ih =>
      cases index with
      | zero =>
          cases found
          exact ⟨defined, fun name => by simp, settings, tokens, List.subset_append_left _ _,
            spelled, admitted⟩
      | succ index =>
          obtain ⟨names, same, settings, definitionTokens, included, laterSpelled, laterAdmitted⟩ :=
            ih found
          refine ⟨names, fun name => ?_, settings, definitionTokens,
            List.subset_append_of_subset_right _ included, laterSpelled, laterAdmitted⟩
          rw [same, List.mem_append, Option.mem_toList]
          constructor
          · rintro ((named | earlier) | ⟨earlier, before, other, at_, named⟩)
            · exact .inr ⟨0, Nat.succ_pos _, first, rfl, named⟩
            · exact .inl earlier
            · exact .inr ⟨earlier + 1, Nat.succ_lt_succ before, other, at_, named⟩
          · rintro (earlier | ⟨earlier, before, other, at_, named⟩)
            · exact .inl (.inr earlier)
            · cases earlier with
              | zero =>
                  cases at_
                  exact .inl (.inl named)
              | succ earlier =>
                  exact .inr ⟨earlier, Nat.lt_of_succ_lt_succ before, other, at_, named⟩

variable {context : String} {tokens : List Token} {program : Program}

theorem scoped_of_spelling (spelled : Spelling context [] tokens program.definitions)
    {index : Nat} {definition : Definition}
    (found : program.definitions[index]? = some definition) :
    definition.node.Scoped (program.DefinesBefore index) := by
  obtain ⟨names, same, settings, definitionTokens, _, definitionSpelled, admitted⟩ :=
    spelled.getElem? found
  refine (definitionSpelled.fits admitted).toScoped.mono fun name member => ?_
  exact ((same name).mp member).resolve_left (by simp)

theorem unreserved_of_spelling (spelled : Spelling context [] tokens program.definitions)
    {index : Nat} {definition : Definition} {name : String}
    (found : program.definitions[index]? = some definition)
    (named : definition.name? = some name) : isReservedName context name = false := by
  obtain ⟨_, _, _, _, _, _, admitted⟩ := spelled.getElem? found
  exact admitted.unreserved name named

theorem named_of_exported (spelled : Spelling context [] tokens program.definitions)
    {definition : Definition} (member : definition ∈ program.definitions)
    (exported : definition.exported = true) : definition.name?.isSome = true := by
  obtain ⟨index, found⟩ := List.getElem?_of_mem member
  obtain ⟨_, _, _, _, _, _, admitted⟩ := spelled.getElem? found
  exact admitted.named exported

end Program
end AudioMarkup
