import AudioMarkup.Proofs.Program.Canonical

/-!
References that a range captures. The script of a range is a function with two local names, the
index and an array that is named after it; the bounds and the body of the range stand inside the
function. The index is meant to hide what else has its name. The array can hide a definition as
well, and a reference to the definition then leads to the array.

A definition may have the name of the array unless that name is reserved. Main statement: for which
indices there is a text with a captured reference, and what has to stand before it.
-/

namespace AudioMarkup

namespace Series

def collectorName (index : String) : String := "_" ++ index

def functionLocals : Series → List String
  | .list _ => []
  | .range index _ _ _ => [collectorName index, index]

private theorem Piece.render_openRange (count : Nat) (index : String) :
    (Piece.openRange index).render count =
      "(function()\x7bvar " ++ collectorName index ++ "=[];" := by
  have split : "(function()\x7bvar _" = "(function()\x7bvar " ++ "_" := rfl
  calc (Piece.openRange index).render count
      = "(function()\x7bvar _" ++ index ++ "=[];" := rfl
    _ = _ := by simp only [split, collectorName, String.append_assoc]

private theorem Piece.render_loop (count : Nat) (index lower upper body : String) :
    (Piece.loop index lower upper body).render count =
      "for(var " ++ index ++ "=" ++ lower ++ ";" ++ index ++ "<" ++ upper ++ ";++" ++ index ++
        ")\x7b" ++ collectorName index ++ ".push(" ++ body ++ ");\x7d" := by
  have split : ")\x7b_" = ")\x7b" ++ "_" := rfl
  calc (Piece.loop index lower upper body).render count
      = "for(var " ++ index ++ "=" ++ lower ++ ";" ++ index ++ "<" ++ upper ++ ";++" ++ index ++
          ")\x7b_" ++ index ++ ".push(" ++ body ++ ");\x7d" := rfl
    _ = _ := by simp only [split, collectorName, String.append_assoc]

private theorem Piece.render_closeRange (count : Nat) (index : String) :
    (Piece.closeRange index).render count = "return " ++ collectorName index ++ ";\x7d)()" := by
  have split : "return _" = "return " ++ "_" := rfl
  calc (Piece.closeRange index).render count
      = "return _" ++ index ++ ";\x7d)()" := rfl
    _ = _ := by simp only [split, collectorName, String.append_assoc]

/-- The function of a range declares the array and the index; its parts stand inside. -/
theorem scriptText_range (index : String) (lower upper body : Expr) :
    (Series.range index lower upper body).scriptText =
      "(function()\x7bvar " ++ collectorName index ++ "=[];" ++
        ("for(var " ++ index ++ "=" ++ lower.scriptText ++ ";" ++ index ++ "<" ++
          upper.scriptText ++ ";++" ++ index ++ ")\x7b" ++
            collectorName index ++ ".push(" ++ body.scriptText ++ ");\x7d") ++
        ("return " ++ collectorName index ++ ";\x7d)()") := by
  simp only [scriptText, pieces, Piece.renderAll, Piece.renderFrom, Piece.render_openRange,
    Piece.render_loop, Piece.render_closeRange, String.join_cons, String.join_nil,
    String.append_empty, String.append_assoc]

theorem collectorName_ne (index : String) : collectorName index ≠ index := by
  intro same
  have lengths := congrArg String.length same
  rw [collectorName, String.length_append] at lengths
  have one : "_".length = 1 := rfl
  omega

end Series

/-- In a range of the node over the index, a reference that is not to the index is to a name that
the function of the range declares. -/
def Node.Captures (node : Node) (index : String) : Prop :=
  ∃ property lower upper body,
    (property, .series (.range index lower upper body)) ∈ node.settings ∧
    ∃ part ∈ [lower, upper, body], ∃ name ∈ part.references,
      name ≠ index ∧ name ∈ (Series.range index lower upper body).functionLocals

namespace Program

variable {context index : String} {program : Program}

/-- What is captured was defined under the name of the array. -/
theorem definesBefore_of_captures {source : String} (read : ofText context source = .ok program)
    {position : Nat} {definition : Definition}
    (found : program.definitions[position]? = some definition)
    (captures : definition.node.Captures index) :
    program.DefinesBefore position (Series.collectorName index) := by
  obtain ⟨property, lower, upper, body, inNode, part, inParts, name, used, other, hidden⟩ := captures
  have collector : name = Series.collectorName index := by
    simp only [Series.functionLocals, List.mem_cons, List.not_mem_nil, or_false] at hidden
    exact hidden.resolve_right other
  have resolved := (wellFormed_of_ofText read).resolved position definition found
  have known := resolved.ranges property index lower upper body inNode part inParts name used
  rw [← collector]
  exact known.resolve_right other

private theorem collector_unreserved_of_captures {source : String}
    (read : ofText context source = .ok program) {definition : Definition}
    (member : definition ∈ program.definitions)
    (captures : definition.node.Captures index) :
    Text.isName index = true ∧ Text.startsCapital index = false ∧
      isReservedName context (Series.collectorName index) = false := by
  have good := wellFormed_of_ofText read
  obtain ⟨position, found⟩ := List.getElem?_of_mem member
  obtain ⟨earlier, _, other, at_, named⟩ := definesBefore_of_captures read found captures
  have unreserved := good.unreserved (Series.collectorName index)
    (List.mem_filterMap.mpr ⟨other, List.mem_of_getElem? at_, named⟩)
  obtain ⟨property, lower, upper, body, inNode, _⟩ := captures
  have range := (good.definitions definition member).values _ inNode
  simp only [PropertyValue.isWellFormed, Series.isWellFormed, Bool.and_eq_true,
    Bool.not_eq_true'] at range
  exact ⟨range.1.1, range.1.2, unreserved⟩

/-! ### A program for each index -/

private theorem isName_collectorName (name : Text.isName index = true) :
    Text.isName (Series.collectorName index) = true := by
  have characters : (Series.collectorName index).toList = '_' :: index.toList := by
    rw [Series.collectorName, String.toList_append]
    rfl
  have nonempty : (Series.collectorName index).isEmpty = false := by
    rw [← Bool.not_eq_true, String.isEmpty_iff, ← String.toList_eq_nil_iff, characters]
    exact List.cons_ne_nil _ _
  have notDecimal : Text.isDecimal ('_' :: index.toList) = false := by
    rw [← Bool.not_eq_true]
    intro decimal
    obtain ⟨first, rest, starts, digit⟩ := Text.isDecimal_starts decimal
    cases starts
    exact absurd digit (by decide)
  simp only [Text.isName, Text.isBare, Bool.and_eq_true] at name
  have bare : ('_' :: index.toList).all Text.isBareChar = true := by
    rw [List.all_cons, name.1.1.2, Bool.and_true]
    decide
  rw [Text.isName, Text.isBare, characters, nonempty, bare, notDecimal]
  rfl

def capturing (index : String) : Program where
  definitions := [
    { name? := some (Series.collectorName index), exported := false,
      node := .constant (.number ⟨0⟩) },
    { name? := none, exported := false, node := .periodicWave {
        real := .range index (.number ⟨0⟩) (.reference (Series.collectorName index))
          (.reference index)
        imaginary := .list [] } }]

private theorem wellFormed_of_mem_capturing (name : Text.isName index = true)
    (lowerCase : Text.startsCapital index = false) {definition : Definition}
    (member : definition ∈ (capturing index).definitions) : definition.WellFormed := by
  have collector := isName_collectorName name
  have zero : (Expr.number ⟨0⟩).isWellFormed = true := by decide
  have refers {other : String} (isName : Text.isName other = true) :
      (Expr.reference other).isWellFormed = true :=
    Expr.isWellFormed_iff.mpr ⟨rfl, Nat.zero_le _, isName⟩
  simp only [capturing, List.mem_cons, List.not_mem_nil, or_false] at member
  rcases member with rfl | rfl
  · refine ⟨fun own named => ?_, fun setting inNode => ?_, nofun⟩
    · cases named
      exact collector
    · rw [List.mem_singleton.mp inNode]
      exact zero
  · refine ⟨nofun, fun setting inNode => ?_, nofun⟩
    simp only [Node.settings, List.mem_cons, List.not_mem_nil, or_false] at inNode
    rcases inNode with rfl | rfl
    · simp only [PropertyValue.isWellFormed, Series.isWellFormed, name, lowerCase, zero,
        refers collector, refers name, List.all_cons, List.all_nil, Bool.not_false, Bool.and_self]
    · rfl

private theorem scoped_capturing {position : Nat} {definition : Definition}
    (found : (capturing index).definitions[position]? = some definition) :
    definition.node.Scoped ((capturing index).DefinesBefore position) := by
  match position with
  | 0 =>
      cases found
      refine ⟨fun expr loose other used => ?_, fun property _ _ _ _ inNode => ?_⟩
      · rw [List.mem_singleton.mp loose] at used
        cases used
      · cases List.mem_singleton.mp inNode
  | 1 =>
      cases found
      have known : (capturing index).DefinesBefore 1 (Series.collectorName index) :=
        ⟨0, Nat.zero_lt_one, _, rfl, rfl⟩
      refine ⟨nofun, fun property range lower upper body inNode part inParts other used => ?_⟩
      simp only [Node.settings, List.mem_cons, Prod.mk.injEq, PropertyValue.series.injEq,
        Series.range.injEq, reduceCtorEq, and_false, List.not_mem_nil, or_false] at inNode
      obtain ⟨_, rfl, rfl, rfl, rfl⟩ := inNode
      simp only [List.mem_cons, List.not_mem_nil, or_false] at inParts
      rcases inParts with rfl | rfl | rfl
      · cases used
      · rw [List.mem_singleton.mp used]
        exact .inl known
      · exact .inr (List.mem_singleton.mp used)
  | _ + 2 => cases found

private theorem wellFormed_capturing (name : Text.isName index = true)
    (lowerCase : Text.startsCapital index = false)
    (unreserved : isReservedName context (Series.collectorName index) = false) :
    (capturing index).WellFormed context := by
  refine ⟨fun definition member => wellFormed_of_mem_capturing name lowerCase member,
    List.nodup_singleton _, fun other member => ?_, fun position definition => scoped_capturing⟩
  rw [List.mem_singleton.mp member]
  exact unreserved

private theorem captures_capturing (index : String) :
    ∃ definition ∈ (capturing index).definitions, definition.node.Captures index := by
  exact ⟨_, List.mem_cons_of_mem _ (List.mem_singleton_self _), .real, _, _, _,
    List.mem_cons_self .., .reference (Series.collectorName index), by simp,
    Series.collectorName index, List.mem_singleton_self _, Series.collectorName_ne index,
    List.mem_cons_self ..⟩

/-- The function of a range declares the index and the array. A capture needs an earlier definition
with the name of the array; there is a text with one for each index that can be written at all,
unless the name of the array is reserved. -/
theorem captures_iff_collector_unreserved (context index : String) :
    (∀ lower upper body : Expr, (Series.range index lower upper body).scriptText =
      "(function()\x7bvar " ++ Series.collectorName index ++ "=[];" ++
        ("for(var " ++ index ++ "=" ++ lower.scriptText ++ ";" ++ index ++ "<" ++
          upper.scriptText ++ ";++" ++ index ++ ")\x7b" ++
            Series.collectorName index ++ ".push(" ++ body.scriptText ++ ");\x7d") ++
        ("return " ++ Series.collectorName index ++ ";\x7d)()")) ∧
    (∀ (source : String) (program : Program), ofText context source = .ok program →
      ∀ (position : Nat) (definition : Definition),
        program.definitions[position]? = some definition → definition.node.Captures index →
        program.DefinesBefore position (Series.collectorName index)) ∧
    ((∃ (source : String) (program : Program), ofText context source = .ok program ∧
        ∃ definition ∈ program.definitions, definition.node.Captures index) ↔
      Text.isName index = true ∧ Text.startsCapital index = false ∧
        isReservedName context (Series.collectorName index) = false) := by
  refine ⟨Series.scriptText_range index,
    fun source program read position definition => definesBefore_of_captures read, ?_⟩
  constructor
  · intro ⟨source, program, read, definition, member, captures⟩
    exact collector_unreserved_of_captures read member captures
  · intro ⟨name, lowerCase, unreserved⟩
    have good := wellFormed_capturing name lowerCase unreserved
    exact ⟨_, _, ofText_markup good, captures_capturing index⟩

/-- With an array of a reserved name nothing is captured, whatever the text. -/
theorem captures_iff_collector_unreserved_of_marked_index :
    isReservedName "audioCtx" (Series.collectorName "_n") = true ∧
    (¬ ∃ (source : String) (program : Program), ofText "audioCtx" source = .ok program ∧
      ∃ definition ∈ program.definitions, definition.node.Captures "_n") ∧
    ∃ (source : String) (program : Program), ofText "audioCtx" source = .ok program ∧
      ∃ definition ∈ program.definitions, definition.node.Captures "n" := by
  have reserved : isReservedName "audioCtx" (Series.collectorName "_n") = true := by decide +kernel
  refine ⟨reserved, ?_, ?_⟩
  · rw [(captures_iff_collector_unreserved "audioCtx" "_n").2.2, reserved]
    exact fun impossible => Bool.noConfusion impossible.2.2
  · rw [(captures_iff_collector_unreserved "audioCtx" "n").2.2]
    decide +kernel

/-- The body refers to the constant 2, but multiplies the array. -/
theorem script_of_captured_constant :
    ∃ program : Program,
      ofText "audioCtx"
        "Constant _i \x7b value: 2 \x7d PeriodicWave \x7b real: [i, 0 to 3, _i * i] \x7d" =
          .ok program ∧
      (∃ definition ∈ program.definitions, definition.node.Captures "i") ∧
      program.scriptText "audioCtx" =
        "(function()\x7b\nvar audioCtx=new (window.AudioContext||window.webkitAudioContext)();\n" ++
        "var _i=2;\nvar __PeriodicWave_1=audioCtx.createPeriodicWave(new Float32Array(" ++
        "(function()\x7bvar _i=[];for(var i=0;i<3;++i)\x7b_i.push(_i*i);\x7dreturn _i;\x7d)())," ++
        "new Float32Array([]));\n\x7d)();\n" := by
  have read : ofText "audioCtx"
      "Constant _i \x7b value: 2 \x7d PeriodicWave \x7b real: [i, 0 to 3, _i * i] \x7d" =
        .ok { definitions := [
          { name? := some "_i", exported := false,
            node := .constant (.number ⟨0x4000000000000000⟩) },
          { name? := none, exported := false, node := .periodicWave {
              real := .range "i" (.number ⟨0⟩) (.number ⟨0x4008000000000000⟩)
                (.operation .mul (.reference "_i") (.reference "i"))
              imaginary := .list [] } }] } := by
    decide +kernel
  refine ⟨_, read, ?_, by decide +kernel⟩
  refine ⟨_, List.mem_cons_of_mem _ (List.mem_singleton_self _), .real, _, _, _,
    List.mem_cons_self .., .operation .mul (.reference "_i") (.reference "i"), by simp, "_i",
    List.mem_cons_self .., by decide, List.mem_cons_self ..⟩

end Program
end AudioMarkup
