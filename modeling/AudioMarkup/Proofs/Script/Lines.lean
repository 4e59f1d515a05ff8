import AudioMarkup.Proofs.Program.Scoping
import AudioMarkup.Script.Basic
import AudioMarkup.Token.Scan
import Mathlib.Control.Monad.Basic

/-!
Scripts with their expressions kept as trees. A `Script.Line` becomes a statement when the trees are
replaced by their text, and `Program.statements_toScript` states that the statements of a script are
those of the lines of the program. On a line it can be said which local names it refers to outside
of the functions that collect ranges: the node that it acts on, and the names in its expressions.

The lines of a program that was read never refer to a local name before it is declared.
-/

namespace AudioMarkup

def Statement.declared? : Statement → Option String
  | .create name _ _ => some name
  | .declare name _ => some name
  | _ => none

def Script.declaration (name : String) : String := "var " ++ name ++ "="

theorem Statement.render_of_declared {statement : Statement} {name : String}
    (declares : statement.declared? = some name) (context : String) :
    ∃ value, statement.render context = Script.declaration name ++ value := by
  cases statement with
  | create own factory arguments =>
      cases declares
      refine ⟨context ++ "." ++ factory ++ "(" ++ arguments ++ ");", ?_⟩
      simp only [render, Script.declaration, String.append_assoc]
  | declare own value =>
      cases declares
      exact ⟨value ++ ";", String.append_assoc ..⟩
  | setParameter _ _ _ => cases declares
  | setText _ _ _ => cases declares
  | call _ _ _ => cases declares
  | setter _ _ _ => cases declares
  | getter _ _ _ => cases declares

inductive Script.Line where
  | create (name factory : String) (arguments : List Series)
  | declare (name : String) (value : Expr)
  | setParameter (parent : String) (property : Property) (value : Expr)
  | setText (parent : String) (property : Property) (text : String)
  | call (parent method : String) (argument? : Option Expr)
  | setter (parent : String) (property : Property) (access : Access)
  | getter (parent : String) (property : Property) (access : Access)

namespace Script.Line

def argumentText (series : Series) : String := "new Float32Array(" ++ series.scriptText ++ ")"

def statement : Line → Statement
  | .create name factory arguments =>
    .create name factory (",".intercalate (arguments.map argumentText))
  | .declare name value => .declare name value.scriptText
  | .setParameter parent property value => .setParameter parent property value.scriptText
  | .setText parent property text => .setText parent property text
  | .call parent method argument? =>
    .call parent method ((argument?.map Expr.scriptText).getD "")
  | .setter parent property access => .setter parent property access
  | .getter parent property access => .getter parent property access

/-- The local names that a line refers to outside of any range. -/
def references : Line → List String
  | .create _ _ arguments => (arguments.flatMap Series.items).flatMap Expr.references
  | .declare _ value => value.references
  | .setParameter parent _ value => parent :: value.references
  | .setText parent _ _ => [parent]
  | .call parent _ argument? => parent :: argument?.toList.flatMap Expr.references
  | .setter parent _ _ => [parent]
  | .getter parent _ _ => [parent]

def accessors (parent : String) (property : Property) (access : Access) : List Line :=
  [.setter parent property access, .getter parent property access]

end Script.Line

open Script (Line)

/-! ### The lines of a program -/

def Node.lines (name : String) : Node → List Line
  | .constant value => [.declare name value]
  | .oscillator source =>
    .create name "createOscillator" [] ::
      (source.detune?.map fun detune => .setParameter name .detune detune).toList ++
      [.setParameter name .frequency source.frequency,
       match source.wave? with
       | some wave => .call name "setPeriodicWave" (some wave)
       | none => .setText name .waveType source.waveType,
       .call name "start" none]
  | .periodicWave wave => [.create name "createPeriodicWave" [wave.real, wave.imaginary]]

def NodeClass.accessorLines (nodeClass : NodeClass) (name : String) : List Line :=
  nodeClass.exposed.flatMap fun (property, access) => Line.accessors name property access

namespace Definition

def lines (name : String) (definition : Definition) : List Line :=
  definition.node.lines name ++
    if definition.exported && definition.name?.isSome then
      definition.node.nodeClass.accessorLines name
    else []

def localName (named : List NodeClass) (definition : Definition) : String :=
  definition.name?.getD (definition.node.nodeClass.generatedName
    (named.count definition.node.nodeClass + 1))

def namedAfter (named : List NodeClass) (definition : Definition) : List NodeClass :=
  match definition.name? with
  | some _ => named
  | none => definition.node.nodeClass :: named

end Definition

namespace Program

def linesFrom (named : List NodeClass) : List Definition → List Line
  | [] => []
  | definition :: rest =>
    definition.lines (definition.localName named) ++ linesFrom (definition.namedAfter named) rest

def lines (program : Program) : List Line := linesFrom [] program.definitions

end Program

private theorem Node.statements_eq (name : String) (node : Node) :
    node.statements name = (node.lines name).map Line.statement := by
  cases node with
  | constant value => rfl
  | oscillator source =>
      obtain ⟨detune?, frequency, waveType, wave?⟩ := source
      cases detune? <;> cases wave? <;>
        simp only [Node.statements, Node.lines, Option.map_none, Option.map_some,
          Option.toList_none, Option.toList_some, List.cons_append, List.nil_append, List.map_cons,
          List.map_nil, Line.statement, String.intercalate_nil, Option.getD_none, Option.getD_some]
  | periodicWave wave =>
      have joined (real imaginary : String) :
          "new Float32Array(" ++ real ++ "),new Float32Array(" ++ imaginary ++ ")" =
            "new Float32Array(" ++ real ++ ")" ++ "," ++
              ("new Float32Array(" ++ imaginary ++ ")") := by
        apply String.toList_inj.mp
        simp only [String.toList_append, List.append_assoc]
        rfl
      rw [Node.statements, joined, Node.lines, List.map_singleton, Line.statement, List.map_cons,
        List.map_singleton, String.intercalate_cons_cons, String.intercalate_singleton]
      rfl

private theorem NodeClass.accessors_eq (name : String) (nodeClass : NodeClass) :
    nodeClass.accessors name = (nodeClass.accessorLines name).map Line.statement := by
  simp only [NodeClass.accessors, NodeClass.accessorLines, List.map_flatMap]
  rfl

theorem Definition.statements_eq (name : String) (definition : Definition) :
    definition.statements name = (definition.lines name).map Line.statement := by
  rw [Definition.statements, Definition.lines, List.map_append, Node.statements_eq,
    NodeClass.accessors_eq]
  split
  · rfl
  · rfl

theorem Script.addDefinition_eq (script : Script) (definition : Definition) :
    script.addDefinition definition =
      { script with
        statements := script.statements ++ definition.statements (definition.localName script.named)
        named := definition.namedAfter script.named } := by
  unfold Script.addDefinition
  split
  · rename_i name named
    simp only [Script.add, Definition.localName, Definition.namedAfter, named, Option.getD_some]
  · rename_i anonymous
    simp only [Script.add, Script.freshName, Definition.localName, Definition.namedAfter, anonymous,
      Option.getD_none]

private theorem Script.statements_foldl (definitions : List Definition) (script : Script) :
    (definitions.foldl Script.addDefinition script).statements.toList =
      script.statements.toList ++
        (Program.linesFrom script.named definitions).map Line.statement := by
  induction definitions generalizing script with
  | nil => simp only [List.foldl_nil, Program.linesFrom, List.map_nil, List.append_nil]
  | cons definition rest ih =>
      rw [List.foldl_cons, ih, Script.addDefinition_eq, Definition.statements_eq]
      simp only [Program.linesFrom, List.map_append, Array.toList_appendList, List.append_assoc]

theorem Program.statements_toScript (context : String) (program : Program) :
    (program.toScript context).statements.toList = program.lines.map Line.statement := by
  rw [Program.toScript, Script.statements_foldl]
  rfl

/-! ### References to earlier lines -/

namespace Script.Line

def declared? (line : Line) : Option String := line.statement.declared?

def KnownAfter (known : String → Prop) (lines : List Line) (name : String) : Prop :=
  known name ∨ ∃ line ∈ lines, line.declared? = some name

/-- Each line refers to names that are known at first or declared by a line before it. -/
def Closed : (String → Prop) → List Line → Prop
  | _, [] => True
  | known, line :: rest =>
    (∀ name ∈ line.references, known name) ∧ Closed (KnownAfter known [line]) rest

theorem Closed.mono {known wider : String → Prop} {lines : List Line} (closed : Closed known lines)
    (larger : ∀ name, known name → wider name) : Closed wider lines := by
  induction lines generalizing known wider with
  | nil => trivial
  | cons line rest ih =>
      refine ⟨fun name used => larger name (closed.1 name used), ih closed.2 fun name found => ?_⟩
      exact found.imp_left (larger name)

theorem closed_of_forall {known : String → Prop} {lines : List Line}
    (resolved : ∀ line ∈ lines, ∀ name ∈ line.references, known name) : Closed known lines := by
  induction lines generalizing known with
  | nil => trivial
  | cons line rest ih =>
      refine ⟨resolved line (List.mem_cons_self ..), ih fun other member name used => ?_⟩
      exact .inl (resolved other (List.mem_cons_of_mem _ member) name used)

theorem Closed.append {known : String → Prop} {first second : List Line}
    (firstClosed : Closed known first) (secondClosed : Closed (KnownAfter known first) second) :
    Closed known (first ++ second) := by
  induction first generalizing known with
  | nil =>
      refine secondClosed.mono fun name found => found.resolve_right ?_
      rintro ⟨_, impossible, _⟩
      cases impossible
  | cons line rest ih =>
      refine ⟨firstClosed.1, ih firstClosed.2 (secondClosed.mono fun name found => ?_)⟩
      rcases found with earlier | ⟨other, member, declared⟩
      · exact .inl (.inl earlier)
      · rcases List.mem_cons.mp member with rfl | later
        · exact .inl (.inr ⟨other, List.mem_singleton_self _, declared⟩)
        · exact .inr ⟨other, later, declared⟩

theorem Closed.getElem? {known : String → Prop} {lines : List Line} (closed : Closed known lines)
    {position : Nat} {line : Line} (found : lines[position]? = some line) {name : String}
    (used : name ∈ line.references) :
    known name ∨ ∃ earlier, earlier < position ∧ ∃ other, lines[earlier]? = some other ∧
      other.declared? = some name := by
  induction lines generalizing known position with
  | nil => simp at found
  | cons head rest ih =>
      cases position with
      | zero =>
          cases found
          exact .inl (closed.1 name used)
      | succ position =>
          rcases ih closed.2 found with (earlier | ⟨other, member, declared⟩) |
            ⟨earlier, before, other, at_, declared⟩
          · exact .inl earlier
          · rw [List.mem_singleton.mp member] at declared
            exact .inr ⟨0, Nat.succ_pos _, head, rfl, declared⟩
          · exact .inr ⟨earlier + 1, Nat.succ_lt_succ before, other, at_, declared⟩

end Script.Line

def Node.looseReferences (node : Node) : List String :=
  node.looseExpressions.flatMap Expr.references

/-- The first line of a node declares its name and the others may refer to it. -/
private theorem Node.lines_eq_cons (name : String) (node : Node) :
    ∃ first rest, node.lines name = first :: rest ∧ first.declared? = some name ∧
      (∀ used ∈ first.references, used ∈ node.looseReferences) ∧
      ∀ line ∈ rest, ∀ used ∈ line.references, used = name ∨ used ∈ node.looseReferences := by
  cases node with
  | constant value =>
      refine ⟨_, _, rfl, rfl, fun used member => ?_, by simp⟩
      simpa [Line.references, looseReferences, looseExpressions, Node.settings,
        PropertyValue.looseExpressions] using member
  | oscillator source =>
      refine ⟨_, _, rfl, rfl, by simp [Line.references], ?_⟩
      -- A line comes and goes with the detuning, another one changes with the wave.
      obtain ⟨detune?, frequency, waveType, wave?⟩ := source
      cases detune? <;> cases wave? <;>
        simp [Line.references, looseReferences, looseExpressions, Node.settings,
        PropertyValue.looseExpressions]
      all_goals grind
  | periodicWave wave =>
      refine ⟨_, _, rfl, rfl, fun used member => ?_, by simp⟩
      simpa [Line.references, looseReferences, looseExpressions, Node.settings,
        PropertyValue.looseExpressions] using member

private theorem NodeClass.references_accessorLines {nodeClass : NodeClass} {name : String}
    {line : Line} (member : line ∈ nodeClass.accessorLines name) : line.references = [name] := by
  obtain ⟨⟨property, access⟩, _, inside⟩ := List.mem_flatMap.mp member
  simp only [Line.accessors, List.mem_cons, List.not_mem_nil, or_false] at inside
  rcases inside with rfl | rfl
  · rfl
  · rfl

namespace Definition

private theorem lines_eq_cons (name : String) (definition : Definition) :
    ∃ first rest, definition.lines name = first :: rest ∧ first.declared? = some name ∧
      (∀ used ∈ first.references, used ∈ definition.node.looseReferences) ∧
      ∀ line ∈ rest, ∀ used ∈ line.references,
        used = name ∨ used ∈ definition.node.looseReferences := by
  obtain ⟨first, rest, same, declares, firstLoose, restLoose⟩ :=
    Node.lines_eq_cons name definition.node
  rw [lines, same, List.cons_append]
  refine ⟨first, _, rfl, declares, firstLoose, fun line member used inLine => ?_⟩
  rcases List.mem_append.mp member with ofNode | accessor
  · exact restLoose line ofNode used inLine
  · split at accessor
    · rw [NodeClass.references_accessorLines accessor] at inLine
      exact .inl (List.mem_singleton.mp inLine)
    · cases accessor

theorem closed_lines {known : String → Prop} {definition : Definition} (name : String)
    (resolved : definition.node.Scoped known) : Line.Closed known (definition.lines name) := by
  have loose : ∀ used ∈ definition.node.looseReferences, known used := by
    intro used member
    obtain ⟨expr, inNode, inExpr⟩ := List.mem_flatMap.mp member
    exact resolved.loose expr inNode used inExpr
  obtain ⟨first, rest, same, declares, firstLoose, restLoose⟩ := lines_eq_cons name definition
  rw [same]
  refine ⟨fun used inLine => loose used (firstLoose used inLine), ?_⟩
  refine Line.closed_of_forall fun line member used inLine => ?_
  rcases restLoose line member used inLine with rfl | earlier
  · exact .inr ⟨first, List.mem_singleton_self _, declares⟩
  · exact .inl (loose used earlier)

theorem declared_lines (name : String) (definition : Definition) :
    ∃ line ∈ definition.lines name, line.declared? = some name := by
  obtain ⟨first, rest, same, declares, _, _⟩ := lines_eq_cons name definition
  rw [same]
  exact ⟨first, List.mem_cons_self .., declares⟩

end Definition

namespace Program

theorem Spelling.closed_linesFrom {context : String} {defined : List String} {tokens : List Token}
    {definitions : List Definition} (spelled : Spelling context defined tokens definitions)
    {known : String → Prop} (included : ∀ name ∈ defined, known name) (named : List NodeClass) :
    Line.Closed known (linesFrom named definitions) := by
  -- The defined names stay known, and the lines of a definition declare the one that it adds.
  induction spelled generalizing known named with
  | nil => trivial
  | @cons defined _ _ _ definition _ spelled admitted _ ih =>
      have resolved : definition.node.Scoped known :=
        (spelled.fits admitted).toScoped.mono included
      refine (Definition.closed_lines _ resolved).append (ih ?_ _)
      intro name member
      rcases List.mem_append.mp member with own | earlier
      · have localName : definition.localName named = name := by
          rw [Definition.localName, Option.mem_toList.mp own, Option.getD_some]
        have declares := Definition.declared_lines (definition.localName named) definition
        rw [localName] at declares ⊢
        exact .inr declares
      · exact .inl (included name earlier)

/-- Names are referred to after they are defined, in a program that was read and in its script. -/
theorem wellScoped_of_ofTokens (context scriptContext : String) (tokens : List Token)
    (program : Program) (read : ofTokens context tokens = .ok program) :
    (∀ (index : Nat) (definition : Definition), program.definitions[index]? = some definition →
      definition.node.Scoped (program.DefinesBefore index)) ∧
    (∀ definition ∈ program.definitions,
      definition.exported = true → definition.name?.isSome = true) ∧
    (program.toScript scriptContext).statements.toList = program.lines.map Line.statement ∧
    ∀ (position : Nat) (line : Line), program.lines[position]? = some line →
      ∀ name ∈ line.references, ∃ earlier, earlier < position ∧ ∃ declaration : Statement,
        (program.toScript scriptContext).statements.toList[earlier]? = some declaration ∧
        declaration.declared? = some name ∧
        ∃ value, declaration.render scriptContext = Script.declaration name ++ value := by
  have spelled := ofTokens_eq_ok_iff.mp read
  have statements := statements_toScript scriptContext program
  refine ⟨fun index definition => scoped_of_spelling spelled,
    fun definition => named_of_exported spelled, statements, ?_⟩
  intro position line found name used
  have closed : Line.Closed (fun _ => False) program.lines :=
    spelled.closed_linesFrom (fun _ impossible => by cases impossible) []
  rcases closed.getElem? found used with impossible | ⟨earlier, before, other, at_, declares⟩
  · exact impossible.elim
  · refine ⟨earlier, before, other.statement, ?_, declares, ?_⟩
    · rw [statements, List.getElem?_map, at_, Option.map_some]
    · exact Statement.render_of_declared declares scriptContext

theorem wellScoped_of_wave_over_constant :
    ∃ program : Program,
      ofTokens "audioCtx" (Token.scan ("Constant a \x7b value: 1 \x7d export " ++
        "PeriodicWave \x7b real: [a], img: [i, 0 to a, i*a] \x7d")) = .ok program ∧
      program.lines.map Line.references = [[], ["a"], ["a"], ["a"]] ∧
      (∀ (index : Nat) (definition : Definition), program.definitions[index]? = some definition →
        definition.node.Scoped (program.DefinesBefore index)) ∧
      (∀ definition ∈ program.definitions,
        definition.exported = true → definition.name?.isSome = true) ∧
      ∀ (position : Nat) (line : Line), program.lines[position]? = some line →
        ∀ name ∈ line.references, ∃ earlier, earlier < position ∧ ∃ declaration : Statement,
          (program.toScript "audioCtx").statements.toList[earlier]? = some declaration ∧
          declaration.declared? = some name ∧
          ∃ value, declaration.render "audioCtx" = Script.declaration name ++ value := by
  have read : ofTokens "audioCtx" (Token.scan ("Constant a \x7b value: 1 \x7d export " ++
      "PeriodicWave \x7b real: [a], img: [i, 0 to a, i*a] \x7d")) =
        .ok { definitions := [
          { name? := some "a", exported := true, node := .constant (.number ⟨0x3ff0000000000000⟩) },
          { name? := none, exported := false, node := .periodicWave {
              real := .list [.reference "a"]
              imaginary := .range "i" (.number ⟨0⟩) (.reference "a")
                (.operation .mul (.reference "i") (.reference "a")) } }] } := by
    decide +kernel
  obtain ⟨definitions, exports, _, lines⟩ := wellScoped_of_ofTokens _ "audioCtx" _ _ read
  exact ⟨_, read, by decide +kernel, definitions, exports, lines⟩

end Program

end AudioMarkup
