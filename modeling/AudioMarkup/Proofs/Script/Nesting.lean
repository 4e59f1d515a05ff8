import AudioMarkup.Proofs.Script.Capture
import AudioMarkup.Proofs.Script.Glyphs
import AudioMarkup.Proofs.Script.Identifiers

/-!
Lines, literals and brackets of a script. Each statement is one line, its literals are closed, and
outside of them its brackets are nested. The names in it have no character that could break this,
since such a character ends a word of the markup; the type of an oscillator may have any, and stands
in the only literal that there is.

`Script.Moves` says what a text that is all code does to the brackets that are to be closed.
-/

namespace AudioMarkup

namespace Script

/-! ### Brackets -/

def closing? : Char → Option Char
  | '(' => some ')'
  | '[' => some ']'
  | '\x7b' => some '\x7d'
  | _ => none

def isClosing (c : Char) : Bool := c == ')' || c == ']' || c == '\x7d'

/-- The brackets that are to be closed behind a character, the innermost first. -/
def nest (pending : List Char) (c : Char) : Option (List Char) :=
  match closing? c with
  | some closing => some (closing :: pending)
  | none =>
    if isClosing c then
      match pending with
      | [] => none
      | expected :: rest => if c = expected then some rest else none
    else some pending

/-- All literals are closed, and the brackets outside of them are nested. -/
def isIntact (text : String) : Bool :=
  match glyphs? text with
  | none => false
  | some glyphs => (glyphs.filterMap Glyph.code?).foldlM nest [] == some []

def marks : List Char := ['"', '\n', '(', ')', '[', ']', '\x7b', '\x7d']

def isInert (c : Char) : Bool := !marks.contains c

/-- A condition that no mark meets leaves only inert characters. -/
theorem all_isInert_of {condition : Char → Bool}
    (excluded : marks.all (fun c => !condition c) = true) {text : List Char}
    (all : text.all condition = true) : text.all isInert = true := by
  rw [List.all_eq_true] at excluded all ⊢
  intro c member
  rw [isInert, Bool.not_eq_true', ← Bool.not_eq_true, List.contains_iff_mem]
  intro isMark
  have impossible := excluded c isMark
  rw [all c member] at impossible
  cases impossible

private theorem nest_of_isInert {c : Char} (inert : isInert c = true) (pending : List Char) :
    nest pending c = some pending := by
  rw [isInert, Bool.not_eq_true', ← Bool.not_eq_true, List.contains_iff_mem] at inert
  have other (mark : Char) (isMark : mark ∈ marks) : c ≠ mark := by
    rintro rfl
    exact inert isMark
  have notOpening : closing? c = none := by
    unfold closing?
    split
    · exact absurd rfl (other '(' (by decide))
    · exact absurd rfl (other '[' (by decide))
    · exact absurd rfl (other '\x7b' (by decide))
    · rfl
  have notClosing : isClosing c = false := by
    rw [isClosing, beq_eq_false_iff_ne.mpr (other ')' (by decide)),
      beq_eq_false_iff_ne.mpr (other ']' (by decide)),
      beq_eq_false_iff_ne.mpr (other '\x7d' (by decide))]
    rfl
  unfold nest
  rw [notOpening, notClosing]
  rfl

private theorem foldlM_nest_of_all_isInert {text : List Char} (inert : text.all isInert = true)
    (pending : List Char) : text.foldlM nest pending = some pending := by
  induction text with
  | nil => rfl
  | cons c rest ih =>
      rw [List.all_cons, Bool.and_eq_true] at inert
      rw [List.foldlM_cons, nest_of_isInert inert.1]
      exact ih inert.2

private theorem nest_append {pending after : List Char} {c : Char}
    (nested : nest pending c = some after) (below : List Char) :
    nest (pending ++ below) c = some (after ++ below) := by
  unfold nest at nested ⊢
  split at nested
  · cases nested
    rfl
  · split at nested
    · rename_i closes
      cases pending with
      | nil => cases nested
      | cons expected rest =>
          rw [List.cons_append, if_pos closes]
          dsimp only at nested ⊢
          split at nested
          · rename_i same
            cases nested
            rw [if_pos same]
          · cases nested
    · rename_i open_
      cases nested
      rw [if_neg open_]

private theorem foldlM_nest_append {text pending after : List Char}
    (nested : text.foldlM nest pending = some after) (below : List Char) :
    text.foldlM nest (pending ++ below) = some (after ++ below) := by
  induction text generalizing pending with
  | nil =>
      cases nested
      rfl
  | cons c rest ih =>
      rw [List.foldlM_cons, Option.bind_eq_bind, Option.bind_eq_some_iff] at nested
      obtain ⟨next, first, others⟩ := nested
      rw [List.foldlM_cons, nest_append first]
      exact ih others

/-! ### Code -/

/-- The text is code on one line, and it leaves one list of brackets to be closed in the place of
another. -/
structure Moves (text : String) (before after : List Char) : Prop where
  oneLine : text.toList.all Text.isQuotable = true
  nested : ∀ below, text.toList.foldlM nest (before ++ below) = some (after ++ below)

/-- What a fixed text does can be seen without the brackets further out. -/
theorem moves_of_run (text : String) (before after below : List Char)
    (run : text.toList.all Text.isQuotable = true ∧ text.toList.foldlM nest before = some after) :
    Moves text (before ++ below) (after ++ below) := by
  refine ⟨run.1, fun deeper => ?_⟩
  rw [List.append_assoc, List.append_assoc]
  exact foldlM_nest_append run.2 (below ++ deeper)

theorem moves_of_isInert {text : String} (inert : text.toList.all isInert = true)
    (pending : List Char) : Moves text pending pending := by
  refine ⟨?_, fun below => foldlM_nest_of_all_isInert inert _⟩
  rw [List.all_eq_true] at inert ⊢
  intro c member
  have notMark := inert c member
  rw [isInert, Bool.not_eq_true', ← Bool.not_eq_true, List.contains_iff_mem] at notMark
  rw [Text.isQuotable, Bool.and_eq_true, bne_iff_ne, bne_iff_ne]
  constructor
  · rintro rfl
    exact notMark (by decide)
  · rintro rfl
    exact notMark (by decide)

theorem Moves.append {first second : String} {before between after : List Char}
    (moves : Moves first before between) (movesOn : Moves second between after) :
    Moves (first ++ second) before after := by
  constructor
  · rw [String.toList_append, List.all_append, moves.oneLine, movesOn.oneLine, Bool.and_self]
  · intro below
    rw [String.toList_append, List.foldlM_append, moves.nested]
    exact movesOn.nested below

theorem moves_join {texts : List String} {pending : List Char}
    (each : ∀ text ∈ texts, Moves text pending pending) :
    Moves (String.join texts) pending pending := by
  induction texts with
  | nil =>
      rw [String.join_nil]
      exact moves_of_isInert rfl pending
  | cons first rest ih =>
      rw [String.join_cons]
      exact (each first (List.mem_cons_self ..)).append
        (ih fun text member => each text (List.mem_cons_of_mem _ member))

end Script

open Script (Moves isInert moves_of_run moves_of_isInert moves_join all_isInert_of)

private theorem Expr.moves_scriptText {expr : Expr}
    (names : ∀ name ∈ expr.references, name.toList.all isInert = true) (pending : List Char) :
    Moves expr.scriptText pending pending := by
  have opening (below : List Char) : Moves "(" below (')' :: below) :=
    moves_of_run "(" [] [')'] below (by decide)
  have closing (below : List Char) : Moves ")" (')' :: below) below :=
    moves_of_run ")" [')'] [] below (by decide)
  induction expr generalizing pending with
  | number value =>
      rw [scriptText_number]
      exact moves_of_isInert (all_isInert_of (by decide) value.all_scriptText) pending
  | reference name =>
      rw [scriptText_reference]
      exact moves_of_isInert (names name (List.mem_singleton_self name)) pending
  | operation operator left right leftIh rightIh =>
      have symbol : operator.symbol.toList.all isInert = true := by cases operator <;> decide
      have leftMoves := leftIh (fun name member => names name (List.mem_append_left _ member))
      have rightMoves := rightIh (fun name member => names name (List.mem_append_right _ member))
      rw [scriptText_operation]
      exact (leftMoves pending).append ((moves_of_isInert symbol pending).append
        (rightMoves pending))
  | call function argument ih =>
      have functionName : function.scriptName.toList.all isInert = true := by
        cases function <;> decide
      rw [scriptText_call]
      exact (moves_of_isInert functionName pending).append ((opening pending).append
        ((ih names _).append (closing pending)))
  | group inner ih =>
      rw [scriptText_group]
      exact (opening pending).append ((ih names _).append (closing pending))

private theorem Series.moves_scriptText {series : Series}
    (names : ∀ name ∈ series.writtenNames, name.toList.all isInert = true) (pending : List Char) :
    Moves series.scriptText pending pending := by
  cases series with
  | list items =>
      cases items with
      | nil =>
          rw [scriptText_list_nil]
          exact moves_of_run "[]" [] [] pending (by decide)
      | cons first rest =>
          have each (item : Expr) (member : item ∈ first :: rest) (below : List Char) :
              Moves item.scriptText below below :=
            item.moves_scriptText (fun name used =>
              names name (List.mem_flatMap.mpr ⟨item, member, used⟩)) below
          have others (below : List Char) :
              Moves (String.join (rest.map fun item => "," ++ item.scriptText)) below below := by
            apply moves_join
            intro text member
            obtain ⟨item, inRest, rfl⟩ := List.mem_map.mp member
            exact (moves_of_run "," [] [] below (by decide)).append
              (each item (List.mem_cons_of_mem _ inRest) below)
          rw [scriptText_list_cons]
          exact (moves_of_run "[" [] [']'] pending (by decide)).append
            ((each first (List.mem_cons_self ..) _).append
              ((others _).append (moves_of_run "]" [']'] [] pending (by decide))))
  | range index lower upper body =>
      have own : index.toList.all isInert = true := names index (List.mem_cons_self ..)
      have collector : (collectorName index).toList.all isInert = true := by
        rw [collectorName, String.toList_append, List.all_append, own]
        decide
      have part (expr : Expr) (inside : ∀ name ∈ expr.references,
          name ∈ lower.references ++ (upper.references ++ body.references)) (below : List Char) :
          Moves expr.scriptText below below :=
        expr.moves_scriptText (fun name used =>
          names name (List.mem_cons_of_mem _ (inside name used))) below
      have lowerMoves := part lower fun name used => by simp [used]
      have upperMoves := part upper fun name used => by simp [used]
      have bodyMoves := part body fun name used => by simp [used]
      have opened := moves_of_run "(function()\x7bvar " [] ['\x7d', ')'] pending (by decide)
        |>.append (moves_of_isInert collector _)
        |>.append (moves_of_run "=[];" [] [] _ (by decide))
      have looped := moves_of_run "for(var " [] [')'] ('\x7d' :: ')' :: pending) (by decide)
        |>.append (moves_of_isInert own _)
        |>.append (moves_of_run "=" [] [] _ (by decide))
        |>.append (lowerMoves _)
        |>.append (moves_of_run ";" [] [] _ (by decide))
        |>.append (moves_of_isInert own _)
        |>.append (moves_of_run "<" [] [] _ (by decide))
        |>.append (upperMoves _)
        |>.append (moves_of_run ";++" [] [] _ (by decide))
        |>.append (moves_of_isInert own _)
        |>.append (moves_of_run ")\x7b" [')'] ['\x7d'] _ (by decide))
        |>.append (moves_of_isInert collector _)
        |>.append (moves_of_run ".push(" [] [')'] _ (by decide))
        |>.append (bodyMoves _)
        |>.append (moves_of_run ");\x7d" [')', '\x7d'] [] _ (by decide))
      have closed := moves_of_run "return " [] [] ('\x7d' :: ')' :: pending) (by decide)
        |>.append (moves_of_isInert collector _)
        |>.append (moves_of_run ";\x7d)()" ['\x7d', ')'] [] _ (by decide))
      rw [scriptText_range]
      exact (opened.append looped).append closed

/-! ### Statements -/

namespace Script

structure Sealed (text : String) (literals : List (List Char)) : Prop where
  oneLine : '\n' ∉ text.toList
  scanned : ∃ glyphs, glyphs? text = some glyphs ∧ glyphs.filterMap Glyph.literal? = literals ∧
    ∀ pending, (glyphs.filterMap Glyph.code?).foldlM nest pending = some pending

theorem Moves.toSealed {text : String} (moves : Moves text [] []) : Sealed text [] := by
  have quotable (c : Char) (member : c ∈ text.toList) : c ≠ '"' ∧ c ≠ '\n' := by
    have own := List.all_eq_true.mp moves.oneLine c member
    rwa [Text.isQuotable, Bool.and_eq_true, bne_iff_ne, bne_iff_ne] at own
  have unquoted : '"' ∉ text.toList := fun member => (quotable _ member).1 rfl
  refine ⟨fun member => (quotable _ member).2 rfl, _, glyphs?_of_unquoted unquoted, ?_, ?_⟩
  · rw [List.filterMap_map]
    exact List.filterMap_eq_nil_iff.mpr fun _ _ => rfl
  · rw [List.filterMap_map]
    have same : Glyph.code? ∘ Glyph.code = some := rfl
    rw [same, List.filterMap_some]
    exact moves.nested

theorem Sealed.append {first second : String} {literals others : List (List Char)}
    (isSealed : Sealed first literals) (secondSealed : Sealed second others) :
    Sealed (first ++ second) (literals ++ others) := by
  obtain ⟨oneLine, glyphs, scanned, rfl, nested⟩ := isSealed
  obtain ⟨secondLine, secondGlyphs, secondScanned, rfl, secondNested⟩ := secondSealed
  refine ⟨?_, _, glyphs?_append scanned secondScanned, List.filterMap_append, fun pending => ?_⟩
  · rw [String.toList_append, List.mem_append]
    exact fun member => member.elim oneLine secondLine
  · rw [List.filterMap_append, List.foldlM_append, nested]
    exact secondNested pending

private theorem newline_not_mem_escape (c : Char) : '\n' ∉ Text.escape c := by
  have shortMarks (mark : Char) (short : Text.shortEscape? mark = some c) : mark ≠ '\n' := by
    rintro rfl
    cases short
  rcases Text.escape_cases c with ⟨mark, short, same⟩ | ⟨small, same⟩ | ⟨_, _, notSmall, same⟩
  · rw [same]
    simp [(shortMarks mark short).symm]
  · have digits : ∀ digit < 16, '\n' ≠ Nat.digitChar digit := by decide
    have high := digits (c.toNat / 16) (by omega)
    have low := digits (c.toNat % 16) (Nat.mod_lt _ (by decide))
    rw [same]
    simp [high, low]
  · rw [same, List.mem_singleton]
    rintro rfl
    exact notSmall (by decide)

theorem sealed_quote (text : String) :
    Sealed (Text.quote text) [text.toList.flatMap Text.escape] := by
  refine ⟨?_, _, glyphs?_quote text, rfl, fun pending => rfl⟩
  rw [Text.quote, String.toList_ofList]
  intro member
  simp only [List.cons_append, List.mem_cons, List.mem_append, List.mem_flatMap, List.not_mem_nil,
    or_false] at member
  rcases member with impossible | ⟨c, _, inside⟩ | impossible
  · exact absurd impossible (by decide)
  · exact newline_not_mem_escape c inside
  · exact absurd impossible (by decide)

theorem Sealed.isIntact {text : String} {literals : List (List Char)}
    (isSealed : Sealed text literals) : isIntact text = true := by
  obtain ⟨glyphs, scanned, _, nested⟩ := isSealed.scanned
  unfold Script.isIntact
  rw [scanned]
  dsimp only
  rw [nested]
  rfl

end Script

def Statement.literals (context : String) (statement : Statement) : List (List Char) :=
  ((Script.glyphs? (statement.render context)).getD []).filterMap Script.Glyph.literal?

open Script (Sealed sealed_quote)

namespace Statement

def texts : Statement → List String
  | .setText _ _ text => [text]
  | _ => []

variable {context name : String}

private theorem moves_create (contextInert : context.toList.all isInert = true)
    (nameInert : name.toList.all isInert = true) {factory arguments : String}
    (factoryInert : factory.toList.all isInert = true)
    (argumentsMove : ∀ pending, Moves arguments pending pending) :
    Moves ((create name factory arguments).render context) [] [] :=
  moves_of_run "var " [] [] [] (by decide)
    |>.append (moves_of_isInert nameInert _)
    |>.append (moves_of_run "=" [] [] _ (by decide))
    |>.append (moves_of_isInert contextInert _)
    |>.append (moves_of_run "." [] [] _ (by decide))
    |>.append (moves_of_isInert factoryInert _)
    |>.append (moves_of_run "(" [] [')'] _ (by decide))
    |>.append (argumentsMove _)
    |>.append (moves_of_run ");" [')'] [] _ (by decide))

private theorem moves_call (nameInert : name.toList.all isInert = true)
    {method arguments : String} (methodInert : method.toList.all isInert = true)
    (argumentsMove : ∀ pending, Moves arguments pending pending) :
    Moves ((call name method arguments).render context) [] [] :=
  moves_of_isInert nameInert []
    |>.append (moves_of_run "." [] [] _ (by decide))
    |>.append (moves_of_isInert methodInert _)
    |>.append (moves_of_run "(" [] [')'] _ (by decide))
    |>.append (argumentsMove _)
    |>.append (moves_of_run ");" [')'] [] _ (by decide))

private theorem inert_name (property : Property) : property.name.toList.all isInert = true := by
  cases property <;> decide

private theorem inert_target (nameInert : name.toList.all isInert = true) (property : Property)
    (access : Access) : (access.target name property).toList.all isInert = true := by
  have dot : ".".toList.all isInert = true := by decide
  have value : ".value".toList.all isInert = true := by decide
  cases access with
  | parameter =>
      simp only [Access.target, String.toList_append, List.all_append, nameInert, dot, value,
        inert_name, Bool.and_self]
  | field =>
      simp only [Access.target, String.toList_append, List.all_append, nameInert, dot, inert_name,
        Bool.and_self]
  | binding => exact nameInert

private theorem moves_setter (nameInert : name.toList.all isInert = true) (property : Property)
    (access : Access) : Moves ((setter name property access).render context) [] [] :=
  moves_of_run "this.set_" [] [] [] (by decide)
    |>.append (moves_of_isInert nameInert _)
    |>.append (moves_of_run "_" [] [] _ (by decide))
    |>.append (moves_of_isInert (inert_name property) _)
    |>.append (moves_of_run "=function(v)\x7b" [] ['\x7d'] _ (by decide))
    |>.append (moves_of_isInert (inert_target nameInert property access) _)
    |>.append (moves_of_run "=v;\x7d;" ['\x7d'] [] _ (by decide))

private theorem moves_getter (nameInert : name.toList.all isInert = true) (property : Property)
    (access : Access) : Moves ((getter name property access).render context) [] [] :=
  moves_of_run "this.get_" [] [] [] (by decide)
    |>.append (moves_of_isInert nameInert _)
    |>.append (moves_of_run "_" [] [] _ (by decide))
    |>.append (moves_of_isInert (inert_name property) _)
    |>.append (moves_of_run "=function()\x7breturn " [] ['\x7d'] _ (by decide))
    |>.append (moves_of_isInert (inert_target nameInert property access) _)
    |>.append (moves_of_run ";\x7d;" ['\x7d'] [] _ (by decide))

private theorem sealed_setText (nameInert : name.toList.all isInert = true) (property : Property)
    (text : String) : Sealed ((setText name property text).render context)
      [text.toList.flatMap Text.escape] := by
  have before := moves_of_isInert nameInert []
    |>.append (moves_of_run "." [] [] _ (by decide))
    |>.append (moves_of_isInert (inert_name property) _)
    |>.append (moves_of_run "=" [] [] _ (by decide))
  have after := moves_of_run ";" [] [] [] (by decide)
  exact (before.toSealed.append (sealed_quote text)).append after.toSealed

end Statement

/-- Every statement of a node is sealed if the names in it are inert. -/
theorem Node.Emits.toSealed {context name : String} {node : Node} {statement : Statement}
    (emits : node.Emits name statement) (contextInert : context.toList.all isInert = true)
    (nameInert : name.toList.all isInert = true)
    (names : ∀ other ∈ node.writtenNames, other.toList.all isInert = true) :
    Sealed (statement.render context)
      (statement.texts.map fun text => text.toList.flatMap Text.escape) := by
  have value {property : Property} {expr : Expr}
      (member : (property, .expression expr) ∈ node.settings) (pending : List Char) :
      Moves expr.scriptText pending pending :=
    expr.moves_scriptText (fun other used =>
      names other (List.mem_flatMap.mpr ⟨(property, .expression expr), member, used⟩)) pending
  have coefficients {property : Property} {series : Series}
      (member : (property, .series series) ∈ node.settings) (pending : List Char) :
      Moves series.scriptText pending pending :=
    series.moves_scriptText (fun other used =>
      names other (List.mem_flatMap.mpr ⟨(property, .series series), member, used⟩)) pending
  have nothing (pending : List Char) : Moves "" pending pending := moves_of_isInert rfl pending
  cases emits with
  | createOscillator =>
      exact (Statement.moves_create contextInert nameInert (by decide) nothing).toSealed
  | createPeriodicWave real imaginary =>
      refine (Statement.moves_create contextInert nameInert (by decide)
        fun pending => ?_).toSealed
      exact moves_of_run "new Float32Array(" [] [')'] pending (by decide)
        |>.append (coefficients real _)
        |>.append (moves_of_run "),new Float32Array(" [')'] [')'] _ (by decide))
        |>.append (coefficients imaginary _)
        |>.append (moves_of_run ")" [')'] [] _ (by decide))
  | declare member =>
      have moves := moves_of_run "var " [] [] [] (by decide)
        |>.append (moves_of_isInert nameInert _)
        |>.append (moves_of_run "=" [] [] _ (by decide))
        |>.append (value member _)
        |>.append (moves_of_run ";" [] [] _ (by decide))
      exact moves.toSealed
  | @setParameter property _ member =>
      have moves := moves_of_isInert nameInert []
        |>.append (moves_of_run "." [] [] _ (by decide))
        |>.append (moves_of_isInert (Statement.inert_name property) _)
        |>.append (moves_of_run ".value=" [] [] _ (by decide))
        |>.append (value member _)
        |>.append (moves_of_run ";" [] [] _ (by decide))
      exact moves.toSealed
  | setText _ => exact Statement.sealed_setText nameInert _ _
  | setWave member =>
      exact (Statement.moves_call nameInert (by decide) (value member)).toSealed
  | start => exact (Statement.moves_call nameInert (by decide) nothing).toSealed
  | setter _ => exact (Statement.moves_setter nameInert _ _).toSealed
  | getter _ => exact (Statement.moves_getter nameInert _ _).toSealed

theorem Script.Sealed.literals_eq {context : String} {statement : Statement}
    {literals : List (List Char)} (isSealed : Sealed (statement.render context) literals) :
    statement.literals context = literals := by
  obtain ⟨glyphs, scanned, same, _⟩ := isSealed.scanned
  rw [Statement.literals, scanned, Option.getD_some, same]

/-- The type of an oscillator without a wave of its own is the only text in its statements. -/
theorem Definition.texts_statements {definition : Definition} {oscillator : Oscillator}
    (isOscillator : definition.node = .oscillator oscillator) (plain : oscillator.wave? = none)
    (name : String) :
    (definition.statements name).flatMap Statement.texts = [oscillator.waveType] := by
  have accessors : (NodeClass.oscillator.accessors name).flatMap Statement.texts = [] := rfl
  have own : (Node.statements name (.oscillator oscillator)).flatMap Statement.texts =
      [oscillator.waveType] := by
    obtain ⟨detune?, frequency, waveType, wave?⟩ := oscillator
    cases plain
    cases detune? <;> rfl
  rw [statements, isOscillator, List.flatMap_append, own]
  split
  · rw [Node.nodeClass, accessors, List.append_nil]
  · rfl

/-! ### Names of a program that was read -/

namespace Text

private theorem inert_of_isName {name : String} (isName : isName name = true) :
    name.toList.all isInert = true := by
  simp only [Text.isName, isBare, Bool.and_eq_true] at isName
  exact all_isInert_of (by decide) isName.1.1.2

private theorem inert_of_isIdentifier {name : String}
    (identifier : Settings.isIdentifier name = true) : name.toList.all isInert = true :=
  all_isInert_of (by decide) (all_isWordChar_of_isIdentifier identifier)

end Text

private theorem Expr.isName_of_mem_references {expr : Expr} (writable : expr.isWritable = true)
    {name : String} (member : name ∈ expr.references) : Text.isName name = true := by
  induction expr with
  | number value => cases member
  | reference own =>
      rw [List.mem_singleton.mp member]
      exact writable
  | operation operator left right leftIh rightIh =>
      rw [isWritable, Bool.and_eq_true] at writable
      rcases List.mem_append.mp member with inLeft | inRight
      · exact leftIh writable.1 inLeft
      · exact rightIh writable.2 inRight
  | call function argument ih => exact ih writable member
  | group inner ih => exact ih writable member

private theorem PropertyValue.isName_of_mem_writtenNames {value : PropertyValue}
    (good : value.isWellFormed = true) {name : String} (member : name ∈ value.writtenNames) :
    Text.isName name = true := by
  have inside {expr : Expr} (exprGood : expr.isWellFormed = true)
      (used : name ∈ expr.references) : Text.isName name = true :=
    Expr.isName_of_mem_references (Expr.isWellFormed_iff.mp exprGood).2.2 used
  cases value with
  | text _ => cases member
  | expression expr => exact inside good member
  | series values =>
      cases values with
      | list items =>
          obtain ⟨item, inItems, used⟩ := List.mem_flatMap.mp member
          exact inside (List.all_eq_true.mp good item inItems) used
      | range index lower upper body =>
          simp only [isWellFormed, Series.isWellFormed, List.all_cons, List.all_nil, Bool.and_true,
            Bool.and_eq_true] at good
          simp only [writtenNames, Series.writtenNames, List.mem_cons, List.mem_append] at member
          rcases member with rfl | inLower | inUpper | inBody
          · exact good.1.1
          · exact inside good.2.1 inLower
          · exact inside good.2.2.1 inUpper
          · exact inside good.2.2.2 inBody

namespace Program

variable {context : String} {program : Program}

private theorem sealed_of_wellFormed
    (identifier : Settings.isIdentifier context = true) (good : program.WellFormed context)
    {index : Nat} {definition : Definition}
    (found : program.definitions[index]? = some definition) {statement : Statement}
    (member : statement ∈ definition.statements
      (definition.scriptName (program.definitions.take (index + 1)))) :
    Sealed (statement.render context)
      (statement.texts.map fun text => text.toList.flatMap Text.escape) := by
  have definitionGood := good.definitions definition (List.mem_of_getElem? found)
  refine (Definition.emits_of_mem_statements member).toSealed
    (Text.inert_of_isIdentifier identifier) ?_ fun other written => ?_
  · rcases definition.scriptName_own_or_made (program.definitions.take (index + 1)) with
      named | ⟨nodeClass, number, made⟩
    · exact Text.inert_of_isName (definitionGood.name _ named)
    · rw [made]
      exact Text.inert_of_isIdentifier (nodeClass.isIdentifier_generatedName number)
  · obtain ⟨setting, inNode, used⟩ := List.mem_flatMap.mp written
    exact Text.inert_of_isName
      (PropertyValue.isName_of_mem_writtenNames (definitionGood.values setting inNode) used)

private theorem sealed_of_mem_blocks (identifier : Settings.isIdentifier context = true)
    (good : program.WellFormed context) {statement : Statement}
    (member : statement ∈ program.blocks.flatten) : Sealed (statement.render context)
      (statement.texts.map fun text => text.toList.flatMap Text.escape) := by
  obtain ⟨block, inBlocks, inBlock⟩ := List.mem_flatten.mp member
  obtain ⟨index, bound, rfl⟩ := List.mem_mapIdx.mp inBlocks
  exact sealed_of_wellFormed identifier good (List.getElem?_eq_getElem bound) inBlock

theorem newline_not_mem_line (identifier : Settings.isIdentifier context = true)
    (good : program.WellFormed context) {line : String} (member : line ∈ Script.preamble context ++
      (program.blocks.flatten.map (Statement.render context) ++ [Script.ending])) :
    '\n' ∉ line.toList := by
  have contextLine := moves_of_run "var " [] [] [] (by decide)
    |>.append (moves_of_isInert (Text.inert_of_isIdentifier identifier) _)
    |>.append (moves_of_run "=new (window.AudioContext||window.webkitAudioContext)();" [] [] _
      (by decide))
  rw [Script.preamble, List.mem_append, List.mem_append, List.mem_cons, List.mem_singleton,
    List.mem_singleton] at member
  rcases member with (rfl | rfl) | inStatements | rfl
  · decide
  · exact contextLine.toSealed.oneLine
  · obtain ⟨statement, inBlocks, rfl⟩ := List.mem_map.mp inStatements
    exact (sealed_of_mem_blocks identifier good inBlocks).oneLine
  · decide

/-- Only the type of the oscillator stands between quotes, and it is read back from there. -/
private theorem literal_of_oscillator (identifier : Settings.isIdentifier context = true)
    (good : program.WellFormed context) {index : Nat} {definition : Definition}
    {oscillator : Oscillator} (found : program.definitions[index]? = some definition)
    (isOscillator : definition.node = .oscillator oscillator) (plain : oscillator.wave? = none) :
    ∃ block content, program.blocks[index]? = some block ∧
      block.flatMap (Statement.literals context) = [content] ∧
      Text.unescape? content = some oscillator.waveType.toList := by
  refine ⟨_, oscillator.waveType.toList.flatMap Text.escape, blocks_getElem? found, ?_,
    Text.unescape?_flatMap_escape _⟩
  have literals {statement : Statement} (member : statement ∈ definition.statements
      (definition.scriptName (program.definitions.take (index + 1)))) :
      statement.literals context =
        statement.texts.map fun text => text.toList.flatMap Text.escape :=
    (sealed_of_wellFormed identifier good found member).literals_eq
  rw [List.flatMap_congr fun statement member => literals member, ← List.map_flatMap,
    Definition.texts_statements isOscillator plain]
  rfl

/-- The lines of a script are the preamble, the statements and the ending. A statement is intact,
and an oscillator without a wave of its own has one literal, which stands for its type. -/
theorem script_intact_of_compile (context source script : String)
    (identifier : Settings.isIdentifier context = true)
    (compiled : compile context source = .ok script) :
    ∃ program : Program, ofText context source = .ok program ∧
      script = Script.joinLines (Script.preamble context ++
        (program.blocks.flatten.map (Statement.render context) ++ [Script.ending])) ∧
      (∀ line ∈ Script.preamble context ++
        (program.blocks.flatten.map (Statement.render context) ++ [Script.ending]),
          '\n' ∉ line.toList) ∧
      (∀ statement ∈ program.blocks.flatten,
        Script.isIntact (statement.render context) = true) ∧
      program.blocks.length = program.definitions.length ∧
      ∀ (index : Nat) (definition : Definition) (oscillator : Oscillator),
        program.definitions[index]? = some definition →
        definition.node = .oscillator oscillator → oscillator.wave? = none →
        ∃ block content, program.blocks[index]? = some block ∧
          block.flatMap (Statement.literals context) = [content] ∧
          Text.unescape? content = some oscillator.waveType.toList := by
  cases read : ofText context source with
  | error diagnostic =>
      rw [compile, read] at compiled
      cases compiled
  | ok program =>
      rw [compile, read] at compiled
      cases compiled
      have good := wellFormed_of_ofText read
      refine ⟨program, rfl, scriptText_eq_joinLines context program, fun line member => ?_,
        fun statement member => ?_, ?_, fun index definition oscillator found => ?_⟩
      · exact newline_not_mem_line identifier good member
      · exact (sealed_of_mem_blocks identifier good member).isIntact
      · rw [blocks, List.length_mapIdx]
      · exact literal_of_oscillator identifier good found

/-- The type ends in a backslash, and has a bracket and control characters. -/
theorem script_intact_of_backslash_before_quote :
    Settings.isIdentifier defaultContext = true ∧
    ∃ (script : String) (program : Program) (block : List Statement) (content : List Char),
      compile defaultContext "Oscillator a \x7b type: \"s\t\x01(\\\" \x7d export" = .ok script ∧
      (∀ statement ∈ program.blocks.flatten,
        Script.isIntact (statement.render defaultContext) = true) ∧
      program.blocks[0]? = some block ∧ block.length = 10 ∧
      block.flatMap (Statement.literals defaultContext) = [content] ∧
      Text.unescape? content = some ['s', '\t', '\x01', '(', '\\'] := by
  have identifier : Settings.isIdentifier defaultContext = true := by decide
  have read : ofText defaultContext "Oscillator a \x7b type: \"s\t\x01(\\\" \x7d export" =
      .ok { definitions := [{ name? := some "a", exported := true, node := .oscillator {
        detune? := none, frequency := Node.concertPitch, waveType := "s\t\x01(\\",
        wave? := none } }] } := by
    decide +kernel
  have compiled := congrArg (Except.map fun program => program.scriptText defaultContext) read
  obtain ⟨program, same, _, _, intact, _, literal⟩ :=
    script_intact_of_compile defaultContext _ _ identifier compiled
  rw [read] at same
  cases same
  obtain ⟨block, content, atFirst, only, unescaped⟩ := literal 0 _ _ rfl rfl rfl
  have length : block.length = 10 := by
    cases atFirst
    rfl
  refine ⟨identifier, _, _, block, content, compiled, intact, atFirst, length, only, ?_⟩
  rw [unescaped]
  decide

end Program
end AudioMarkup
