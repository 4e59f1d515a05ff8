import AudioMarkup.Proofs.Program.Layout
import AudioMarkup.Proofs.Script.Nesting

/-!
One program under several contexts. Reading compares the names of definitions with the context and
does not use it otherwise, so that a text is read to the same program under any context that no
definition is named after. The script of a program has the context as the name that its preamble
declares and as the receiver of the calls that create nodes.

`Script.Template` is a line with a gap for the context. Main statement: how a text is read under
another context, and the script under each context as the same templates with their gaps filled.
The templates are the lines of the script unless the context has a line feed, which is then in every
gap.
-/

namespace AudioMarkup

/-! ### Reading -/

theorem isReservedName_of_ne {context other name : String}
    (unreserved : isReservedName context name = false) (different : name ≠ other) :
    isReservedName other name = false := by
  rw [isReservedName, Bool.or_eq_false_iff] at unreserved ⊢
  exact ⟨beq_eq_false_iff_ne.mpr different, unreserved.2⟩

theorem isReservedName_self (context : String) : isReservedName context context = true := by
  rw [isReservedName, beq_self_eq_true, Bool.true_or]

namespace Definition

/-- A definition with a name has the token of it behind that of its class. -/
private theorem Spelling.tokens_of_name {tokens : List Token}
    {settings : List (Property × PropertyValue)} {definition : Definition} {name : String}
    (spelled : Spelling tokens settings definition) (named : definition.name? = some name) :
    ∃ (classToken nameToken : Token) (nodeClass : NodeClass) (others : List Token),
      tokens = classToken :: nameToken :: others ∧ classToken.kind = .className ∧
      NodeClass.ofName? classToken.text = some nodeClass ∧
      (nameToken.kind = .name ∨ nameToken.kind = .className) ∧ nameToken.text = name := by
  obtain @⟨classToken, _, _, _, nodeClass, _, _, _, classKind, found, nameSpelled, _, _⟩ := spelled
  cases nameSpelled with
  | anonymous => cases named
  | @named token word =>
      cases named
      exact ⟨classToken, token, nodeClass, _, rfl, classKind, found, word, rfl⟩

private theorem parse_of_reserved {context : String} {defined : List String}
    {classToken nameToken : Token} {nodeClass : NodeClass} (after : Stream)
    (classKind : classToken.kind = .className)
    (found : NodeClass.ofName? classToken.text = some nodeClass)
    (word : nameToken.kind = .name ∨ nameToken.kind = .className)
    (reserved : isReservedName context nameToken.text = true) :
    parse context defined (after.unread [classToken, nameToken]) =
      .error ⟨.reservedName, nameToken⟩ after := by
  have classRead : parseClass (after.unread [classToken, nameToken]) =
      .ok (classToken, nodeClass) (after.unread [nameToken]) :=
    parseClass_eq_ok_iff.mpr ⟨classKind, found, rfl⟩
  have taken : Parse.takeIf (fun token => token.kind == .name || token.kind == .className)
      (after.unread [nameToken]) = .ok (some nameToken) after := by
    refine Parse.takeIf_eq_some_iff.mpr ⟨?_, rfl⟩
    simpa only [Bool.or_eq_true, beq_iff_eq] using word
  have nameRead : parseName context defined (after.unread [nameToken]) =
      .error ⟨.reservedName, nameToken⟩ after := by
    rw [parseName, Parse.bind_of_ok taken]
    simp only [reserved, if_true]
    rfl
  rw [parse, Parse.bind_of_ok classRead]
  exact Parse.bind_of_error nameRead

end Definition

namespace Program

variable {context : String} {defined : List String} {tokens : List Token}
  {definitions : List Definition}

theorem Spelling.under {other : String} (spelled : Spelling context defined tokens definitions)
    (unused : other ∉ definitions.filterMap Definition.name?) :
    Spelling other defined tokens definitions := by
  induction spelled with
  | nil => exact .nil
  | @cons _ _ _ _ definition others spelled admitted _ ih =>
      have inRest (member : other ∈ others.filterMap Definition.name?) :
          other ∈ (definition :: others).filterMap Definition.name? := by
        obtain ⟨later, inOthers, named⟩ := List.mem_filterMap.mp member
        exact List.mem_filterMap.mpr ⟨later, List.mem_cons_of_mem _ inOthers, named⟩
      refine .cons spelled ⟨fun name named => ?_, admitted.fresh, admitted.fits, admitted.named⟩
        (ih fun member => unused (inRest member))
      refine isReservedName_of_ne (admitted.unreserved name named) fun same => unused ?_
      exact List.mem_filterMap.mpr ⟨definition, List.mem_cons_self .., same ▸ named⟩

/-- The tokens around the first definition with a name. -/
theorem Spelling.first_with_name {name : String}
    (spelled : Spelling context defined tokens definitions)
    (member : name ∈ definitions.filterMap Definition.name?) :
    ∃ (index : Nat) (definition : Definition) (settings : List (Property × PropertyValue))
      (before own after : List Token),
      definitions[index]? = some definition ∧ definition.name? = some name ∧
      name ∉ (definitions.take index).filterMap Definition.name? ∧
      tokens = before ++ (own ++ after) ∧
      Spelling context defined before (definitions.take index) ∧
      Definition.Spelling own settings definition := by
  induction spelled with
  | nil => cases member
  | @cons defined tokens rest settings definition others spelled admitted othersSpelled ih =>
      by_cases here : definition.name? = some name
      · exact ⟨0, definition, settings, [], tokens, rest, rfl, here, List.not_mem_nil, rfl, .nil,
          spelled⟩
      · have later : name ∈ others.filterMap Definition.name? := by
          obtain ⟨other, inProgram, named⟩ := List.mem_filterMap.mp member
          rcases List.mem_cons.mp inProgram with rfl | inOthers
          · exact absurd named here
          · exact List.mem_filterMap.mpr ⟨other, inOthers, named⟩
        obtain ⟨index, found, foundSettings, before, own, after, at_, named, first, rfl,
          beforeSpelled, ownSpelled⟩ := ih later
        refine ⟨index + 1, found, foundSettings, tokens ++ before, own, after, at_, named, ?_, ?_,
          .cons spelled admitted beforeSpelled, ownSpelled⟩
        · intro impossible
          obtain ⟨other, inFront, otherNamed⟩ := List.mem_filterMap.mp impossible
          rcases List.mem_cons.mp inFront with rfl | inOthers
          · exact here otherNamed
          · exact first (List.mem_filterMap.mpr ⟨other, inOthers, otherNamed⟩)
        · rw [List.append_assoc]

/-- A failure behind some definitions is the failure of the whole. -/
theorem parseDefinitions_unread_error {after stopped : Stream} {diagnostic : Diagnostic}
    (spelled : Spelling context defined tokens definitions) (noExport : Definition.NoExport after)
    (failed : ∀ known, parseDefinitions context known after = .error diagnostic stopped) :
    parseDefinitions context defined (after.unread tokens) = .error diagnostic stopped := by
  induction spelled with
  | nil => exact failed _
  | @cons defined tokens rest settings definition others spelled admitted othersSpelled ih =>
      obtain ⟨more, definitionRead⟩ :=
        parse_unread_first spelled admitted othersSpelled noExport
      rw [parseDefinitions_eq_bind, if_pos more, Parse.bind_of_ok definitionRead]
      exact Parse.bind_of_error ih

/-- Definitions, and behind them one whose name is the context. -/
private theorem ofTokens_of_reserved {own : List Token} (after : List Token)
    {settings : List (Property × PropertyValue)} {definition : Definition}
    (before : Spelling context [] tokens definitions)
    (spelled : Definition.Spelling own settings definition)
    (named : definition.name? = some context) :
    ∃ (classToken nameToken : Token) (others : List Token),
      own = classToken :: nameToken :: others ∧ nameToken.text = context ∧
      ofTokens context (tokens ++ (own ++ after)) = .error ⟨.reservedName, nameToken⟩ := by
  obtain ⟨classToken, nameToken, nodeClass, others, rfl, classKind, found, word, same⟩ :=
    spelled.tokens_of_name named
  refine ⟨classToken, nameToken, others, rfl, same, ?_⟩
  let stream := Stream.ofTokens (tokens ++ (classToken :: nameToken :: others ++ after))
  let behind : Stream := { stream with ahead := others ++ after }
  have noExport : Definition.NoExport (behind.unread [classToken, nameToken]) := by
    intro token next
    cases next
    simp [Token.isKeyword, classKind]
  have reserved : isReservedName context nameToken.text = true := by
    rw [same]
    exact isReservedName_self context
  have failed (known : List String) :
      parseDefinitions context known (behind.unread [classToken, nameToken]) =
        .error ⟨.reservedName, nameToken⟩ behind := by
    have more : (behind.unread [classToken, nameToken]).hasNext = true := rfl
    rw [parseDefinitions_eq_bind, if_pos more]
    exact Parse.bind_of_error (Definition.parse_of_reserved behind classKind found word reserved)
  have read : parse context stream = .error ⟨.reservedName, nameToken⟩ behind :=
    Parse.bind_of_error (parseDefinitions_unread_error before noExport failed)
  rw [ofTokens, read]

end Program

/-! ### Templates of lines -/

namespace Script

/-- A line of a script that may have a gap for the context. -/
inductive Template where
  | fixed (line : String)
  /-- The line that declares the context. -/
  | preamble
  /-- A line that lets the context create a node. -/
  | receiver (name factory arguments : String)
  deriving DecidableEq, Repr

def Template.fill (context : String) : Template → String
  | .fixed line => line
  | .preamble => "var " ++ context ++ "=new (window.AudioContext||window.webkitAudioContext)();"
  | .receiver name factory arguments =>
    "var " ++ name ++ "=" ++ context ++ "." ++ factory ++ "(" ++ arguments ++ ");"

def Template.hasGap : Template → Bool
  | .fixed _ => false
  | .preamble => true
  | .receiver .. => true

/-- The line feeds of a line are those of the context, if under some context it has none. -/
theorem Template.count_fill {context : String} {template : Template}
    (oneLine : '\n' ∉ (template.fill context).toList) (other : String) :
    (template.fill other).toList.count '\n' =
      if template.hasGap then other.toList.count '\n' else 0 := by
  cases template with
  | fixed line => exact List.count_eq_zero.mpr oneLine
  | preamble =>
      simp only [fill, String.toList_append, List.mem_append, not_or] at oneLine
      obtain ⟨⟨before, _⟩, behind⟩ := oneLine
      rw [fill, String.toList_append, String.toList_append, List.count_append, List.count_append,
        List.count_eq_zero.mpr before, List.count_eq_zero.mpr behind, Nat.zero_add, Nat.add_zero]
      rfl
  | receiver name factory arguments =>
      simp only [fill, String.toList_append, List.mem_append, not_or] at oneLine
      obtain ⟨⟨⟨⟨⟨⟨⟨⟨var, own⟩, sign⟩, _⟩, dot⟩, method⟩, opening⟩, inside⟩, closing⟩ := oneLine
      simp only [fill, String.toList_append, List.count_append, List.count_eq_zero.mpr var,
        List.count_eq_zero.mpr own, List.count_eq_zero.mpr sign, List.count_eq_zero.mpr dot,
        List.count_eq_zero.mpr method, List.count_eq_zero.mpr opening,
        List.count_eq_zero.mpr inside, List.count_eq_zero.mpr closing, Nat.zero_add, Nat.add_zero]
      rfl

/-- Each line ends with a line feed, and each gap has those of the context. -/
theorem Template.count_joinLines {context : String} {templates : List Template}
    (oneLine : ∀ template ∈ templates, '\n' ∉ (template.fill context).toList) (other : String) :
    (joinLines (templates.map (fill other))).toList.count '\n' =
      templates.length + templates.countP hasGap * other.toList.count '\n' := by
  induction templates with
  | nil =>
      have empty : joinLines [] = "" := by rw [joinLines, List.map_nil, String.join_nil]
      simp [empty]
  | cons template rest ih =>
      have feed : "\n".toList.count '\n' = 1 := rfl
      rw [List.map_cons, joinLines_cons, String.toList_append, String.toList_append,
        List.count_append, List.count_append, feed,
        count_fill (oneLine template (List.mem_cons_self ..)),
        ih fun later member => oneLine later (List.mem_cons_of_mem _ member), List.length_cons,
        List.countP_cons]
      split
      · ring
      · ring

end Script

/-- Only a statement that creates a node depends on the context. -/
def Statement.template : Statement → Script.Template
  | .create name factory arguments => .receiver name factory arguments
  | statement => .fixed (statement.render "")

theorem Statement.fill_template (context : String) (statement : Statement) :
    statement.template.fill context = statement.render context := by
  cases statement <;> rfl

namespace Text

/-- The parts of a text between its line feeds. -/
def lines (text : String) : List String := (text.toList.splitOn '\n').map String.ofList

theorem length_lines (text : String) : (lines text).length = text.toList.count '\n' + 1 := by
  rw [lines, List.length_map]
  induction text.toList with
  | nil => rfl
  | cons c rest ih =>
      rw [List.splitOn_cons_eq_if_modifyHead]
      split
      · next feed => rw [List.length_cons, ih, beq_iff_eq.mp feed, List.count_cons_self]
      · next other =>
          rw [List.length_modifyHead, ih, List.count_cons_of_ne]
          exact fun same => other (beq_iff_eq.mpr same)

theorem lines_joinLines {parts : List String} (oneLine : ∀ part ∈ parts, '\n' ∉ part.toList) :
    lines (Script.joinLines parts) = parts ++ [""] := by
  induction parts with
  | nil => rfl
  | cons part rest ih =>
      have noFeed : ∀ c ∈ part.toList, (c == '\n') = false := by
        intro c member
        rw [beq_eq_false_iff_ne]
        rintro rfl
        exact oneLine part (List.mem_cons_self ..) member
      have split : (Script.joinLines (part :: rest)).toList.splitOn '\n' =
          part.toList :: (Script.joinLines rest).toList.splitOn '\n' := by
        have feed : "\n".toList = ['\n'] := rfl
        rw [Script.joinLines_cons, String.toList_append, String.toList_append, feed,
          List.append_assoc, List.singleton_append]
        exact List.splitOnP_append_cons_of_forall_mem noFeed '\n' rfl _
      rw [lines, split, List.map_cons, String.ofList_toList, ← lines,
        ih fun other member => oneLine other (List.mem_cons_of_mem _ member), List.cons_append]

end Text

namespace Program

variable {context : String} {program : Program}

def templates (program : Program) : List Script.Template :=
  .fixed "(function()\x7b" :: .preamble ::
    (program.blocks.flatten.map Statement.template ++ [.fixed Script.ending])

theorem fill_templates (context : String) (program : Program) :
    program.templates.map (Script.Template.fill context) = Script.preamble context ++
      (program.blocks.flatten.map (Statement.render context) ++ [Script.ending]) := by
  simp only [templates, List.map_cons, List.map_append, List.map_map, List.map_nil,
    Function.comp_def, Statement.fill_template]
  rfl

private theorem WellFormed.under {other : String} (good : program.WellFormed context)
    (unused : other ∉ program.names) : program.WellFormed other :=
  ⟨good.definitions, good.distinct,
    fun name member => isReservedName_of_ne (good.unreserved name member) fun same =>
      unused (same ▸ member), good.resolved⟩

/-- The mark of the generated names is an identifier, and no definition has it as a name. -/
private theorem newline_not_mem_fill_mark (good : program.WellFormed context)
    {template : Script.Template} (member : template ∈ program.templates) :
    '\n' ∉ (template.fill generatedMark).toList := by
  have unused : generatedMark ∉ program.names := by
    intro isName
    have unreserved := good.unreserved generatedMark isName
    have marked : generatedMark.toList.isPrefixOf generatedMark.toList = true := by decide
    rw [isReservedName, marked, Bool.or_true] at unreserved
    cases unreserved
  apply newline_not_mem_line (by decide) (good.under unused)
  rw [← fill_templates]
  exact List.mem_map_of_mem member

private theorem newline_not_mem_fill (good : program.WellFormed context) {other : String}
    (newContext : '\n' ∉ other.toList) {template : Script.Template}
    (member : template ∈ program.templates) : '\n' ∉ (template.fill other).toList := by
  have counted := Script.Template.count_fill (newline_not_mem_fill_mark good member) other
  rw [List.count_eq_zero.mpr newContext, ite_self] at counted
  exact List.count_eq_zero.mp counted

theorem scriptText_eq_fill (context : String) (program : Program) :
    program.scriptText context =
      Script.joinLines (program.templates.map (Script.Template.fill context)) := by
  rw [scriptText_eq_joinLines, fill_templates]

/-- The line that declares the context has a gap, so the number of lines tells how many line feeds
the context has. -/
private theorem length_lines_eq_iff (good : program.WellFormed context) (first second : String) :
    (Text.lines (program.scriptText first)).length =
        (Text.lines (program.scriptText second)).length ↔
      first.toList.count '\n' = second.toList.count '\n' := by
  have oneLine : ∀ template ∈ program.templates, '\n' ∉ (template.fill generatedMark).toList :=
    fun _ => newline_not_mem_fill_mark good
  have gap : 0 < program.templates.countP Script.Template.hasGap :=
    List.countP_pos_iff.mpr ⟨.preamble, List.mem_cons_of_mem _ (List.mem_cons_self ..), rfl⟩
  rw [Text.length_lines, Text.length_lines, scriptText_eq_fill, scriptText_eq_fill,
    Script.Template.count_joinLines oneLine, Script.Template.count_joinLines oneLine,
    Nat.add_right_cancel_iff, Nat.add_left_cancel_iff, Nat.mul_right_inj gap.ne']

private theorem factory_of_receiver {name factory arguments : String}
    (member : .receiver name factory arguments ∈ program.templates) :
    factory = "createOscillator" ∨ factory = "createPeriodicWave" := by
  simp only [templates, List.mem_cons, List.mem_append, List.mem_map, reduceCtorEq,
    List.not_mem_nil, false_or, or_false] at member
  obtain ⟨statement, inBlocks, same⟩ := member
  obtain ⟨block, isBlock, inBlock⟩ := List.mem_flatten.mp inBlocks
  obtain ⟨index, bound, rfl⟩ := List.mem_mapIdx.mp isBlock
  have emitted := Definition.emits_of_mem_statements inBlock
  cases emitted with
  | createOscillator =>
      cases same
      exact .inl rfl
  | createPeriodicWave _ _ =>
      cases same
      exact .inr rfl
  | declare _ => cases same
  | setParameter _ => cases same
  | setText _ => cases same
  | setWave _ => cases same
  | start => cases same
  | setter _ => cases same
  | getter _ => cases same

/-- A text that is read under one context is read to the same program under any other that is no
name of a definition; otherwise the first definition with this name is refused at its name. The
scripts of the program differ in what fills the gaps of their lines. Two of them have as many lines
exactly if their contexts have as many line feeds. -/
theorem ofText_under_other_context (context other source : String) (program : Program)
    (read : ofText context source = .ok program) :
    (other ∉ program.names → ofText other source = .ok program) ∧
    (other ∈ program.names →
      ∃ (index : Nat) (definition : Definition) (settings : List (Property × PropertyValue))
        (before rest after : List Token) (classToken nameToken : Token),
        program.definitions[index]? = some definition ∧ definition.name? = some other ∧
        (∀ earlier ∈ program.definitions.take index, earlier.name? ≠ some other) ∧
        Token.scan source = before ++ (classToken :: nameToken :: rest ++ after) ∧
        ofTokens context before = .ok { definitions := program.definitions.take index } ∧
        Definition.Spelling (classToken :: nameToken :: rest) settings definition ∧
        nameToken.text = other ∧
        ofText other source = .error ⟨.reservedName, nameToken⟩) ∧
    (∀ scriptContext : String,
      program.scriptText scriptContext =
        Script.joinLines (program.templates.map (Script.Template.fill scriptContext)) ∧
      ('\n' ∉ scriptContext.toList → Text.lines (program.scriptText scriptContext) =
        program.templates.map (Script.Template.fill scriptContext) ++ [""])) ∧
    (∀ name factory arguments : String, .receiver name factory arguments ∈ program.templates →
      factory = "createOscillator" ∨ factory = "createPeriodicWave") ∧
    ∀ first second : String,
      (Text.lines (program.scriptText first)).length =
          (Text.lines (program.scriptText second)).length ↔
        first.toList.count '\n' = second.toList.count '\n' := by
  have good := wellFormed_of_ofText read
  have spelled := ofTokens_eq_ok_iff.mp read
  refine ⟨fun unused => ofTokens_eq_ok_iff.mpr (spelled.under unused), fun member => ?_,
    fun scriptContext => ⟨scriptText_eq_fill scriptContext program, fun newContext => ?_⟩,
    fun name factory arguments => factory_of_receiver, length_lines_eq_iff good⟩
  · obtain ⟨index, definition, settings, before, own, after, found, named, first, scanned,
      beforeSpelled, ownSpelled⟩ := spelled.first_with_name member
    obtain ⟨classToken, nameToken, rest, rfl, same, failed⟩ :=
      ofTokens_of_reserved after (beforeSpelled.under first) ownSpelled named
    refine ⟨index, definition, settings, before, rest, after, classToken, nameToken, found, named,
      fun earlier inFront sameName => ?_, scanned, ofTokens_eq_ok_iff.mpr beforeSpelled, ownSpelled,
      same, ?_⟩
    · exact first (List.mem_filterMap.mpr ⟨earlier, inFront, sameName⟩)
    · rw [ofText, scanned]
      exact failed
  · rw [scriptText_eq_fill]
    apply Text.lines_joinLines
    intro line member
    obtain ⟨template, inTemplates, rfl⟩ := List.mem_map.mp member
    exact newline_not_mem_fill good newContext inTemplates

/-- Under the name of the second node as the context, the text is refused there. -/
theorem ofText_under_other_context_of_second_node :
    ∃ program : Program,
      ofText "audioCtx" "Oscillator a \x7b\x7d PeriodicWave Wave \x7b\x7d" = .ok program ∧
      ofText "Wave" "Oscillator a \x7b\x7d PeriodicWave Wave \x7b\x7d" =
        .error ⟨.reservedName, ⟨1, 33, "Wave", .className⟩⟩ ∧
      ofText "ctx" "Oscillator a \x7b\x7d PeriodicWave Wave \x7b\x7d" = .ok program ∧
      Text.lines (program.scriptText "ctx") = [
        "(function()\x7b", "var ctx=new (window.AudioContext||window.webkitAudioContext)();",
        "var a=ctx.createOscillator();", "a.frequency.value=440;", "a.type=\"sine\";", "a.start();",
        "var Wave=ctx.createPeriodicWave(new Float32Array([]),new Float32Array([]));", "\x7d)();",
        ""] := by
  have read : ofText "audioCtx" "Oscillator a \x7b\x7d PeriodicWave Wave \x7b\x7d" =
      .ok { definitions := [
        { name? := some "a", exported := false, node := .initial .oscillator },
        { name? := some "Wave", exported := false, node := .initial .periodicWave }] } := by
    decide +kernel
  have under := ofText_under_other_context "audioCtx" "ctx" _ _ read
  obtain ⟨_, _, _, _, _, _, _, nameToken, _, _, _, scanned, _, _, text, failed⟩ :=
    (ofText_under_other_context "audioCtx" "Wave" _ _ read).2.1 (by decide)
  refine ⟨_, read, ?_, under.1 (by decide), ?_⟩
  · have only : ∀ token ∈ Token.scan "Oscillator a \x7b\x7d PeriodicWave Wave \x7b\x7d",
        token.text = "Wave" → token = ⟨1, 33, "Wave", .className⟩ := by
      decide +kernel
    rw [failed, only nameToken _ text]
    rw [scanned]
    exact List.mem_append_right _ (List.mem_cons_of_mem _ (List.mem_cons_self ..))
  · rw [(under.2.2.1 "ctx").2 (by decide)]
    decide +kernel

/-- A line feed in the context is in the script once for each gap. -/
theorem lines_under_context_with_line_feed :
    ∃ program : Program,
      ofText "ctx" "Oscillator a \x7b\x7d" = .ok program ∧
      ofText "a\nb" "Oscillator a \x7b\x7d" = .ok program ∧
      Text.lines (program.scriptText "ctx") = [
        "(function()\x7b", "var ctx=new (window.AudioContext||window.webkitAudioContext)();",
        "var a=ctx.createOscillator();", "a.frequency.value=440;", "a.type=\"sine\";", "a.start();",
        "\x7d)();", ""] ∧
      Text.lines (program.scriptText "a\nb") = [
        "(function()\x7b", "var a", "b=new (window.AudioContext||window.webkitAudioContext)();",
        "var a=a", "b.createOscillator();", "a.frequency.value=440;", "a.type=\"sine\";",
        "a.start();", "\x7d)();", ""] := by
  refine ⟨{ definitions := [
    { name? := some "a", exported := false, node := .initial .oscillator }] }, ?_⟩
  decide +kernel

end Program
end AudioMarkup
