import AudioMarkup.Proofs.Binary64.Numerals
import AudioMarkup.Proofs.Expr.Transliteration
import AudioMarkup.Proofs.Script.Names
import AudioMarkup.Proofs.Text.Quoted
import AudioMarkup.Script.Basic

/-!
Scripts as text. Read from left to right, a text is made of glyphs: characters of code, and literals
between double quotes, in which a backslash takes the next character along.

What a statement is made of is said once, by `Node.Emits`; which characters the text of an
expression has, by `Expr.all_scriptText`. A script is the text of its lines, each with a line feed.
-/

namespace AudioMarkup

/-! ### Glyphs -/

namespace Script

inductive Glyph where
  | code (c : Char)
  /-- What stands between the quotes. -/
  | literal (content : List Char)
  deriving DecidableEq, Repr

def Glyph.code? : Glyph → Option Char
  | .code c => some c
  | .literal _ => none

def Glyph.literal? : Glyph → Option (List Char)
  | .code _ => none
  | .literal content => some content

/-- The glyphs of a text, behind what was read of a literal that is still open. There are none if
the text ends in a literal. -/
def glyphsFrom? : Option (List Char) → List Char → Option (List Glyph)
  | none, [] => some []
  | none, c :: rest =>
    if c = '"' then glyphsFrom? (some []) rest
    else (glyphsFrom? none rest).map (.code c :: ·)
  | some _, [] => none
  | some content, c :: rest =>
    if c = '"' then (glyphsFrom? none rest).map (.literal content :: ·)
    else if c = '\\' then
      match rest with
      | [] => none
      | next :: rest => glyphsFrom? (some (content ++ ['\\', next])) rest
    else glyphsFrom? (some (content ++ [c])) rest

def glyphs? (text : String) : Option (List Glyph) := glyphsFrom? none text.toList

private theorem glyphsFrom?_code {c : Char} (notQuote : c ≠ '"') (rest : List Char) :
    glyphsFrom? none (c :: rest) = (glyphsFrom? none rest).map (.code c :: ·) := by
  rw [glyphsFrom?, if_neg notQuote]

private theorem glyphsFrom?_open (rest : List Char) :
    glyphsFrom? none ('"' :: rest) = glyphsFrom? (some []) rest := by
  rw [glyphsFrom?, if_pos rfl]

private theorem glyphsFrom?_close (content rest : List Char) :
    glyphsFrom? (some content) ('"' :: rest) =
      (glyphsFrom? none rest).map (.literal content :: ·) := by
  rw [glyphsFrom?.eq_def]
  exact if_pos rfl

private theorem glyphsFrom?_escaped (content : List Char) (next : Char) (rest : List Char) :
    glyphsFrom? (some content) ('\\' :: next :: rest) =
      glyphsFrom? (some (content ++ ['\\', next])) rest := by
  rw [glyphsFrom?, if_neg (by decide), if_pos rfl]

private theorem glyphsFrom?_inside (content : List Char) {c : Char} (notQuote : c ≠ '"')
    (notBackslash : c ≠ '\\') (rest : List Char) :
    glyphsFrom? (some content) (c :: rest) = glyphsFrom? (some (content ++ [c])) rest := by
  rw [glyphsFrom?.eq_def]
  dsimp only
  rw [if_neg notQuote, if_neg notBackslash]

private theorem glyphsFrom?_append {inside : Option (List Char)} {text : List Char}
    {glyphs : List Glyph} (scanned : glyphsFrom? inside text = some glyphs) (after : List Char) :
    glyphsFrom? inside (text ++ after) = (glyphsFrom? none after).map (glyphs ++ ·) := by
  fun_induction glyphsFrom? inside text generalizing glyphs with
  | case1 =>
      cases scanned
      exact Option.map_id'.symm
  | case2 rest ih =>
      rw [List.cons_append, glyphsFrom?_open]
      exact ih scanned
  | case3 c rest notQuote ih =>
      obtain ⟨others, scannedRest, rfl⟩ := Option.map_eq_some_iff.mp scanned
      rw [List.cons_append, glyphsFrom?_code notQuote, ih scannedRest, Option.map_map]
      rfl
  | case4 content => cases scanned
  | case5 content rest ih =>
      obtain ⟨others, scannedRest, rfl⟩ := Option.map_eq_some_iff.mp scanned
      rw [List.cons_append, glyphsFrom?_close, ih scannedRest, Option.map_map]
      rfl
  | case6 content _ => cases scanned
  | case7 content next rest _ ih =>
      rw [List.cons_append, List.cons_append, glyphsFrom?_escaped]
      exact ih scanned
  | case8 content c rest notQuote notBackslash ih =>
      rw [List.cons_append, glyphsFrom?_inside content notQuote notBackslash]
      exact ih scanned

theorem glyphs?_append {first second : String} {glyphs others : List Glyph}
    (scanned : glyphs? first = some glyphs) (scannedSecond : glyphs? second = some others) :
    glyphs? (first ++ second) = some (glyphs ++ others) := by
  rw [glyphs?] at scanned scannedSecond
  rw [glyphs?, String.toList_append, glyphsFrom?_append scanned, scannedSecond, Option.map_some]

/-- A text without a quote is all code. -/
theorem glyphs?_of_unquoted {text : String} (unquoted : '"' ∉ text.toList) :
    glyphs? text = some (text.toList.map .code) := by
  rw [glyphs?]
  generalize text.toList = characters at unquoted ⊢
  induction characters with
  | nil => rfl
  | cons c rest ih =>
      rw [List.mem_cons, not_or] at unquoted
      rw [glyphsFrom?_code (Ne.symm unquoted.1), ih unquoted.2]
      rfl

/-- What is escaped never closes the literal. -/
private theorem glyphsFrom?_escape (content : List Char) (c : Char) (rest : List Char) :
    glyphsFrom? (some content) (Text.escape c ++ rest) =
      glyphsFrom? (some (content ++ Text.escape c)) rest := by
  rcases Text.escape_cases c with
    ⟨mark, _, same⟩ | ⟨small, same⟩ | ⟨notQuote, notBackslash, _, same⟩
  · rw [same]
    exact glyphsFrom?_escaped content mark rest
  · have digits : ∀ digit < 16, Nat.digitChar digit ≠ '"' ∧ Nat.digitChar digit ≠ '\\' := by
      decide
    have high := digits (c.toNat / 16) (by omega)
    have low := digits (c.toNat % 16) (Nat.mod_lt _ (by decide))
    rw [same, List.cons_append, List.cons_append, glyphsFrom?_escaped]
    simp only [List.cons_append, List.nil_append]
    rw [glyphsFrom?_inside _ (by decide) (by decide), glyphsFrom?_inside _ (by decide) (by decide),
      glyphsFrom?_inside _ high.1 high.2, glyphsFrom?_inside _ low.1 low.2]
    simp only [List.append_assoc, List.cons_append, List.nil_append]
  · rw [same]
    exact glyphsFrom?_inside content notQuote notBackslash rest

theorem glyphs?_quote (text : String) :
    glyphs? (Text.quote text) = some [.literal (text.toList.flatMap Text.escape)] := by
  have inside (content characters : List Char) :
      glyphsFrom? (some content) (characters.flatMap Text.escape ++ ['"']) =
        some [.literal (content ++ characters.flatMap Text.escape)] := by
    induction characters generalizing content with
    | nil =>
        rw [List.flatMap_nil, List.nil_append, List.append_nil]
        exact glyphsFrom?_close content []
    | cons c rest ih =>
        rw [List.flatMap_cons, List.append_assoc, glyphsFrom?_escape, ih, List.append_assoc]
  rw [glyphs?, Text.quote, String.toList_ofList, List.cons_append, glyphsFrom?_open]
  exact inside [] text.toList

end Script

/-! ### Characters -/

def Text.isNumeric (c : Char) : Bool := c.isAlphanum || c == '.' || c == '-'

def Text.isArithmetic (c : Char) : Bool := isNumeric c || "+*/()".toList.contains c

private theorem Decimal.all_positional (decimal : Decimal) :
    decimal.positional.all Text.isNumeric = true := by
  have digit {c : Char} (isDigit : c.isDigit = true) : Text.isNumeric c = true := by
    rw [Text.isNumeric, Char.isAlphanum, isDigit, Bool.or_true, Bool.true_or, Bool.true_or]
  have digits : ∀ c ∈ digitsOf decimal.digits, Text.isNumeric c = true := fun c member =>
    digit (List.all_eq_true.mp (all_isDigit_digitsOf decimal.digits) c member)
  have zeros (count : Int) : ∀ c ∈ zeros count, Text.isNumeric c = true := by
    intro c member
    rw [List.eq_of_mem_replicate member]
    decide
  rw [List.all_eq_true]
  intro c member
  unfold positional at member
  dsimp only at member
  split at member
  · simp only [List.cons_append, List.mem_cons, List.mem_append] at member
    rcases member with rfl | rfl | zero | inDigits
    · decide
    · decide
    · exact zeros _ c zero
    · exact digits c inDigits
  · split at member
    · rcases List.mem_append.mp member with inDigits | zero
      · exact digits c inDigits
      · exact zeros _ c zero
    · simp only [List.mem_append, List.mem_cons] at member
      rcases member with whole | rfl | fraction
      · exact digits c (List.mem_of_mem_take whole)
      · decide
      · exact digits c (List.mem_of_mem_drop fraction)

theorem Binary64.all_scriptText (x : Binary64) :
    x.scriptText.toList.all Text.isNumeric = true := by
  have signed {magnitude : List Char} (plain : magnitude.all Text.isNumeric = true) :
      (x.signed magnitude).toList.all Text.isNumeric = true := by
    rw [Binary64.signed, String.toList_ofList]
    split
    · rw [List.all_cons, plain]
      decide
    · exact plain
  unfold scriptText
  split
  · exact signed (by decide)
  · split
    · decide
    · split
      · exact signed (by decide)
      · exact signed (Decimal.all_positional _)

/-- A condition on characters holds of the text of an expression if it holds of the characters of
arithmetic and of the names that the expression refers to. -/
theorem Expr.all_scriptText {condition : Char → Bool}
    (arithmetic : ∀ c, Text.isArithmetic c = true → condition c = true) {expr : Expr}
    (names : ∀ name ∈ expr.references, name.toList.all condition = true) :
    expr.scriptText.toList.all condition = true := by
  have plain {text : String} (all : text.toList.all Text.isArithmetic = true) :
      text.toList.all condition = true :=
    List.all_eq_true.mpr fun c member => arithmetic c (List.all_eq_true.mp all c member)
  have opening : "(".toList.all condition = true := plain (by decide)
  have closing : ")".toList.all condition = true := plain (by decide)
  induction expr with
  | number value =>
      rw [scriptText_number]
      refine plain (List.all_eq_true.mpr fun c member => ?_)
      rw [Text.isArithmetic, List.all_eq_true.mp value.all_scriptText c member, Bool.true_or]
  | reference name =>
      rw [scriptText_reference]
      exact names name (List.mem_singleton_self name)
  | operation operator left right leftIh rightIh =>
      have symbol : operator.symbol.toList.all condition = true :=
        plain (by cases operator <;> decide)
      have leftPlain := leftIh fun name member => names name (List.mem_append_left _ member)
      have rightPlain := rightIh fun name member => names name (List.mem_append_right _ member)
      rw [scriptText_operation, String.toList_append, String.toList_append, List.all_append,
        List.all_append, leftPlain, symbol, rightPlain]
      rfl
  | call function argument ih =>
      have functionName : function.scriptName.toList.all condition = true :=
        plain (by cases function <;> decide)
      rw [scriptText_call, String.toList_append, String.toList_append, String.toList_append,
        List.all_append, List.all_append, List.all_append, functionName, opening, ih names, closing]
      rfl
  | group inner ih =>
      rw [scriptText_group, String.toList_append, String.toList_append, List.all_append,
        List.all_append, opening, ih names, closing]
      rfl

/-! ### The texts of a node -/

namespace Series

private theorem join_renderFrom_items (count : Nat) (items : List Expr) :
    String.join (Piece.renderFrom (count + 1)
      (items.map (fun item => .item item.scriptText) ++ [.closeItems])) =
        String.join (items.map fun item => "," ++ item.scriptText) ++ "]" := by
  induction items generalizing count with
  | nil =>
      have only : Piece.renderFrom (count + 1) [.closeItems] = ["]"] := rfl
      rw [List.map_nil, List.nil_append, only, List.map_nil, String.join_nil, String.join_cons,
        String.join_nil, String.append_empty, String.empty_append]
  | cons item rest ih =>
      have first : (Piece.item item.scriptText).render (count + 1) = "," ++ item.scriptText := rfl
      have counted : (Piece.item item.scriptText).count (count + 1) = count + 1 + 1 := rfl
      rw [List.map_cons, List.cons_append, Piece.renderFrom, first, counted, String.join_cons, ih,
        List.map_cons, String.join_cons, ← String.append_assoc]

theorem scriptText_list_nil : (Series.list []).scriptText = "[]" := by decide

theorem scriptText_list_cons (first : Expr) (rest : List Expr) :
    (Series.list (first :: rest)).scriptText =
      "[" ++ (first.scriptText ++
        (String.join (rest.map fun item => "," ++ item.scriptText) ++ "]")) := by
  have own : (Piece.item first.scriptText).render 0 = first.scriptText := rfl
  have opening : Piece.openItems.render 0 = "[" := rfl
  have counted : (Piece.item first.scriptText).count 0 = 0 + 1 := rfl
  have started : Piece.openItems.count 0 = 0 := rfl
  rw [scriptText, pieces, Piece.renderAll, List.cons_append, Piece.renderFrom, opening, started,
    String.join_cons, List.map_cons, List.cons_append, Piece.renderFrom, own, counted,
    String.join_cons, join_renderFrom_items]

def writtenNames : Series → List String
  | .list items => items.flatMap Expr.references
  | .range index lower upper body =>
    index :: (lower.references ++ (upper.references ++ body.references))

end Series

def PropertyValue.writtenNames : PropertyValue → List String
  | .text _ => []
  | .expression expr => expr.references
  | .series values => values.writtenNames

def Node.writtenNames (node : Node) : List String :=
  node.settings.flatMap fun setting => setting.2.writtenNames

inductive Node.Emits (name : String) (node : Node) : Statement → Prop where
  | createOscillator : Emits name node (.create name "createOscillator" "")
  | createPeriodicWave {real imaginary : Series} :
      (.real, .series real) ∈ node.settings → (.imaginary, .series imaginary) ∈ node.settings →
      Emits name node (.create name "createPeriodicWave"
        ("new Float32Array(" ++ real.scriptText ++ "),new Float32Array(" ++
          imaginary.scriptText ++ ")"))
  | declare {value : Expr} : (.value, .expression value) ∈ node.settings →
      Emits name node (.declare name value.scriptText)
  | setParameter {property : Property} {value : Expr} :
      (property, .expression value) ∈ node.settings →
      Emits name node (.setParameter name property value.scriptText)
  | setText {text : String} : (.waveType, .text text) ∈ node.settings →
      Emits name node (.setText name .waveType text)
  | setWave {wave : Expr} : (.periodicWave, .expression wave) ∈ node.settings →
      Emits name node (.call name "setPeriodicWave" wave.scriptText)
  | start : Emits name node (.call name "start" "")
  | setter {property : Property} {access : Access} :
      (property, access) ∈ node.nodeClass.exposed → Emits name node (.setter name property access)
  | getter {property : Property} {access : Access} :
      (property, access) ∈ node.nodeClass.exposed → Emits name node (.getter name property access)

private theorem Node.emits_of_mem_statements {name : String} {node : Node} {statement : Statement}
    (member : statement ∈ node.statements name) : node.Emits name statement := by
  cases node with
  | constant value =>
      rw [List.mem_singleton.mp member]
      exact .declare (List.mem_singleton_self _)
  | oscillator source =>
      rcases List.mem_append.mp member with early | late
      · rcases List.mem_cons.mp early with rfl | detuned
        · exact .createOscillator
        · obtain ⟨detune, given, rfl⟩ := Option.map_eq_some_iff.mp (Option.mem_toList.mp detuned)
          exact .setParameter (by simp [settings, given])
      · simp only [List.mem_cons, List.not_mem_nil, or_false] at late
        rcases late with rfl | rfl | rfl
        · exact .setParameter (by simp [settings])
        · cases given : source.wave? with
          | some wave => exact .setWave (by simp [settings, given])
          | none => exact .setText (by simp [settings])
        · exact .start
  | periodicWave wave =>
      rw [List.mem_singleton.mp member]
      exact .createPeriodicWave (List.mem_cons_self ..)
        (List.mem_cons_of_mem _ (List.mem_singleton_self _))

theorem Definition.emits_of_mem_statements {name : String} {definition : Definition}
    {statement : Statement} (member : statement ∈ definition.statements name) :
    definition.node.Emits name statement := by
  rcases List.mem_append.mp member with own | accessor
  · exact Node.emits_of_mem_statements own
  · split at accessor
    · obtain ⟨⟨property, access⟩, exposed, inPair⟩ := List.mem_flatMap.mp accessor
      simp only [Statement.accessors, List.mem_cons, List.not_mem_nil, or_false] at inPair
      rcases inPair with rfl | rfl
      · exact .setter exposed
      · exact .getter exposed
    · cases accessor

/-! ### Lines -/

namespace Script

def preamble (context : String) : List String :=
  ["(function()\x7b",
   "var " ++ context ++ "=new (window.AudioContext||window.webkitAudioContext)();"]

def ending : String := "\x7d)();"

def joinLines (lines : List String) : String := String.join (lines.map fun line => line ++ "\n")

theorem joinLines_append (first second : List String) :
    joinLines (first ++ second) = joinLines first ++ joinLines second := by
  rw [joinLines, List.map_append, String.join_append]
  rfl

theorem joinLines_cons (line : String) (rest : List String) :
    joinLines (line :: rest) = line ++ "\n" ++ joinLines rest := by
  rw [joinLines, List.map_cons, String.join_cons, ← joinLines]

private theorem append_lines {first second third opening creating closing feed keyword : String}
    (atOpening : first = opening ++ feed ++ keyword) (atCreating : second = creating ++ feed)
    (atClosing : third = closing ++ feed) (context body : String) :
    first ++ context ++ second ++ body ++ third =
      opening ++ feed ++
        (keyword ++ context ++ creating ++ feed ++ (body ++ (closing ++ feed))) := by
  simp only [atOpening, atCreating, atClosing, String.append_assoc]

theorem render_eq_joinLines (script : Script) :
    script.render = joinLines (preamble script.context ++
      (script.statements.toList.map (Statement.render script.context) ++ [ending])) := by
  have opening : "(function()\x7b\nvar " = "(function()\x7b" ++ "\n" ++ "var " := by decide
  have creating : "=new (window.AudioContext||window.webkitAudioContext)();\n" =
      "=new (window.AudioContext||window.webkitAudioContext)();" ++ "\n" := by decide
  have closing : "\x7d)();\n" = ending ++ "\n" := by decide
  have statements : joinLines (script.statements.toList.map (Statement.render script.context)) =
      String.join (script.statements.toList.map fun statement =>
        statement.render script.context ++ "\n") := by
    rw [joinLines, List.map_map, Function.comp_def]
  have last : joinLines [ending] = ending ++ "\n" := by
    rw [joinLines, List.map_singleton, String.join_cons, String.join_nil, String.append_empty]
  rw [preamble, List.cons_append, List.cons_append, List.nil_append, joinLines_cons, joinLines_cons,
    joinLines_append, statements, last]
  exact append_lines opening creating closing _ _

end Script

namespace Program

theorem scriptText_eq_joinLines (context : String) (program : Program) :
    program.scriptText context = Script.joinLines (Script.preamble context ++
      (program.blocks.flatten.map (Statement.render context) ++ [Script.ending])) := by
  rw [scriptText, Script.render_eq_joinLines, context_toScript, statements_eq_flatten]

theorem blocks_getElem? {program : Program} {index : Nat} {definition : Definition}
    (found : program.definitions[index]? = some definition) :
    program.blocks[index]? = some (definition.statements
      (definition.scriptName (program.definitions.take (index + 1)))) := by
  rw [blocks, List.getElem?_mapIdx, found, Option.map_some]

end Program
end AudioMarkup
