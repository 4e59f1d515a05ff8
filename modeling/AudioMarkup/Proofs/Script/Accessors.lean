import AudioMarkup.Proofs.Script.Capture
import AudioMarkup.Proofs.Script.Glyphs
import AudioMarkup.Proofs.Script.Identifiers

/-!
Accessors: what a script puts on the object that it is run on. Its accessor statements are exactly
those of the exported definitions, and no two of them have the same name, because the name of a
property has no underscore and so can be told from the end.

That the text of the script assigns nothing else on the object depends on the names. Where they
consist of characters of identifiers and no oscillator is called `this`, a scan of the text for
assignments finds the accessors and nothing more.
-/

namespace AudioMarkup

/-! ### Names of accessors -/

def accessorName (verb name property : String) : String := verb ++ "_" ++ name ++ "_" ++ property

def Statement.accessor? : Statement → Option String
  | .setter parent property _ => some (accessorName "set" parent property.name)
  | .getter parent property _ => some (accessorName "get" parent property.name)
  | _ => none

def NodeClass.accessible : NodeClass → List String
  | .constant => ["value"]
  | .oscillator => ["detune", "frequency", "type"]
  | .periodicWave => []

def NodeClass.accesses (nodeClass : NodeClass) : List (String × String) :=
  nodeClass.accessible.flatMap fun property => [("set", property), ("get", property)]

def Definition.accessorNames (definition : Definition) : List String :=
  match definition.name? with
  | some name =>
    if definition.exported then
      definition.node.nodeClass.accesses.map fun (verb, property) => accessorName verb name property
    else []
  | none => []

def Program.accessorNames (program : Program) : List String :=
  program.definitions.flatMap Definition.accessorNames

private theorem bne_of_not_mem {mark : Char} {text : List Char} (plain : mark ∉ text) :
    ∀ c ∈ text, (c != mark) = true := by
  intro c member
  rw [bne_iff_ne]
  rintro rfl
  exact plain member

/-- What stands behind the last underscore. -/
private theorem reverse_takeWhile_of_not_mem {name property : List Char} (plain : '_' ∉ property) :
    (name ++ '_' :: property).reverse.takeWhile (· != '_') = property.reverse := by
  have passed := bne_of_not_mem fun member => plain (List.mem_reverse.mp member)
  rw [List.reverse_append, List.reverse_cons, List.append_assoc,
    List.takeWhile_append_of_pos passed, List.singleton_append,
    List.takeWhile_cons_of_neg (by decide), List.append_nil]

theorem accessorName_inj {verb otherVerb name otherName property otherProperty : String}
    (verbs : verb.toList.length = otherVerb.toList.length)
    (plain : '_' ∉ property.toList) (otherPlain : '_' ∉ otherProperty.toList)
    (same : accessorName verb name property = accessorName otherVerb otherName otherProperty) :
    verb = otherVerb ∧ name = otherName ∧ property = otherProperty := by
  have characters (verb name property : String) : (accessorName verb name property).toList =
      verb.toList ++ ('_' :: (name.toList ++ '_' :: property.toList)) := by
    have underscore : "_".toList = ['_'] := rfl
    simp only [accessorName, String.toList_append, underscore, List.append_assoc, List.cons_append,
      List.nil_append]
  have sameCharacters := congrArg String.toList same
  rw [characters, characters] at sameCharacters
  obtain ⟨sameVerb, behind⟩ := List.append_inj sameCharacters verbs
  have joined := (List.cons.inj behind).2
  have sameProperty : property.toList = otherProperty.toList := by
    have last := congrArg (fun text => text.reverse.takeWhile (· != '_')) joined
    rw [reverse_takeWhile_of_not_mem plain, reverse_takeWhile_of_not_mem otherPlain] at last
    exact List.reverse_inj.mp last
  rw [sameProperty] at joined
  have sameName := List.append_cancel_right joined
  exact ⟨String.toList_inj.mp sameVerb, String.toList_inj.mp sameName,
    String.toList_inj.mp sameProperty⟩

private theorem NodeClass.accesses_facts (nodeClass : NodeClass) :
    nodeClass.accesses.Nodup ∧ ∀ access ∈ nodeClass.accesses,
      access.1.toList.length = 3 ∧ '_' ∉ access.2.toList := by
  cases nodeClass <;> decide

namespace Definition

private theorem mem_accessorNames {definition : Definition} {accessor : String}
    (member : accessor ∈ definition.accessorNames) :
    ∃ name, definition.name? = some name ∧ ∃ access ∈ definition.node.nodeClass.accesses,
      accessor = accessorName access.1 name access.2 := by
  unfold accessorNames at member
  split at member
  · rename_i name named
    split at member
    · obtain ⟨access, inAccesses, same⟩ := List.mem_map.mp member
      exact ⟨name, named, access, inAccesses, same.symm⟩
    · cases member
  · cases member

private theorem nodup_accessorNames (definition : Definition) :
    definition.accessorNames.Nodup := by
  unfold accessorNames
  split
  · rename_i name named
    split
    · obtain ⟨distinct, facts⟩ := definition.node.nodeClass.accesses_facts
      refine distinct.map_on fun first inFirst second inSecond same => ?_
      obtain ⟨sameVerb, _, sameProperty⟩ := accessorName_inj
        ((facts first inFirst).1.trans (facts second inSecond).1.symm)
        (facts first inFirst).2 (facts second inSecond).2 same
      exact Prod.ext sameVerb sameProperty
    · exact List.nodup_nil
  · exact List.nodup_nil

end Definition

namespace Program

variable {context : String} {tokens : List Token} {program : Program}

theorem accessors_toScript (context : String) (program : Program) :
    (program.toScript context).statements.toList.filterMap Statement.accessor? =
      program.accessorNames := by
  have skipped (name : String) (node : Node) :
      (node.statements name).filterMap Statement.accessor? = [] := by
    cases node with
    | constant value => rfl
    | periodicWave wave => rfl
    | oscillator source =>
        obtain ⟨detune?, frequency, waveType, wave?⟩ := source
        cases detune? <;> cases wave? <;> rfl
  have each (name : String) (nodeClass : NodeClass) :
      (nodeClass.accessors name).filterMap Statement.accessor? =
        nodeClass.accesses.map fun (verb, property) => accessorName verb name property := by
    cases nodeClass <;> rfl
  exact filterMap_accessors context program skipped each

/-- Two definitions have different names, and an accessor tells the name of its definition. -/
theorem nodup_accessorNames (spelled : Spelling context [] tokens program.definitions) :
    program.accessorNames.Nodup := by
  rw [accessorNames, List.nodup_flatMap]
  refine ⟨fun definition _ => definition.nodup_accessorNames, ?_⟩
  refine (List.pairwise_filterMap.mp spelled.distinct.1).imp fun {first second} apart => ?_
  intro accessor inFirst inSecond
  obtain ⟨name, named, access, inAccesses, same⟩ := Definition.mem_accessorNames inFirst
  obtain ⟨otherName, otherNamed, other, inOthers, otherSame⟩ :=
    Definition.mem_accessorNames inSecond
  have facts := first.node.nodeClass.accesses_facts.2 access inAccesses
  have otherFacts := second.node.nodeClass.accesses_facts.2 other inOthers
  have sameName := (accessorName_inj (facts.1.trans otherFacts.1.symm) facts.2 otherFacts.2
    (same.symm.trans otherSame)).2.1
  exact apart name named otherName otherNamed sameName

end Program

/-! ### Assignments in a text -/

namespace Script

/-- A character of a path, that is of names with dots between them. -/
def isPathChar (c : Char) : Bool := Text.isWordChar c || c == '.'

def onThis? (path : List Char) : Option String :=
  match path.dropWhile (· != '.') with
  | [] => none
  | _ :: name =>
    if path.takeWhile (· != '.') = "this".toList && !name.contains '.' then
      some (String.ofList name)
    else none

/-- The path that stands before the next glyph, and the names found so far. An equals sign assigns
to the path before it, and all other code and literals end a path. -/
def assign : List Char × List String → Glyph → List Char × List String
  | (path, found), .code c =>
    if c = '=' then ([], found ++ (onThis? path).toList)
    else if isPathChar c then (path ++ [c], found)
    else ([], found)
  | (_, found), .literal _ => ([], found)

theorem assign_equals (path : List Char) (found : List String) :
    assign (path, found) (.code '=') = ([], found ++ (onThis? path).toList) := rfl

theorem assign_code {c : Char} (notEquals : c ≠ '=') (path : List Char) (found : List String) :
    assign (path, found) (.code c) = if isPathChar c then (path ++ [c], found) else ([], found) :=
  if_neg notEquals

theorem assign_literal (path : List Char) (found : List String) (content : List Char) :
    assign (path, found) (.literal content) = ([], found) := rfl

def assignedOnThis (text : String) : List String :=
  (((glyphs? text).getD []).foldl assign ([], [])).2

theorem onThis?_of_not_mem {path : List Char} (plain : '.' ∉ path) : onThis? path = none := by
  rw [onThis?, List.dropWhile_eq_nil_iff.mpr (bne_of_not_mem plain)]

theorem onThis?_field {object : List Char} (plain : '.' ∉ object) (name : List Char) :
    onThis? (object ++ '.' :: name) =
      if object = "this".toList && !name.contains '.' then some (String.ofList name) else none := by
  have passed := bne_of_not_mem plain
  have front : (object ++ '.' :: name).takeWhile (· != '.') = object := by
    rw [List.takeWhile_append_of_pos passed, List.takeWhile_cons_of_neg (by decide),
      List.append_nil]
  have back : (object ++ '.' :: name).dropWhile (· != '.') = '.' :: name := by
    rw [List.dropWhile_append_of_pos passed, List.dropWhile_cons_of_neg (by decide)]
  rw [onThis?, back, front]

/-- The text is code; behind one path it finds these names, and it leaves another path. -/
structure Reads (text : String) (path : List Char) (names : List String) (after : List Char) :
    Prop where
  unquoted : '"' ∉ text.toList
  run : ∀ found, (text.toList.map .code).foldl assign (path, found) = (after, found ++ names)

theorem Reads.append {first second : String} {path between after : List Char}
    {names others : List String} (reads : Reads first path names between)
    (readsOn : Reads second between others after) :
    Reads (first ++ second) path (names ++ others) after := by
  constructor
  · rw [String.toList_append, List.mem_append]
    exact fun member => member.elim reads.unquoted readsOn.unquoted
  · intro found
    rw [String.toList_append, List.map_append, List.foldl_append, reads.run, readsOn.run,
      List.append_assoc]

private theorem assign_path {c : Char} (inPath : isPathChar c = true) (path : List Char)
    (found : List String) : assign (path, found) (.code c) = (path ++ [c], found) := by
  have notEquals : c ≠ '=' := by
    rintro rfl
    exact absurd inPath (by decide)
  rw [assign_code notEquals, if_pos inPath]

/-- A path goes on. -/
theorem reads_path {text : String} (inPath : text.toList.all isPathChar = true) (path : List Char) :
    Reads text path [] (path ++ text.toList) := by
  constructor
  · intro quote
    exact absurd (List.all_eq_true.mp inPath '"' quote) (by decide)
  · intro found
    rw [List.append_nil]
    generalize text.toList = characters at inPath ⊢
    induction characters generalizing path with
    | nil => rw [List.map_nil, List.foldl_nil, List.append_nil]
    | cons c rest ih =>
        rw [List.all_cons, Bool.and_eq_true] at inPath
        rw [List.map_cons, List.foldl_cons, assign_path inPath.1, ih _ inPath.2, List.append_assoc]
        rfl

private theorem assign_found (glyph : Glyph) (path : List Char) (found : List String) :
    assign (path, found) glyph =
      ((assign (path, []) glyph).1, found ++ (assign (path, []) glyph).2) := by
  cases glyph with
  | literal content => rw [assign_literal, assign_literal, List.append_nil]
  | code c =>
      by_cases equals : c = '='
      · rw [equals, assign_equals, assign_equals, List.nil_append]
      · rw [assign_code equals, assign_code equals]
        by_cases inPath : isPathChar c = true
        · rw [if_pos inPath, if_pos inPath, List.append_nil]
        · rw [if_neg inPath, if_neg inPath, List.append_nil]

/-- The names that were found before make no difference. -/
private theorem foldl_assign_found (glyphs : List Glyph) (path : List Char) (found : List String) :
    glyphs.foldl assign (path, found) =
      ((glyphs.foldl assign (path, [])).1, found ++ (glyphs.foldl assign (path, [])).2) := by
  induction glyphs generalizing path found with
  | nil => rw [List.foldl_nil, List.foldl_nil, List.append_nil]
  | cons glyph rest ih =>
      rw [List.foldl_cons, List.foldl_cons, assign_found, ih,
        ih (assign (path, []) glyph).1 (assign (path, []) glyph).2, List.append_assoc]

/-- A fixed text that starts with a character outside of paths ends the path before it. -/
theorem reads_break (text : String) (path : List Char)
    (run : '"' ∉ text.toList ∧
      text.toList.head?.any (fun c => c != '=' && !isPathChar c) = true ∧
      (text.toList.map Glyph.code).foldl assign ([], []) = ([], [])) :
    Reads text path [] [] := by
  obtain ⟨unquoted, starts, closed⟩ := run
  refine ⟨unquoted, fun found => ?_⟩
  generalize text.toList = characters at starts closed ⊢
  cases characters with
  | nil => cases starts
  | cons c rest =>
      rw [List.head?_cons, Option.any_some, Bool.and_eq_true, bne_iff_ne,
        Bool.not_eq_true'] at starts
      have ends (other : List Char) (names : List String) :
          assign (other, names) (.code c) = ([], names) := by
        rw [assign_code starts.1, starts.2, if_neg Bool.false_ne_true]
      rw [List.map_cons, List.foldl_cons, ends] at closed ⊢
      rw [foldl_assign_found, closed]

/-- A fixed text that starts with an equals sign assigns to the path before it. -/
theorem reads_equals (text : String) (path : List Char)
    (run : '"' ∉ text.toList ∧ text.toList.head? = some '=' ∧
      (text.toList.map Glyph.code).foldl assign ([], []) = ([], [])) :
    Reads text path (onThis? path).toList [] := by
  obtain ⟨unquoted, starts, closed⟩ := run
  refine ⟨unquoted, fun found => ?_⟩
  generalize text.toList = characters at starts closed ⊢
  cases characters with
  | nil => cases starts
  | cons c rest =>
      cases starts
      have nothing : onThis? [] = none := rfl
      rw [List.map_cons, List.foldl_cons, assign_equals, nothing, Option.toList_none,
        List.append_nil] at closed
      rw [List.map_cons, List.foldl_cons, assign_equals, foldl_assign_found, closed,
        List.append_nil]

/-- An equals sign behind a path that is not on the object. -/
theorem reads_local (text : String) {path : List Char} (elsewhere : onThis? path = none)
    (run : '"' ∉ text.toList ∧ text.toList.head? = some '=' ∧
      (text.toList.map Glyph.code).foldl assign ([], []) = ([], [])) :
    Reads text path [] [] := by
  have reads := reads_equals text path run
  rwa [elsewhere, Option.toList_none] at reads

/-- Code without an equals sign assigns nothing. -/
theorem exists_reads (text : String) (path : List Char)
    (plain : '"' ∉ text.toList ∧ '=' ∉ text.toList) :
    ∃ after, Reads text path [] after := by
  obtain ⟨unquoted, plain⟩ := plain
  have run : ∃ after, ∀ found, (text.toList.map Glyph.code).foldl assign (path, found) =
      (after, found) := by
    generalize text.toList = characters at plain ⊢
    induction characters generalizing path with
    | nil => exact ⟨path, fun found => rfl⟩
    | cons c rest ih =>
        rw [List.mem_cons, not_or] at plain
        by_cases inPath : isPathChar c = true
        · obtain ⟨after, others⟩ := ih (path ++ [c]) plain.2
          refine ⟨after, fun found => ?_⟩
          rw [List.map_cons, List.foldl_cons, assign_path inPath, others]
        · obtain ⟨after, others⟩ := ih [] plain.2
          refine ⟨after, fun found => ?_⟩
          rw [List.map_cons, List.foldl_cons, assign_code (Ne.symm plain.1), if_neg inPath,
            others]
  obtain ⟨after, others⟩ := run
  exact ⟨after, unquoted, fun found => by rw [others, List.append_nil]⟩

/-- A fixed text at the start of a path. -/
theorem reads_start (text : String) (after : List Char)
    (run : '"' ∉ text.toList ∧
      (text.toList.map Glyph.code).foldl assign ([], []) = (after, [])) :
    Reads text [] [] after := by
  refine ⟨run.1, fun found => ?_⟩
  rw [foldl_assign_found, run.2]

theorem dot_not_mem_of_word {name : String} (word : name.toList.all Text.isWordChar = true) :
    '.' ∉ name.toList := by
  intro member
  exact absurd (List.all_eq_true.mp word '.' member) (by decide)

theorem onThis?_word {name : String} (word : name.toList.all Text.isWordChar = true) :
    onThis? ([] ++ name.toList) = none :=
  onThis?_of_not_mem (dot_not_mem_of_word word)

theorem all_isPathChar_of_word {name : String} (word : name.toList.all Text.isWordChar = true) :
    name.toList.all isPathChar = true := by
  refine List.all_eq_true.mpr fun c member => ?_
  rw [isPathChar, List.all_eq_true.mp word c member, Bool.true_or]

theorem reads_word {name : String} (word : name.toList.all Text.isWordChar = true)
    (path : List Char) : Reads name path [] (path ++ name.toList) :=
  reads_path (all_isPathChar_of_word word) path

theorem exists_reads_join {texts : List String}
    (each : ∀ text ∈ texts, ∀ path, ∃ after, Reads text path [] after) (path : List Char) :
    ∃ after, Reads (String.join texts) path [] after := by
  induction texts generalizing path with
  | nil =>
      rw [String.join_nil]
      exact exists_reads "" path (by decide)
  | cons first rest ih =>
      obtain ⟨between, firstReads⟩ := each first (List.mem_cons_self ..) path
      obtain ⟨after, restReads⟩ :=
        ih (fun text member => each text (List.mem_cons_of_mem _ member)) between
      rw [String.join_cons]
      exact ⟨after, firstReads.append restReads⟩

end Script

open Script

private theorem Expr.exists_reads {expr : Expr}
    (names : ∀ name ∈ expr.references, name.toList.all Text.isWordChar = true) (path : List Char) :
    ∃ after, Reads expr.scriptText path [] after := by
  have other {mark : Char} (notArithmetic : Text.isArithmetic mark = false)
      (notWord : Text.isWordChar mark = false) : mark ∉ expr.scriptText.toList := by
    have differs {condition : Char → Bool} (excluded : condition mark = false) (c : Char)
        (holds : condition c = true) : (c != mark) = true := by
      rw [bne_iff_ne]
      rintro rfl
      rw [excluded] at holds
      cases holds
    have plain : expr.scriptText.toList.all (· != mark) = true :=
      Expr.all_scriptText (differs notArithmetic) fun name used =>
        List.all_eq_true.mpr fun c member =>
          differs notWord c (List.all_eq_true.mp (names name used) c member)
    intro member
    exact absurd rfl (bne_iff_ne.mp (List.all_eq_true.mp plain mark member))
  exact Script.exists_reads _ path
    ⟨other (by decide) (by decide), other (by decide) (by decide)⟩

private theorem Series.reads_scriptText {series : Series}
    (names : ∀ name ∈ series.writtenNames, name.toList.all Text.isWordChar = true)
    (path : List Char) : Reads series.scriptText path [] [] := by
  cases series with
  | list items =>
      cases items with
      | nil =>
          rw [scriptText_list_nil]
          exact reads_break "[]" path (by decide)
      | cons first rest =>
          have each (item : Expr) (member : item ∈ first :: rest) (before : List Char) :
              ∃ after, Reads item.scriptText before [] after :=
            item.exists_reads (fun name used =>
              names name (List.mem_flatMap.mpr ⟨item, member, used⟩)) before
          have others (before : List Char) : ∃ after, Reads
              (String.join (rest.map fun item => "," ++ item.scriptText)) before [] after := by
            apply exists_reads_join
            intro text member start
            obtain ⟨item, inRest, rfl⟩ := List.mem_map.mp member
            obtain ⟨after, itemReads⟩ := each item (List.mem_cons_of_mem _ inRest) []
            exact ⟨after, (reads_break "," start (by decide)).append itemReads⟩
          obtain ⟨between, firstReads⟩ := each first (List.mem_cons_self ..) []
          obtain ⟨after, restReads⟩ := others between
          rw [scriptText_list_cons]
          exact (reads_break "[" path (by decide)).append (firstReads.append (restReads.append
            (reads_break "]" after (by decide))))
  | range index lower upper body =>
      have own : index.toList.all Text.isWordChar = true := names index (List.mem_cons_self ..)
      have collector : (collectorName index).toList.all Text.isWordChar = true := by
        rw [collectorName, String.toList_append, List.all_append, own]
        decide
      have part (expr : Expr) (inside : ∀ name ∈ expr.references,
          name ∈ lower.references ++ (upper.references ++ body.references)) (before : List Char) :
          ∃ after, Reads expr.scriptText before [] after :=
        expr.exists_reads (fun name used =>
          names name (List.mem_cons_of_mem _ (inside name used))) before
      obtain ⟨afterLower, lowerReads⟩ := part lower (fun name used => by simp [used]) []
      obtain ⟨afterUpper, upperReads⟩ := part upper (fun name used => by simp [used]) []
      obtain ⟨afterPush, pushReads⟩ :=
        Script.exists_reads ".push(" ([] ++ (collectorName index).toList) (by decide)
      obtain ⟨afterBody, bodyReads⟩ := part body (fun name used => by simp [used]) afterPush
      have opened := reads_break "(function()\x7bvar " path (by decide)
        |>.append (reads_word collector _)
        |>.append (reads_local "=[];" (onThis?_word collector) (by decide))
      have looped := reads_start "for(var " [] (by decide)
        |>.append (reads_word own _)
        |>.append (reads_local "=" (onThis?_word own) (by decide))
        |>.append lowerReads
        |>.append (reads_break ";" _ (by decide))
        |>.append (reads_word own _)
        |>.append (reads_break "<" _ (by decide))
        |>.append upperReads
        |>.append (reads_break ";++" _ (by decide))
        |>.append (reads_word own _)
        |>.append (reads_break ")\x7b" _ (by decide))
        |>.append (reads_word collector _)
        |>.append pushReads
        |>.append bodyReads
        |>.append (reads_break ");\x7d" _ (by decide))
      have closed := reads_start "return " [] (by decide)
        |>.append (reads_word collector _)
        |>.append (reads_break ";\x7d)()" _ (by decide))
      rw [scriptText_range]
      exact (opened.append looped).append closed

/-! ### Assignments of a statement -/

namespace Script

/-- The literals of the text are closed, it assigns these names, and it ends a path. -/
def Assigns (text : String) (names : List String) : Prop :=
  ∃ glyphs, glyphs? text = some glyphs ∧
    ∀ found, glyphs.foldl assign ([], found) = ([], found ++ names)

theorem Reads.assigns {text : String} {names : List String} (reads : Reads text [] names []) :
    Assigns text names :=
  ⟨_, glyphs?_of_unquoted reads.unquoted, reads.run⟩

theorem assigns_quote (text : String) : Assigns (Text.quote text) [] := by
  refine ⟨_, glyphs?_quote text, fun found => ?_⟩
  rw [List.append_nil]
  rfl

theorem Assigns.append {first second : String} {names others : List String}
    (assigns : Assigns first names) (assignsOn : Assigns second others) :
    Assigns (first ++ second) (names ++ others) := by
  obtain ⟨glyphs, scanned, run⟩ := assigns
  obtain ⟨otherGlyphs, otherScanned, otherRun⟩ := assignsOn
  refine ⟨_, glyphs?_append scanned otherScanned, fun found => ?_⟩
  rw [List.foldl_append, run, otherRun, List.append_assoc]

theorem Assigns.assignedOnThis_eq {text : String} {names : List String}
    (assigns : Assigns text names) : assignedOnThis text = names := by
  obtain ⟨glyphs, scanned, run⟩ := assigns
  rw [assignedOnThis, scanned, Option.getD_some, run, List.nil_append]

theorem assigns_joinLines {α : Type} {items : List α} {line : α → String}
    {names : α → List String} (each : ∀ item ∈ items, Assigns (line item) (names item)) :
    Assigns (joinLines (items.map line)) (items.flatMap names) := by
  induction items with
  | nil =>
      have empty : joinLines [] = "" := by rw [joinLines, List.map_nil, String.join_nil]
      rw [List.map_nil, empty, List.flatMap_nil]
      exact (reads_start "" [] (by decide)).assigns
  | cons item rest ih =>
      have feed := (reads_break "\n" [] (by decide)).assigns
      have own := (each item (List.mem_cons_self ..)).append feed
      rw [List.append_nil] at own
      rw [List.map_cons, joinLines_cons, List.flatMap_cons]
      exact own.append (ih fun other member => each other (List.mem_cons_of_mem _ member))

end Script

namespace Statement

variable {context name : String}

private theorem reads_create (contextWord : context.toList.all Text.isWordChar = true)
    (nameWord : name.toList.all Text.isWordChar = true) {factory arguments : String}
    (factoryWord : factory.toList.all Text.isWordChar = true)
    (argumentsRead : Reads arguments [] [] []) :
    Reads ((create name factory arguments).render context) [] [] [] :=
  reads_start "var " [] (by decide)
    |>.append (reads_word nameWord _)
    |>.append (reads_local "=" (onThis?_word nameWord) (by decide))
    |>.append (reads_word contextWord _)
    |>.append (reads_path (by decide : ".".toList.all isPathChar = true) _)
    |>.append (reads_word factoryWord _)
    |>.append (reads_break "(" _ (by decide))
    |>.append argumentsRead
    |>.append (reads_break ");" _ (by decide))

private theorem reads_call (nameWord : name.toList.all Text.isWordChar = true)
    {method arguments : String} (methodWord : method.toList.all Text.isWordChar = true)
    {after : List Char} (argumentsRead : Reads arguments [] [] after) :
    Reads ((call name method arguments).render context) [] [] [] :=
  reads_word nameWord []
    |>.append (reads_path (by decide : ".".toList.all isPathChar = true) _)
    |>.append (reads_word methodWord _)
    |>.append (reads_break "(" _ (by decide))
    |>.append argumentsRead
    |>.append (reads_break ");" _ (by decide))

private theorem reads_declare (nameWord : name.toList.all Text.isWordChar = true) {value : String}
    {after : List Char} (valueReads : Reads value [] [] after) :
    Reads ((declare name value).render context) [] [] [] :=
  reads_start "var " [] (by decide)
    |>.append (reads_word nameWord _)
    |>.append (reads_local "=" (onThis?_word nameWord) (by decide))
    |>.append valueReads
    |>.append (reads_break ";" _ (by decide))

private theorem word_name (property : Property) :
    property.name.toList.all Text.isWordChar = true := by
  cases property <;> decide

private theorem path_target (nameWord : name.toList.all Text.isWordChar = true)
    (property : Property) (access : Access) :
    (access.target name property).toList.all isPathChar = true := by
  have own := all_isPathChar_of_word nameWord
  have field := all_isPathChar_of_word (word_name property)
  have dot : ".".toList.all isPathChar = true := by decide
  have value : ".value".toList.all isPathChar = true := by decide
  cases access with
  | parameter =>
      simp only [Access.target, String.toList_append, List.all_append, own, dot, value, field,
        Bool.and_self]
  | field =>
      simp only [Access.target, String.toList_append, List.all_append, own, dot, field,
        Bool.and_self]
  | binding => exact own

/-- Only a field of `this` itself would be assigned on it. -/
private theorem onThis?_target (nameWord : name.toList.all Text.isWordChar = true)
    (property : Property) {access : Access} (elsewhere : access = .field → name ≠ "this") :
    onThis? (access.target name property).toList = none := by
  have dot : ".".toList = ['.'] := rfl
  cases access with
  | parameter =>
      have deeper : (property.name.toList ++ ".value".toList).contains '.' = true := by
        rw [List.contains_iff_mem]
        exact List.mem_append_right _ (by decide)
      rw [Access.target, String.toList_append, String.toList_append, String.toList_append, dot,
        List.append_assoc, List.append_assoc, List.singleton_append,
        onThis?_field (dot_not_mem_of_word nameWord), deeper, Bool.not_true, Bool.and_false,
        if_neg Bool.false_ne_true]
  | field =>
      have different : name.toList ≠ "this".toList := fun same =>
        elsewhere rfl (String.toList_inj.mp same)
      rw [Access.target, String.toList_append, String.toList_append, dot, List.append_assoc,
        List.singleton_append, onThis?_field (dot_not_mem_of_word nameWord),
        decide_eq_false different, Bool.false_and, if_neg Bool.false_ne_true]
  | binding => exact onThis?_of_not_mem (dot_not_mem_of_word nameWord)

private theorem append_of_eq {suffix field equals : String} (split : suffix = field ++ equals)
    (front : String) : front ++ suffix = front ++ field ++ equals := by
  rw [split, String.append_assoc]

private theorem reads_setParameter (nameWord : name.toList.all Text.isWordChar = true)
    (property : Property) {value : String} {after : List Char}
    (valueReads : Reads value [] [] after) :
    Reads ((setParameter name property value).render context) [] [] [] := by
  have split : (setParameter name property value).render context =
      Access.target name property .parameter ++ "=" ++ value ++ ";" :=
    congrArg (· ++ value ++ ";") (append_of_eq (by decide) _)
  have target : onThis? (Access.target name property .parameter).toList = none :=
    onThis?_target nameWord property nofun
  rw [split]
  exact reads_path (path_target nameWord property .parameter) []
    |>.append (reads_local "=" target (by decide))
    |>.append valueReads
    |>.append (reads_break ";" _ (by decide))

private theorem assigns_setText (nameWord : name.toList.all Text.isWordChar = true)
    (elsewhere : name ≠ "this") (property : Property) (text : String) :
    Assigns ((setText name property text).render context) [] := by
  have target : onThis? (Access.target name property .field).toList = none :=
    onThis?_target nameWord property fun _ => elsewhere
  have before := reads_path (path_target nameWord property .field) []
    |>.append (reads_local "=" target (by decide))
  exact (before.assigns.append (assigns_quote text)).append (reads_break ";" [] (by decide)).assigns

private theorem onThis?_accessor {verb start : String}
    (starts : start.toList = "this".toList ++ '.' :: (verb.toList ++ "_".toList))
    (verbPlain : '.' ∉ verb.toList) (nameWord : name.toList.all Text.isWordChar = true)
    (property : Property) :
    onThis? (start.toList ++ name.toList ++ "_".toList ++ property.name.toList) =
      some (accessorName verb name property.name) := by
  have path : start.toList ++ name.toList ++ "_".toList ++ property.name.toList =
      "this".toList ++ '.' :: (accessorName verb name property.name).toList := by
    simp only [starts, accessorName, String.toList_append, List.append_assoc, List.cons_append]
  have plain : (accessorName verb name property.name).toList.contains '.' = false := by
    have underscore : '.' ∉ "_".toList := by decide
    rw [← Bool.not_eq_true, List.contains_iff_mem]
    simp only [accessorName, String.toList_append, List.mem_append, not_or]
    exact ⟨⟨⟨⟨verbPlain, underscore⟩, dot_not_mem_of_word nameWord⟩, underscore⟩,
      dot_not_mem_of_word (word_name property)⟩
  rw [path, onThis?_field (by decide), plain, String.ofList_toList]
  rfl

private theorem reads_setter (nameWord : name.toList.all Text.isWordChar = true)
    (property : Property) {access : Access} (elsewhere : access = .field → name ≠ "this") :
    Reads ((setter name property access).render context) []
      [accessorName "set" name property.name] [] := by
  have accessor : onThis? ("this.set_".toList ++ name.toList ++ "_".toList ++
      property.name.toList) = some (accessorName "set" name property.name) :=
    onThis?_accessor (by decide) (by decide) nameWord property
  have assigned := reads_equals "=function(v)\x7b"
    ("this.set_".toList ++ name.toList ++ "_".toList ++ property.name.toList) (by decide)
  rw [accessor] at assigned
  exact reads_start "this.set_" "this.set_".toList (by decide)
    |>.append (reads_word nameWord _)
    |>.append (reads_path (by decide : "_".toList.all isPathChar = true) _)
    |>.append (reads_word (word_name property) _)
    |>.append assigned
    |>.append (reads_path (path_target nameWord property access) _)
    |>.append (reads_local "=v;\x7d;" (onThis?_target nameWord property elsewhere) (by decide))

private theorem reads_getter (nameWord : name.toList.all Text.isWordChar = true)
    (property : Property) (access : Access) :
    Reads ((getter name property access).render context) []
      [accessorName "get" name property.name] [] := by
  have accessor : onThis? ("this.get_".toList ++ name.toList ++ "_".toList ++
      property.name.toList) = some (accessorName "get" name property.name) :=
    onThis?_accessor (by decide) (by decide) nameWord property
  have assigned := reads_equals "=function()\x7breturn "
    ("this.get_".toList ++ name.toList ++ "_".toList ++ property.name.toList) (by decide)
  rw [accessor] at assigned
  exact reads_start "this.get_" "this.get_".toList (by decide)
    |>.append (reads_word nameWord _)
    |>.append (reads_path (by decide : "_".toList.all isPathChar = true) _)
    |>.append (reads_word (word_name property) _)
    |>.append assigned
    |>.append (reads_path (path_target nameWord property access) _)
    |>.append (reads_break ";\x7d;" _ (by decide))

end Statement

/-- A statement of a node assigns its accessor and nothing else on `this`. -/
private theorem Node.Emits.assigns {context name : String} {node : Node} {statement : Statement}
    (emits : node.Emits name statement)
    (contextWord : context.toList.all Text.isWordChar = true)
    (nameWord : name.toList.all Text.isWordChar = true)
    (names : ∀ other ∈ node.writtenNames, other.toList.all Text.isWordChar = true)
    (elsewhere : node.nodeClass = .oscillator → name ≠ "this") :
    Assigns (statement.render context) statement.accessor?.toList := by
  have value {property : Property} {expr : Expr}
      (member : (property, .expression expr) ∈ node.settings) :
      ∃ after, Reads expr.scriptText [] [] after :=
    expr.exists_reads (fun other used =>
      names other (List.mem_flatMap.mpr ⟨(property, .expression expr), member, used⟩)) []
  have coefficients {property : Property} {series : Series}
      (member : (property, .series series) ∈ node.settings) : Reads series.scriptText [] [] [] :=
    series.reads_scriptText (fun other used =>
      names other (List.mem_flatMap.mpr ⟨(property, .series series), member, used⟩)) []
  have field {property : Property} {access : Access}
      (exposed : (property, access) ∈ node.nodeClass.exposed) (isField : access = .field) :
      name ≠ "this" := by
    apply elsewhere
    revert exposed
    rw [isField]
    cases node.nodeClass <;> simp [NodeClass.exposed]
  cases emits with
  | createOscillator =>
      exact (Statement.reads_create contextWord nameWord (by decide)
        (reads_start "" [] (by decide))).assigns
  | createPeriodicWave real imaginary =>
      have arguments := reads_start "new Float32Array(" [] (by decide)
        |>.append (coefficients real)
        |>.append (reads_break "),new Float32Array(" _ (by decide))
        |>.append (coefficients imaginary)
        |>.append (reads_break ")" _ (by decide))
      exact (Statement.reads_create contextWord nameWord (by decide) arguments).assigns
  | declare member =>
      obtain ⟨after, reads⟩ := value member
      exact (Statement.reads_declare nameWord reads).assigns
  | setParameter member =>
      obtain ⟨after, reads⟩ := value member
      exact (Statement.reads_setParameter nameWord _ reads).assigns
  | setText member =>
      refine Statement.assigns_setText nameWord (elsewhere ?_) _ _
      cases node with
      | constant _ => simp [settings] at member
      | oscillator _ => rfl
      | periodicWave _ => simp [settings] at member
  | setWave member =>
      obtain ⟨after, reads⟩ := value member
      exact (Statement.reads_call nameWord (by decide) reads).assigns
  | start =>
      exact (Statement.reads_call nameWord (by decide) (reads_start "" [] (by decide))).assigns
  | setter exposed => exact (Statement.reads_setter nameWord _ (field exposed)).assigns
  | getter _ => exact (Statement.reads_getter nameWord _ _).assigns

/-! ### Assignments of a script -/

namespace Program

variable {context : String} {tokens : List Token} {program : Program}

/-- What a node refers to was defined or is the index of a range. -/
private theorem mem_names_or_indices (spelled : Spelling context [] tokens program.definitions)
    {definition : Definition} (member : definition ∈ program.definitions) {name : String}
    (written : name ∈ definition.node.writtenNames) : name ∈ program.names ++ program.indices := by
  obtain ⟨position, found⟩ := List.getElem?_of_mem member
  have closed := scoped_of_spelling spelled found
  have known {other : String} (defined : program.DefinesBefore position other) :
      other ∈ program.names ++ program.indices := by
    obtain ⟨earlier, _, first, at_, named⟩ := defined
    exact List.mem_append_left _ (List.mem_filterMap.mpr ⟨first, List.mem_of_getElem? at_, named⟩)
  obtain ⟨⟨property, value⟩, inNode, used⟩ := List.mem_flatMap.mp written
  have loose {expr : Expr} (isLoose : expr ∈ value.looseExpressions)
      (referred : name ∈ expr.references) : name ∈ program.names ++ program.indices :=
    known (closed.loose expr (List.mem_flatMap.mpr ⟨(property, value), inNode, isLoose⟩) name
      referred)
  cases value with
  | text _ => cases used
  | expression expr => exact loose (List.mem_singleton_self expr) used
  | series values =>
      cases values with
      | list items =>
          obtain ⟨item, inItems, referred⟩ := List.mem_flatMap.mp used
          exact loose inItems referred
      | range index lower upper body =>
          have isIndex : index ∈ program.names ++ program.indices :=
            List.mem_append_right _ (List.mem_flatMap.mpr ⟨definition, member,
              List.mem_filterMap.mpr ⟨_, inNode, rfl⟩⟩)
          have inPart (part : Expr) (isPart : part ∈ [lower, upper, body])
              (referred : name ∈ part.references) : name ∈ program.names ++ program.indices := by
            rcases closed.ranges property index lower upper body inNode part isPart name referred
              with defined | same
            · exact known defined
            · rw [same]
              exact isIndex
          simp only [PropertyValue.writtenNames, Series.writtenNames, List.mem_cons,
            List.mem_append] at used
          rcases used with rfl | inLower | inUpper | inBody
          · exact isIndex
          · exact inPart lower (by simp) inLower
          · exact inPart upper (by simp) inUpper
          · exact inPart body (by simp) inBody

/-- The names of a program can be told from the rest of its script, and none of its oscillators is
called `this`. -/
structure PlainNames (context : String) (program : Program) : Prop where
  words : ∀ name ∈ context :: (program.names ++ program.indices),
    name.toList.all Text.isWordChar = true
  notThis : ∀ definition ∈ program.definitions, definition.node.nodeClass = .oscillator →
    definition.name? ≠ some "this"

private theorem assigns_of_mem_blocks (spelled : Spelling context [] tokens program.definitions)
    (plain : program.PlainNames context) {statement : Statement}
    (member : statement ∈ program.blocks.flatten) :
    Assigns (statement.render context) statement.accessor?.toList := by
  obtain ⟨block, inBlocks, inBlock⟩ := List.mem_flatten.mp member
  obtain ⟨index, bound, rfl⟩ := List.mem_mapIdx.mp inBlocks
  have inProgram := List.getElem_mem bound
  refine (Definition.emits_of_mem_statements inBlock).assigns
    (plain.words context (List.mem_cons_self ..)) ?_ (fun other written => ?_) fun oscillator => ?_
  · rcases Definition.scriptName_own_or_made (program.definitions.take (index + 1))
      program.definitions[index] with named | ⟨nodeClass, number, made⟩
    · have own := List.mem_filterMap.mpr ⟨_, inProgram, named⟩
      exact plain.words _ (List.mem_cons_of_mem _ (List.mem_append_left _ own))
    · rw [made]
      exact Text.all_isWordChar_of_isIdentifier (nodeClass.isIdentifier_generatedName number)
  · exact plain.words other
      (List.mem_cons_of_mem _ (mem_names_or_indices spelled inProgram written))
  · intro same
    rcases Definition.scriptName_own_or_made (program.definitions.take (index + 1))
      program.definitions[index] with named | ⟨nodeClass, number, made⟩
    · exact plain.notThis _ inProgram oscillator (same ▸ named)
    · have marked := nodeClass.isPrefixOf_generatedName number
      rw [← made, same] at marked
      exact absurd marked (by decide)

private theorem assigns_scriptText (spelled : Spelling context [] tokens program.definitions)
    (plain : program.PlainNames context) :
    Assigns (program.scriptText context) program.accessorNames := by
  have contextWord := plain.words context (List.mem_cons_self ..)
  have contextLine := reads_start "var " [] (by decide)
    |>.append (reads_word contextWord _)
    |>.append (reads_local "=new (window.AudioContext||window.webkitAudioContext)();"
      (onThis?_word contextWord) (by decide))
  have before : Assigns (joinLines (preamble context)) [] := by
    have feed := reads_break "\n" [] (by decide)
    have opening := (reads_start "(function()\x7b" [] (by decide)).append feed
    have creating := contextLine.append feed
    rw [preamble, joinLines_cons, joinLines_cons]
    exact (opening.append (creating.append (reads_start "" [] (by decide)))).assigns
  have statements : Assigns (joinLines (program.blocks.flatten.map (Statement.render context)))
      program.accessorNames := by
    have each := assigns_joinLines fun statement member =>
      assigns_of_mem_blocks spelled plain member
    rwa [← List.filterMap_eq_flatMap_toList, ← statements_eq_flatten context,
      accessors_toScript, statements_eq_flatten] at each
  have behind : Assigns (joinLines [ending]) [] :=
    (reads_break "\x7d)();\n" [] (by decide)).assigns
  rw [scriptText_eq_joinLines, joinLines_append, joinLines_append]
  have whole := before.append (statements.append behind)
  rwa [List.nil_append, List.append_nil] at whole

private theorem append_accessor {start verb opening function parameters : String}
    (starts : start = "this." ++ (verb ++ "_")) (opens : opening = function ++ parameters)
    (name property target tail : String) :
    start ++ name ++ "_" ++ property ++ opening ++ target ++ tail =
      "this." ++ accessorName verb name property ++ function ++ (parameters ++ target ++ tail) := by
  simp only [starts, opens, accessorName, String.append_assoc]

/-- An accessor is a function that is assigned on `this`. -/
private theorem render_of_accessor {statement : Statement} {accessor : String}
    (isAccessor : statement.accessor? = some accessor) (context : String) :
    ∃ body, statement.render context = "this." ++ accessor ++ "=function(" ++ body := by
  cases statement with
  | setter parent property access =>
      cases isAccessor
      exact ⟨_, append_accessor (by decide) (by decide : _ = _ ++ "v)\x7b") _ _ _ _⟩
  | getter parent property access =>
      cases isAccessor
      exact ⟨_, append_accessor (by decide)
        (by decide : _ = _ ++ ")\x7breturn ") _ _ _ _⟩
  | create _ _ _ => cases isAccessor
  | declare _ _ => cases isAccessor
  | setParameter _ _ _ => cases isAccessor
  | setText _ _ _ => cases isAccessor
  | call _ _ _ => cases isAccessor

/-- The accessor statements of a script are those of the exported definitions, each with a name of
its own. If the names are plain, the text of the script assigns nothing else on `this`. -/
theorem accessors_exactly_exported (context : String) (tokens : List Token) (program : Program)
    (read : ofTokens context tokens = .ok program) :
    (program.toScript context).statements.toList.filterMap Statement.accessor? =
      program.accessorNames ∧
    program.accessorNames.Nodup ∧
    (∀ statement ∈ (program.toScript context).statements.toList, ∀ accessor,
      statement.accessor? = some accessor →
        ∃ body, statement.render context = "this." ++ accessor ++ "=function(" ++ body) ∧
    (program.PlainNames context →
      (Script.glyphs? (program.scriptText context)).isSome = true ∧
        Script.assignedOnThis (program.scriptText context) = program.accessorNames) := by
  have spelled := ofTokens_eq_ok_iff.mp read
  refine ⟨accessors_toScript context program, nodup_accessorNames spelled,
    fun statement _ accessor isAccessor => render_of_accessor isAccessor context, fun plain => ?_⟩
  have assigns := assigns_scriptText spelled plain
  refine ⟨?_, assigns.assignedOnThis_eq⟩
  obtain ⟨glyphs, scanned, _⟩ := assigns
  rw [scanned, Option.isSome_some]

/-- One name ends like an accessor of the other. -/
theorem accessors_exactly_exported_of_nested_names :
    ∃ program : Program,
      ofTokens "audioCtx" (Token.scan ("Oscillator a \x7b type: \"this.x=\" \x7d export " ++
        "Constant a_frequency \x7b\x7d export Oscillator \x7b frequency: a_frequency \x7d")) =
          .ok program ∧
      program.PlainNames "audioCtx" ∧
      program.accessorNames = ["set_a_detune", "get_a_detune", "set_a_frequency", "get_a_frequency",
        "set_a_type", "get_a_type", "set_a_frequency_value", "get_a_frequency_value"] ∧
      program.accessorNames.Nodup ∧
      Script.assignedOnThis (program.scriptText "audioCtx") = program.accessorNames := by
  have read : ofTokens "audioCtx" (Token.scan
      ("Oscillator a \x7b type: \"this.x=\" \x7d export " ++
        "Constant a_frequency \x7b\x7d export Oscillator \x7b frequency: a_frequency \x7d")) =
        .ok { definitions := [
          { name? := some "a", exported := true, node := .oscillator {
              detune? := none, frequency := Node.concertPitch, waveType := "this.x=",
              wave? := none } },
          { name? := some "a_frequency", exported := true, node := Node.initial .constant },
          { name? := none, exported := false, node := .oscillator {
              detune? := none, frequency := .reference "a_frequency", waveType := "sine",
              wave? := none } }] } := by
    decide +kernel
  obtain ⟨_, distinct, _, assigned⟩ := accessors_exactly_exported _ _ _ read
  refine ⟨_, read, ?plain, by decide +kernel, distinct, (assigned ?plain).2⟩
  exact ⟨by decide +kernel, by decide +kernel⟩

/-- The name of the second constant ends its declaration and assigns to the accessor of the
first. -/
theorem script_of_overwritten_accessor :
    ∃ program : Program,
      ofTokens "audioCtx" (Token.scan ("Constant b \x7b \x7d export " ++
        "Constant a;this.set_b_value \x7b value: 1 \x7d")) = .ok program ∧
      program.accessorNames = ["set_b_value", "get_b_value"] ∧
      Script.assignedOnThis (program.scriptText "audioCtx") =
        ["set_b_value", "get_b_value", "set_b_value"] ∧
      program.scriptText "audioCtx" =
        "(function()\x7b\nvar audioCtx=new (window.AudioContext||window.webkitAudioContext)();\n" ++
        "var b=0;\nthis.set_b_value=function(v)\x7bb=v;\x7d;\n" ++
        "this.get_b_value=function()\x7breturn b;\x7d;\nvar a;this.set_b_value=1;\n\x7d)();\n" := by
  have read : ofTokens "audioCtx" (Token.scan ("Constant b \x7b \x7d export " ++
      "Constant a;this.set_b_value \x7b value: 1 \x7d")) = .ok { definitions := [
        { name? := some "b", exported := true, node := Node.initial .constant },
        { name? := some "a;this.set_b_value", exported := false,
          node := .constant (.number ⟨0x3ff0000000000000⟩) }] } := by
    decide +kernel
  refine ⟨_, read, ?_, ?_, ?_⟩
  · decide
  · decide +kernel
  · decide +kernel

end Program
end AudioMarkup
