import AudioMarkup.Proofs.Json
import AudioMarkup.Proofs.Program.Canonical

/-!
Trees tell their programs, and token lists their tokens. In a tree of a program null stands for an
absent part or for a number that is not finite; the places of the two are different, and infinity is
the only such number in the program of a text.
-/

namespace AudioMarkup

namespace Json

@[simp]
theorem plain_tagged_eq_iff {tag otherTag : String} {value other : Json} :
    (tagged tag value).plain = (tagged otherTag other).plain ↔
      tag = otherTag ∧ value.plain = other.plain := by
  simp [tagged]

@[simp]
theorem plain_tagged_ne_null (tag : String) (value : Json) : (tagged tag value).plain ≠ .null := by
  simp [tagged]

theorem eq_of_map_tree_eq {α : Type} {tree : α → Json} {items others : List α}
    (told : ∀ item ∈ items, ∀ other ∈ others, (tree item).plain = (tree other).plain → item = other)
    (same : (items.map tree).map plain = (others.map tree).map plain) : items = others := by
  induction items generalizing others with
  | nil =>
      cases others with
      | nil => rfl
      | cons other others => cases same
  | cons item items ih =>
      cases others with
      | nil => cases same
      | cons other others =>
          obtain ⟨first, remaining⟩ := List.cons.inj same
          have firsts := told item (List.mem_cons_self ..) other (List.mem_cons_self ..) first
          have rests := ih (fun item member other otherMember => told item
            (List.mem_cons_of_mem _ member) other (List.mem_cons_of_mem _ otherMember)) remaining
          rw [firsts, rests]

theorem eq_of_optional_eq {α : Type} {tree : α → Json} {part? other? : Option α}
    (present : ∀ part, (tree part).plain ≠ .null)
    (told : ∀ part ∈ part?, ∀ other ∈ other?, (tree part).plain = (tree other).plain → part = other)
    (same : (optional (part?.map tree)).plain = (optional (other?.map tree)).plain) :
    part? = other? := by
  have absent : (optional none).plain = .null := plain_null
  cases part? with
  | none =>
      cases other? with
      | none => rfl
      | some other => exact absurd (same.symm.trans absent) (present other)
  | some part =>
      cases other? with
      | none => exact absurd (same.trans absent) (present part)
      | some other => rw [told part rfl other rfl same]

end Json

/-- Of the numbers that a text can have, infinity is the only one that a tree does not tell. -/
theorem Binary64.eq_of_plain_number_eq {x y : Binary64} (writable : x.isWritable = true)
    (otherWritable : y.isWritable = true)
    (same : (Json.number x).plain = (Json.number y).plain) : x = y := by
  simp only [isWritable, Bool.and_eq_true, Bool.not_eq_true', Bool.or_eq_true]
    at writable otherWritable
  obtain ⟨positive, form⟩ := writable
  obtain ⟨otherPositive, otherForm⟩ := otherWritable
  rw [Json.plain, Json.plain] at same
  by_cases finite : x.isFinite = true
  · by_cases otherFinite : y.isFinite = true
    · rw [if_pos finite, if_pos otherFinite] at same
      exact Json.number.inj same
    · rw [if_pos finite, if_neg otherFinite] at same
      cases same
  · by_cases otherFinite : y.isFinite = true
    · rw [if_neg finite, if_pos otherFinite] at same
      cases same
    · have infinite := beq_iff_eq.mp (form.resolve_left finite)
      have otherInfinite := beq_iff_eq.mp (otherForm.resolve_left otherFinite)
      exact eq_of_magnitudeBits_eq (positive.trans otherPositive.symm)
        (infinite.trans otherInfinite.symm)

/-- Labels from which their owners can be found are different. -/
private theorem eq_of_label_eq {α : Type} {label : α → String} {ofLabel? : String → Option α}
    (labelled : ∀ owner, ofLabel? (label owner) = some owner) {owner other : α}
    (same : label owner = label other) : owner = other := by
  have found := labelled owner
  rw [same, labelled other] at found
  exact (Option.some.inj found).symm

theorem Operator.ofLabel?_label (operator : Operator) :
    Operator.ofLabel? operator.label = some operator := by
  cases operator <;> decide

theorem MathFunction.ofLabel?_label (function : MathFunction) :
    MathFunction.ofLabel? function.label = some function := by
  cases function <;> decide

namespace Expr

theorem plain_tree_ne_null (expr : Expr) : expr.tree.plain ≠ .null := by
  cases expr <;> simp [tree]

theorem eq_of_tree_eq {expr other : Expr} (writable : expr.isWritable = true)
    (otherWritable : other.isWritable = true) (same : expr.tree.plain = other.tree.plain) :
    expr = other := by
  -- The tags tell the cases, so only cases with themselves are left.
  induction expr generalizing other with
  | number value =>
      cases other with
      | number otherValue =>
          have values : (Json.number value).plain = (Json.number otherValue).plain := by
            simpa [tree] using same
          rw [Binary64.eq_of_plain_number_eq writable otherWritable values]
      | _ => simp [tree] at same
  | reference name =>
      cases other with
      | reference otherName =>
          have names : name = otherName := by simpa [tree] using same
          rw [names]
      | _ => simp [tree] at same
  | operation operator left right leftIh rightIh =>
      cases other with
      | operation otherOperator otherLeft otherRight =>
          rw [isWritable, Bool.and_eq_true] at writable otherWritable
          obtain ⟨labels, lefts, rights⟩ : operator.label = otherOperator.label ∧
              left.tree.plain = otherLeft.tree.plain ∧
              right.tree.plain = otherRight.tree.plain := by
            simpa [tree] using same
          rw [eq_of_label_eq Operator.ofLabel?_label labels, leftIh writable.1 otherWritable.1 lefts,
            rightIh writable.2 otherWritable.2 rights]
      | _ => simp [tree] at same
  | call function argument ih =>
      cases other with
      | call otherFunction otherArgument =>
          rw [isWritable] at writable otherWritable
          obtain ⟨labels, arguments⟩ : function.label = otherFunction.label ∧
              argument.tree.plain = otherArgument.tree.plain := by
            simpa [tree] using same
          rw [eq_of_label_eq MathFunction.ofLabel?_label labels,
            ih writable otherWritable arguments]
      | _ => simp [tree] at same
  | group inner ih =>
      cases other with
      | group otherInner =>
          rw [isWritable] at writable otherWritable
          have inners : inner.tree.plain = otherInner.tree.plain := by simpa [tree] using same
          rw [ih writable otherWritable inners]
      | _ => simp [tree] at same

theorem eq_of_tree_eq_of_isWellFormed {expr other : Expr} (good : expr.isWellFormed = true)
    (otherGood : other.isWellFormed = true) (same : expr.tree.plain = other.tree.plain) :
    expr = other :=
  eq_of_tree_eq (isWellFormed_iff.mp good).2.2 (isWellFormed_iff.mp otherGood).2.2 same

end Expr

theorem Series.eq_of_tree_eq {series other : Series} (good : series.isWellFormed = true)
    (otherGood : other.isWellFormed = true) (same : series.tree.plain = other.tree.plain) :
    series = other := by
  cases series with
  | list items =>
      cases other with
      | list others =>
          rw [isWellFormed, List.all_eq_true] at good otherGood
          have trees :
              (items.map Expr.tree).map Json.plain = (others.map Expr.tree).map Json.plain := by
            simpa [tree] using same
          have same := Json.eq_of_map_tree_eq (fun item member other otherMember =>
            Expr.eq_of_tree_eq_of_isWellFormed (good item member) (otherGood other otherMember))
            trees
          rw [same]
      | range _ _ _ _ => simp [tree] at same
  | range index lower upper body =>
      cases other with
      | list _ => simp [tree] at same
      | range otherIndex otherLower otherUpper otherBody =>
          obtain ⟨indices, lowers, uppers, bodies⟩ : index = otherIndex ∧
              lower.tree.plain = otherLower.tree.plain ∧ upper.tree.plain = otherUpper.tree.plain ∧
              body.tree.plain = otherBody.tree.plain := by
            simpa [tree] using same
          simp only [isWellFormed, List.all_cons, List.all_nil, Bool.and_true,
            Bool.and_eq_true] at good otherGood
          rw [indices, Expr.eq_of_tree_eq_of_isWellFormed good.2.1 otherGood.2.1 lowers,
            Expr.eq_of_tree_eq_of_isWellFormed good.2.2.1 otherGood.2.2.1 uppers,
            Expr.eq_of_tree_eq_of_isWellFormed good.2.2.2 otherGood.2.2.2 bodies]

private theorem Oscillator.isWellFormed_parts {source : Oscillator}
    (good : ∀ setting ∈ (Node.oscillator source).settings, setting.2.isWellFormed = true) :
    (∀ expr ∈ source.detune?, expr.isWellFormed = true) ∧
      source.frequency.isWellFormed = true ∧ ∀ expr ∈ source.wave?, expr.isWellFormed = true := by
  refine ⟨fun expr present => ?_, ?_, fun expr present => ?_⟩
  · exact good (.detune, .expression expr) (by simp_all [Node.settings])
  · exact good (.frequency, .expression source.frequency) (by simp [Node.settings])
  · exact good (.periodicWave, .expression expr) (by simp_all [Node.settings])

private theorem Oscillator.eq_of_parts {source other : Oscillator}
    (good : ∀ setting ∈ (Node.oscillator source).settings, setting.2.isWellFormed = true)
    (otherGood : ∀ setting ∈ (Node.oscillator other).settings, setting.2.isWellFormed = true)
    (detunes : (Json.optional (source.detune?.map Expr.tree)).plain =
      (Json.optional (other.detune?.map Expr.tree)).plain)
    (frequencies : source.frequency.tree.plain = other.frequency.tree.plain)
    (types : source.waveType = other.waveType)
    (waves : (Json.optional (source.wave?.map Expr.tree)).plain =
      (Json.optional (other.wave?.map Expr.tree)).plain) : source = other := by
  obtain ⟨detune, frequency, wave⟩ := isWellFormed_parts good
  obtain ⟨otherDetune, otherFrequency, otherWave⟩ := isWellFormed_parts otherGood
  have told {first second : Option Expr} (good : ∀ expr ∈ first, expr.isWellFormed = true)
      (otherGood : ∀ expr ∈ second, expr.isWellFormed = true)
      (same : (Json.optional (first.map Expr.tree)).plain =
        (Json.optional (second.map Expr.tree)).plain) : first = second :=
    Json.eq_of_optional_eq Expr.plain_tree_ne_null (fun expr present other otherPresent =>
      Expr.eq_of_tree_eq_of_isWellFormed (good expr present) (otherGood other otherPresent)) same
  cases source
  cases other
  cases told detune otherDetune detunes
  cases told wave otherWave waves
  cases Expr.eq_of_tree_eq_of_isWellFormed frequency otherFrequency frequencies
  cases types
  rfl

theorem Node.eq_of_tree_eq {node other : Node}
    (good : ∀ setting ∈ node.settings, setting.2.isWellFormed = true)
    (otherGood : ∀ setting ∈ other.settings, setting.2.isWellFormed = true)
    (same : node.tree.plain = other.tree.plain) : node = other := by
  cases node with
  | constant value =>
      cases other with
      | constant otherValue =>
          have values : value.tree.plain = otherValue.tree.plain := by simpa [tree] using same
          rw [Expr.eq_of_tree_eq_of_isWellFormed (good _ (List.mem_singleton_self _))
            (otherGood _ (List.mem_singleton_self _)) values]
      | _ => simp [tree] at same
  | oscillator source =>
      cases other with
      | oscillator otherSource =>
          obtain ⟨detunes, frequencies, types, waves⟩ :
              (Json.optional (source.detune?.map Expr.tree)).plain =
                (Json.optional (otherSource.detune?.map Expr.tree)).plain ∧
              source.frequency.tree.plain = otherSource.frequency.tree.plain ∧
              source.waveType = otherSource.waveType ∧
              (Json.optional (source.wave?.map Expr.tree)).plain =
                (Json.optional (otherSource.wave?.map Expr.tree)).plain := by
            simpa [tree] using same
          rw [Oscillator.eq_of_parts good otherGood detunes frequencies types waves]
      | _ => simp [tree] at same
  | periodicWave wave =>
      cases other with
      | periodicWave otherWave =>
          obtain ⟨reals, imaginaries⟩ : wave.real.tree.plain = otherWave.real.tree.plain ∧
              wave.imaginary.tree.plain = otherWave.imaginary.tree.plain := by
            simpa [tree] using same
          have real := Series.eq_of_tree_eq (good (.real, .series wave.real) (by simp [settings]))
            (otherGood (.real, .series otherWave.real) (by simp [settings])) reals
          have imaginary := Series.eq_of_tree_eq
            (good (.imaginary, .series wave.imaginary) (by simp [settings]))
            (otherGood (.imaginary, .series otherWave.imaginary) (by simp [settings])) imaginaries
          cases wave
          cases otherWave
          cases real
          cases imaginary
          rfl
      | _ => simp [tree] at same

theorem Definition.eq_of_tree_eq {definition other : Definition} (good : definition.WellFormed)
    (otherGood : other.WellFormed) (same : definition.tree.plain = other.tree.plain) :
    definition = other := by
  obtain ⟨names, exports, nodes⟩ :
      (Json.optional (definition.name?.map .text)).plain =
        (Json.optional (other.name?.map .text)).plain ∧
      definition.exported = other.exported ∧
      definition.node.tree.plain = other.node.tree.plain := by
    simpa [tree] using same
  have name := Json.eq_of_optional_eq (by simp) (by simp) names
  have node := Node.eq_of_tree_eq good.values otherGood.values nodes
  cases definition
  cases other
  cases name
  cases exports
  cases node
  rfl

namespace Program

theorem eq_of_tree_eq {context otherContext : String} {program other : Program}
    (good : program.WellFormed context) (otherGood : other.WellFormed otherContext)
    (same : program.tree.plain = other.tree.plain) : program = other := by
  have trees : (program.definitions.map Definition.tree).map Json.plain =
      (other.definitions.map Definition.tree).map Json.plain := by
    simpa [tree] using same
  have definitions := Json.eq_of_map_tree_eq (fun definition member other otherMember =>
    Definition.eq_of_tree_eq (good.definitions definition member)
      (otherGood.definitions other otherMember)) trees
  cases program
  cases other
  cases definitions
  rfl

end Program

theorem Token.eq_of_tree_eq {token other : Token} (same : token.tree.plain = other.tree.plain) :
    token = other := by
  obtain ⟨lines, columns, texts, labels⟩ : token.line = other.line ∧ token.column = other.column ∧
      token.text = other.text ∧ token.kind.label = other.kind.label := by
    simpa [tree] using same
  have kinds := eq_of_label_eq Token.Kind.ofLabel?_label labels
  cases token
  cases other
  cases lines
  cases columns
  cases texts
  cases kinds
  rfl

namespace Output

private theorem program_of_render {context source text : String}
    (rendered : render context source .tree = .ok text) :
    ∃ program, Program.ofText context source = .ok program ∧ program.tree.pretty = text := by
  rw [render] at rendered
  cases read : Program.ofText context source with
  | error diagnostic =>
      rw [read] at rendered
      cases rendered
  | ok program =>
      rw [read] at rendered
      exact ⟨program, rfl, Except.ok.inj rendered⟩

/-- The tree of a text tells its program, and the list of its tokens the tokens. -/
theorem eq_of_render_eq (context first second : String) :
    (∀ text, render context first .tree = .ok text → render context second .tree = .ok text →
      Program.ofText context first = Program.ofText context second) ∧
    (render context first .tokens = render context second .tokens →
      Token.scan first = Token.scan second) := by
  constructor
  · intro text rendered otherRendered
    obtain ⟨program, read, pretty⟩ := program_of_render rendered
    obtain ⟨other, otherRead, otherPretty⟩ := program_of_render otherRendered
    have told := Json.plain_eq_of_pretty_eq (pretty.trans otherPretty.symm)
    rw [read, otherRead, Program.eq_of_tree_eq (Program.wellFormed_of_ofText read)
      (Program.wellFormed_of_ofText otherRead) told]
  · intro same
    have told := Json.plain_eq_of_pretty_eq (Except.ok.inj same)
    rw [Json.plain_list, Json.plain_list] at told
    exact Json.eq_of_map_tree_eq (fun token _ other _ => Token.eq_of_tree_eq) (Json.list.inj told)

/-- Two numerals of one number, and a tabulator in the place of a blank. -/
theorem eq_of_render_eq_of_fraction :
    ∃ text, render "c" "Constant a\x7bvalue:1\x7d" .tree = .ok text ∧
      render "c" "Constant a\x7bvalue:1.0\x7d" .tree = .ok text ∧
      Program.ofText "c" "Constant a\x7bvalue:1\x7d" =
        Program.ofText "c" "Constant a\x7bvalue:1.0\x7d" ∧
      render "c" "a b" .tokens = render "c" "a\tb" .tokens ∧
      Token.scan "a b" = Token.scan "a\tb" := by
  let program : Program := ⟨[⟨some "a", false, .constant (.number ⟨0x3ff0000000000000⟩)⟩]⟩
  have tree : render "c" "Constant a\x7bvalue:1\x7d" .tree = .ok program.tree.pretty := by
    decide +kernel
  have otherTree : render "c" "Constant a\x7bvalue:1.0\x7d" .tree = .ok program.tree.pretty := by
    decide +kernel
  have tokens : render "c" "a b" .tokens = render "c" "a\tb" .tokens := by
    decide +kernel
  exact ⟨program.tree.pretty, tree, otherTree, (eq_of_render_eq "c" _ _).1 _ tree otherTree, tokens,
    (eq_of_render_eq "c" _ _).2 tokens⟩

end Output
end AudioMarkup
