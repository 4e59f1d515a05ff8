import AudioMarkup.Json
import AudioMarkup.Proofs.Binary64.TreeText
import AudioMarkup.Proofs.Text.Quoted

/-!
Unique readability of pretty JSON. The pretty text of a value ends where the value does, whatever
stands behind it, unless that could continue a number; and it tells the value, but for numbers that
are not finite, which are written as null.
-/

namespace AudioMarkup.Json

/-! ### Characters -/

def prettyText (level : Nat) (value : Json) : List Char :=
  (value.prettyPieces level).flatMap String.toList

theorem toList_pretty (value : Json) : value.pretty.toList = prettyText 0 value :=
  String.toList_join

def newLine (level : Nat) : List Char := '\n' :: List.replicate (2 * level) ' '

def enclosed {α : Type} (level : Nat) (write : α → List Char) : List α → List Char
  | [] => []
  | first :: rest =>
    newLine (level + 1) ++ write first ++
      rest.flatMap (fun part => ',' :: newLine (level + 1) ++ write part) ++ newLine level

def fieldText (level : Nat) (field : String × Json) : List Char :=
  (Text.quote field.1).toList ++ ':' :: ' ' :: prettyText level field.2

private theorem flatMap_prettyItems (level : Nat) (items : List Json) :
    (prettyItems level items).flatMap String.toList =
      items.flatMap fun item => ',' :: newLine level ++ prettyText level item := by
  induction items with
  | nil => rfl
  | cons item rest ih =>
      have written : prettyItems level (item :: rest) =
          "," :: lineBreak level :: item.prettyPieces level ++ prettyItems level rest := rfl
      simp [written, ih, prettyText, lineBreak, newLine]

private theorem flatMap_prettyFields (level : Nat) (fields : List (String × Json)) :
    (prettyFields level fields).flatMap String.toList =
      fields.flatMap fun field => ',' :: newLine level ++ fieldText level field := by
  induction fields with
  | nil => rfl
  | cons field rest ih =>
      have written : prettyFields level (field :: rest) =
          "," :: lineBreak level :: Text.quote field.1 :: ": " :: field.2.prettyPieces level ++
            prettyFields level rest := rfl
      simp [written, ih, prettyText, fieldText, lineBreak, newLine]

theorem prettyText_list (level : Nat) (items : List Json) :
    prettyText level (.list items) =
      '[' :: enclosed level (prettyText (level + 1)) items ++ [']'] := by
  cases items with
  | nil => rfl
  | cons item rest =>
      have written : prettyPieces level (.list (item :: rest)) =
          "[" :: lineBreak (level + 1) :: item.prettyPieces (level + 1) ++
            prettyItems (level + 1) rest ++ [lineBreak level, "]"] := rfl
      simp [prettyText, written, flatMap_prettyItems, enclosed, lineBreak, newLine]

theorem prettyText_object (level : Nat) (fields : List (String × Json)) :
    prettyText level (.object fields) =
      '\x7b' :: enclosed level (fieldText (level + 1)) fields ++ ['\x7d'] := by
  cases fields with
  | nil => rfl
  | cons field rest =>
      have written : prettyPieces level (.object (field :: rest)) =
          "\x7b" :: lineBreak (level + 1) :: Text.quote field.1 :: ": " ::
            field.2.prettyPieces (level + 1) ++ prettyFields (level + 1) rest ++
            [lineBreak level, "\x7d"] := rfl
      simp [prettyText, fieldText, written, flatMap_prettyFields, enclosed, lineBreak, newLine]

/-! ### What is told by a text -/

private theorem sizeOf_snd_lt_of_mem {field : String × Json} {fields : List (String × Json)}
    (member : field ∈ fields) : sizeOf field.2 < sizeOf fields := by
  have inside : sizeOf field.2 < sizeOf field := by
    cases field
    simp
  exact Nat.lt_trans inside (List.sizeOf_lt_of_mem member)

/-- The value that a text tells: in the place of a number that is not finite stands null. -/
def plain : Json → Json
  | .number value => if value.isFinite then .number value else .null
  | .list items => .list (items.map plain)
  | .object fields => .object (fields.map fun field => (field.1, field.2.plain))
  | .null => .null
  | .bool value => .bool value
  | .natural value => .natural value
  | .text value => .text value
termination_by value => sizeOf value
decreasing_by
  · rename_i member
    have smaller := List.sizeOf_lt_of_mem member
    simp
    omega
  · rename_i member
    have smaller := sizeOf_snd_lt_of_mem member
    simp
    omega

private theorem plain_eq (value : Json) :
    plain value = match value with
      | .number value => if value.isFinite then .number value else .null
      | .list items => .list (items.map plain)
      | .object fields => .object (fields.map fun field => (field.1, field.2.plain))
      | other => other := by
  cases value <;> rw [plain]

@[simp]
theorem plain_null : plain .null = .null := plain_eq .null

@[simp]
theorem plain_bool (value : Bool) : plain (.bool value) = .bool value := plain_eq (.bool value)

@[simp]
theorem plain_natural (value : Nat) : plain (.natural value) = .natural value :=
  plain_eq (.natural value)

@[simp]
theorem plain_text (value : String) : plain (.text value) = .text value := plain_eq (.text value)

@[simp]
theorem plain_list (items : List Json) : plain (.list items) = .list (items.map plain) :=
  plain_eq (.list items)

@[simp]
theorem plain_object (fields : List (String × Json)) :
    plain (.object fields) = .object (fields.map fun field => (field.1, field.2.plain)) :=
  plain_eq (.object fields)

def Stops (rest : List Char) : Prop := rest.head?.all (!Text.isNumberPart ·) = true

/-- Where the text of the given value stands, no other text can, and it ends there too. -/
def Readable {α β : Type} (write : α → List Char) (told : α → β) (value : α) : Prop :=
  ∀ other rest others, Stops rest → Stops others → write value ++ rest = write other ++ others →
    told value = told other ∧ rest = others

section Parts

variable {α β : Type} {write : α → List Char} {told : α → β} {level : Nat}
  {parts otherParts : List α} {rest others : List Char}

private theorem stops_parts (level : Nat) (write : α → List Char) (parts : List α)
    (rest : List Char) :
    Stops (parts.flatMap (fun part => ',' :: newLine level ++ write part) ++ '\n' :: rest) := by
  cases parts with
  | nil => rfl
  | cons part parts => rfl

private theorem parts_append_inj (readable : ∀ part ∈ parts, Readable write told part)
    (same : parts.flatMap (fun part => ',' :: newLine level ++ write part) ++ '\n' :: rest =
      otherParts.flatMap (fun part => ',' :: newLine level ++ write part) ++ '\n' :: others) :
    parts.map told = otherParts.map told ∧ rest = others := by
  induction parts generalizing otherParts with
  | nil =>
      cases otherParts with
      | nil => exact ⟨rfl, (List.cons.inj same).2⟩
      | cons other otherParts => cases (List.cons.inj same).1
  | cons part parts ih =>
      cases otherParts with
      | nil => cases (List.cons.inj same).1
      | cons other otherParts =>
          simp only [List.flatMap_cons, List.append_assoc, List.cons_append, List.cons.injEq,
            true_and, List.append_cancel_left_eq] at same
          obtain ⟨first, behind⟩ := readable part (List.mem_cons_self ..) other _ _
            (stops_parts level write parts rest) (stops_parts level write otherParts others) same
          obtain ⟨remaining, rests⟩ := ih
            (fun part member => readable part (List.mem_cons_of_mem _ member)) behind
          rw [List.map_cons, List.map_cons, first, remaining]
          exact ⟨rfl, rests⟩

/-- Parts between brackets can be told if each of them can. -/
theorem enclosed_append_inj (readable : ∀ part ∈ parts, Readable write told part) {close : Char}
    (visible : close ≠ '\n')
    (same : enclosed level write parts ++ close :: rest =
      enclosed level write otherParts ++ close :: others) :
    parts.map told = otherParts.map told ∧ rest = others := by
  cases parts with
  | nil =>
      cases otherParts with
      | nil => exact ⟨rfl, (List.cons.inj same).2⟩
      | cons other otherParts => exact absurd (List.cons.inj same).1 visible
  | cons part parts =>
      cases otherParts with
      | nil => exact absurd (List.cons.inj same).1.symm visible
      | cons other otherParts =>
          simp only [enclosed, List.append_assoc, List.append_cancel_left_eq] at same
          obtain ⟨first, behind⟩ := readable part (List.mem_cons_self ..) other _ _
            (stops_parts (level + 1) write parts _) (stops_parts (level + 1) write otherParts _)
            same
          obtain ⟨remaining, ends⟩ := parts_append_inj
            (fun part member => readable part (List.mem_cons_of_mem _ member)) behind
          rw [List.map_cons, List.map_cons, first, remaining]
          exact ⟨rfl, (List.cons.inj (List.append_cancel_left ends)).2⟩

end Parts

/-! ### Kinds of values -/

inductive Kind where
  | null | bool (value : Bool) | number | text | list | object

def Kind.ofFirst : Char → Kind
  | 'n' => .null
  | 't' => .bool true
  | 'f' => .bool false
  | '"' => .text
  | '[' => .list
  | '\x7b' => .object
  | _ => .number

inductive HasKind : Json → Kind → Prop where
  | null : HasKind .null .null
  | infinite {value : Binary64} : value.isFinite = false → HasKind (.number value) .null
  | bool (value : Bool) : HasKind (.bool value) (.bool value)
  | natural (value : Nat) : HasKind (.natural value) .number
  | number {value : Binary64} : value.isFinite = true → HasKind (.number value) .number
  | text (value : String) : HasKind (.text value) .text
  | list (items : List Json) : HasKind (.list items) .list
  | object (fields : List (String × Json)) : HasKind (.object fields) .object

private theorem Kind.ofFirst_of_isDigit {digit : Char} (isDigit : digit.isDigit = true) :
    Kind.ofFirst digit = .number := by
  fun_cases Kind.ofFirst digit with
  | case7 => rfl
  | _ => cases isDigit

private theorem isDigit_of_mem_toDigits {value : Nat} {digit : Char}
    (member : digit ∈ Nat.toDigits 10 value) : digit.isDigit = true :=
  Nat.isDigit_of_mem_toDigits (by decide) (by decide) member

theorem prettyText_natural (level value : Nat) :
    prettyText level (.natural value) = Nat.toDigits 10 value := by
  simp [prettyText, prettyPieces, atom, Nat.toString_eq_repr, Nat.toList_repr]

theorem prettyText_number (level : Nat) (value : Binary64) :
    prettyText level (.number value) = value.treeText.toList := by
  simp [prettyText, prettyPieces, atom]

theorem prettyText_infinite (level : Nat) {value : Binary64} (infinite : value.isFinite = false) :
    prettyText level (.number value) = "null".toList := by
  simp [prettyText_number, Binary64.treeText, infinite]

theorem prettyText_text (level : Nat) (value : String) :
    prettyText level (.text value) = (Text.quote value).toList := by
  simp [prettyText, prettyPieces, atom]

theorem prettyText_starts (level : Nat) (value : Json) :
    ∃ first rest, prettyText level value = first :: rest ∧
      value.HasKind (Kind.ofFirst first) := by
  cases value with
  | null => exact ⟨'n', "ull".toList, rfl, .null⟩
  | bool value =>
      cases value with
      | true => exact ⟨'t', "rue".toList, rfl, .bool true⟩
      | false => exact ⟨'f', "alse".toList, rfl, .bool false⟩
  | natural value =>
      have nonempty : Nat.toDigits 10 value ≠ [] := Nat.toDigits_ne_nil
      obtain ⟨first, rest, starts⟩ := List.exists_cons_of_ne_nil nonempty
      have isDigit : first.isDigit = true := isDigit_of_mem_toDigits (by rw [starts]; simp)
      refine ⟨first, rest, by rw [prettyText_natural, starts], ?_⟩
      rw [Kind.ofFirst_of_isDigit isDigit]
      exact .natural value
  | number value =>
      cases finite : value.isFinite with
      | true =>
          obtain ⟨⟨first, rest, starts, form⟩, _⟩ := Binary64.treeText_parts finite
          refine ⟨first, rest, by rw [prettyText_number, starts], ?_⟩
          have isNumber : Kind.ofFirst first = .number := by
            rcases form with isDigit | rfl
            · exact Kind.ofFirst_of_isDigit isDigit
            · rfl
          rw [isNumber]
          exact .number finite
      | false => exact ⟨'n', "ull".toList, prettyText_infinite level finite, .infinite finite⟩
  | text value =>
      refine ⟨'"', value.toList.flatMap Text.escape ++ ['"'], ?_, .text value⟩
      rw [prettyText_text, Text.quote, String.toList_ofList]
      rfl
  | list items => exact ⟨'[', _, prettyText_list level items, .list items⟩
  | object fields => exact ⟨'\x7b', _, prettyText_object level fields, .object fields⟩

private theorem exists_kind {level : Nat} {value other : Json} {rest others : List Char}
    (same : prettyText level value ++ rest = prettyText level other ++ others) :
    ∃ kind, value.HasKind kind ∧ other.HasKind kind := by
  obtain ⟨first, behind, starts, hasKind⟩ := prettyText_starts level value
  obtain ⟨otherFirst, otherBehind, otherStarts, otherHasKind⟩ := prettyText_starts level other
  rw [starts, otherStarts] at same
  rw [← (List.cons.inj same).1] at otherHasKind
  exact ⟨_, hasKind, otherHasKind⟩

/-! ### Readability -/

private theorem HasKind.isNumberPart {value : Json} (isNumber : value.HasKind .number)
    (level : Nat) : ∀ c ∈ prettyText level value, Text.isNumberPart c = true := by
  cases isNumber with
  | natural value =>
      rw [prettyText_natural]
      exact fun c member => Text.isNumberPart_of_isDigit (isDigit_of_mem_toDigits member)
  | @number value finite =>
      rw [prettyText_number]
      exact (Binary64.treeText_parts finite).2.1

/-- Naturals have no mark in their texts, other numbers have one. -/
private theorem toDigits_ne_treeText (value : Nat) {number : Binary64}
    (finite : number.isFinite = true) : Nat.toDigits 10 value ≠ number.treeText.toList := by
  intro same
  obtain ⟨mark, member, noDigit⟩ := (Binary64.treeText_parts finite).2.2
  rw [← same] at member
  rw [isDigit_of_mem_toDigits member] at noDigit
  cases noDigit

private theorem HasKind.eq_of_prettyText_eq {value other : Json} (isNumber : value.HasKind .number)
    (otherNumber : other.HasKind .number) {level : Nat}
    (same : prettyText level value = prettyText level other) : value = other := by
  cases isNumber with
  | natural value =>
      rw [prettyText_natural] at same
      cases otherNumber with
      | natural other =>
          rw [prettyText_natural] at same
          have values := congrArg (Nat.ofDigitChars 10 · 0) same
          simp only [Nat.ofDigitChars_ten_toDigits] at values
          rw [values]
      | number finite =>
          rw [prettyText_number] at same
          exact absurd same (toDigits_ne_treeText value finite)
  | number finite =>
      rw [prettyText_number] at same
      cases otherNumber with
      | natural other =>
          rw [prettyText_natural] at same
          exact absurd same.symm (toDigits_ne_treeText other finite)
      | number otherFinite =>
          rw [prettyText_number, String.toList_inj] at same
          rw [Binary64.eq_of_treeText_eq finite otherFinite same]

private theorem HasKind.null_text {value : Json} (isNull : value.HasKind .null) (level : Nat) :
    prettyText level value = "null".toList ∧ value.plain = .null := by
  cases isNull with
  | null => exact ⟨rfl, plain_null⟩
  | infinite infinite =>
      rw [plain, if_neg (by simp [infinite])]
      exact ⟨prettyText_infinite level infinite, rfl⟩

private theorem Readable.field {level : Nat} {field : String × Json}
    (readable : Readable (prettyText level) plain field.2) :
    Readable (fieldText level) (fun field => (field.1, field.2.plain)) field := by
  intro other rest others stops otherStops same
  simp only [fieldText, List.append_assoc, List.cons_append] at same
  obtain ⟨keys, behind⟩ := Text.quote_append_inj same
  obtain ⟨values, rests⟩ := readable other.2 rest others stops otherStops
    (List.cons.inj (List.cons.inj behind).2).2
  exact ⟨congrArg₂ Prod.mk keys values, rests⟩

/-- A value can be read if its parts can. -/
private theorem readable_of_parts {level : Nat} {value : Json}
    (inList : ∀ items, value = .list items → ∀ item ∈ items,
      Readable (prettyText (level + 1)) plain item)
    (inObject : ∀ fields, value = .object fields → ∀ field ∈ fields,
      Readable (prettyText (level + 1)) plain field.2) :
    Readable (prettyText level) plain value := by
  intro other rest others stops otherStops same
  obtain ⟨kind, hasKind, otherHasKind⟩ := exists_kind same
  cases kind with
  | null =>
      obtain ⟨text, isNull⟩ := hasKind.null_text level
      obtain ⟨otherText, otherNull⟩ := otherHasKind.null_text level
      rw [text, otherText] at same
      rw [isNull, otherNull]
      exact ⟨rfl, List.append_cancel_left same⟩
  | bool truth =>
      cases hasKind
      cases otherHasKind
      exact ⟨rfl, List.append_cancel_left same⟩
  | number =>
      obtain ⟨texts, rests⟩ := Text.run_inj (hasKind.isNumberPart level)
        (otherHasKind.isNumberPart level) stops otherStops same
      rw [hasKind.eq_of_prettyText_eq otherHasKind texts]
      exact ⟨rfl, rests⟩
  | text =>
      cases hasKind
      cases otherHasKind
      rw [prettyText_text, prettyText_text] at same
      obtain ⟨texts, rests⟩ := Text.quote_append_inj same
      rw [texts]
      exact ⟨rfl, rests⟩
  | list =>
      cases hasKind with
      | list items =>
          cases otherHasKind with
          | list otherItems =>
              rw [prettyText_list, prettyText_list] at same
              simp only [List.cons_append, List.append_assoc, List.cons.injEq, true_and,
                List.nil_append] at same
              obtain ⟨parts, rests⟩ := enclosed_append_inj (inList items rfl) (by decide) same
              rw [plain_list, plain_list, parts]
              exact ⟨rfl, rests⟩
  | object =>
      cases hasKind with
      | object fields =>
          cases otherHasKind with
          | object otherFields =>
              rw [prettyText_object, prettyText_object] at same
              simp only [List.cons_append, List.append_assoc, List.cons.injEq, true_and,
                List.nil_append] at same
              obtain ⟨parts, rests⟩ := enclosed_append_inj
                (fun field member => (inObject fields rfl field member).field) (by decide) same
              rw [plain_object, plain_object, parts]
              exact ⟨rfl, rests⟩

/-- A pretty text tells its value and where the value ends. -/
theorem readable (level : Nat) (value : Json) : Readable (prettyText level) plain value := by
  apply readable_of_parts
  · intro items isList item member
    exact readable (level + 1) item
  · intro fields isObject field member
    exact readable (level + 1) field.2
termination_by sizeOf value
decreasing_by
  · have smaller := List.sizeOf_lt_of_mem member
    rw [isList]
    simp
    omega
  · have smaller := sizeOf_snd_lt_of_mem member
    rw [isObject]
    simp
    omega

theorem plain_eq_of_pretty_eq {value other : Json} (same : value.pretty = other.pretty) :
    value.plain = other.plain := by
  have texts := congrArg String.toList same
  rw [toList_pretty, toList_pretty, ← List.append_nil (prettyText 0 value),
    ← List.append_nil (prettyText 0 other)] at texts
  exact (readable 0 value other [] [] rfl rfl texts).1

end AudioMarkup.Json
