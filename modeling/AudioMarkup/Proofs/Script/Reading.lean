import AudioMarkup.Proofs.Expr.Canonical
import AudioMarkup.Proofs.Expr.Transliteration

/-!
How the text of an expression is read when a script runs. Operators group to the left, and products
before sums; parentheses group, and with a name in front of them they call a function. The text is
read once from left to right. In each parenthesis that is still open there is at most one sum that
waits for a term and at most one product that waits for a factor.

`Level.readOn` says on trees what becomes of an expression that is written and read again, and
`readExpr?_scriptText` that reading its text does just that.
-/

namespace AudioMarkup

def Operator.isAdditive : Operator → Bool
  | .add => true
  | .sub => true
  | .mul => false
  | .div => false

def MathFunction.ofScriptName? (name : String) : Option MathFunction :=
  all.find? (·.scriptName == name)

theorem MathFunction.ofScriptName?_scriptName (function : MathFunction) :
    ofScriptName? function.scriptName = some function := by
  cases function <;> rfl

namespace Script

/-! ### Symbols -/

inductive Symbol where
  | word (text : String)
  | operator (operator : Operator)
  | opening
  | closing
  deriving DecidableEq, Repr

namespace Symbol

def ofChar? : Char → Option Symbol
  | '+' => some (.operator .add)
  | '-' => some (.operator .sub)
  | '*' => some (.operator .mul)
  | '/' => some (.operator .div)
  | '(' => some .opening
  | ')' => some .closing
  | _ => none

def ofPending : List Char → List Symbol
  | [] => []
  | first :: rest => [.word (String.ofList (first :: rest))]

def scanAfter (pending : List Char) : List Char → List Symbol
  | [] => ofPending pending
  | c :: rest =>
    match ofChar? c with
    | some symbol => ofPending pending ++ symbol :: scanAfter [] rest
    | none => scanAfter (pending ++ [c]) rest

def scan (text : String) : List Symbol := scanAfter [] text.toList

end Symbol

/-! ### Levels -/

def join : Option (Expr × Operator) → Expr → Expr
  | none, right => right
  | some (left, operator), right => .operation operator left right

structure Level where
  sum? : Option (Expr × Operator)
  product? : Option (Expr × Operator)
  additive : ∀ waiting ∈ sum?, waiting.2.isAdditive = true
  multiplicative : ∀ waiting ∈ product?, waiting.2.isAdditive = false

namespace Level

def start : Level where
  sum? := none
  product? := none
  additive := nofun
  multiplicative := nofun

def close (level : Level) (last : Expr) : Expr := join level.sum? (join level.product? last)

/-- The level behind an operand and an operator. The operand is the last factor of the product that
waits; before `+` and `-` it also ends the last term of the sum. -/
def push (level : Level) (last : Expr) (operator : Operator) : Level :=
  if additive : operator.isAdditive then
    { sum? := some (level.close last, operator)
      product? := none
      additive := by simp [additive]
      multiplicative := nofun }
  else
    { level with
      product? := some (join level.product? last, operator)
      multiplicative := by simp [additive] }

end Level

/-! ### Reading -/

def leaf? (text : String) : Option Expr :=
  if Text.isDecimal text.toList then (Numeral.read? text).map .number else some (.reference text)

def enclose : Option MathFunction → Expr → Expr
  | none, inner => .group inner
  | some function, argument => .call function argument

structure Reader where
  /-- The levels around the open parentheses, the innermost first, each with the function called. -/
  outer : List (Option MathFunction × Level)
  level : Level
  operand? : Option Expr

namespace Reader

def start : Reader := { outer := [], level := .start, operand? := none }

def step (reader : Reader) (symbol : Symbol) : Option Reader :=
  match symbol, reader.operand? with
  | .word text, none => (leaf? text).map fun leaf => { reader with operand? := some leaf }
  | .opening, none =>
    some { outer := (none, reader.level) :: reader.outer, level := .start, operand? := none }
  | .opening, some (.reference name) =>
    (MathFunction.ofScriptName? name).map fun function =>
      { outer := (some function, reader.level) :: reader.outer, level := .start, operand? := none }
  | .operator operator, some last =>
    some { reader with level := reader.level.push last operator, operand? := none }
  | .closing, some last =>
    match reader.outer with
    | [] => none
    | (function?, level) :: outer =>
      some { outer, level, operand? := some (enclose function? (reader.level.close last)) }
  | _, _ => none

def finish? (reader : Reader) : Option Expr :=
  match reader.outer, reader.operand? with
  | [], some last => some (reader.level.close last)
  | _, _ => none

end Reader

/-- The expression that a script computes for a text. -/
def readExpr? (text : String) : Option Expr :=
  ((Symbol.scan text).foldlM Reader.step Reader.start).bind Reader.finish?

example : readExpr? "a-b-c*d" =
    some (.operation .sub (.operation .sub (.reference "a") (.reference "b"))
      (.operation .mul (.reference "c") (.reference "d"))) := by
  decide +kernel

/-! ### Written and read again -/

/-- The level and the last operand when the text of an expression has been read on a level. -/
def Level.readOn : Level → Expr → Level × Expr
  | level, .number value => (level, .number value)
  | level, .reference name => (level, .reference name)
  | level, .operation operator left right =>
    ((level.readOn left).1.push (level.readOn left).2 operator).readOn right
  | level, .call function argument =>
    (level, .call function ((start.readOn argument).1.close (start.readOn argument).2))
  | level, .group inner => (level, .group ((start.readOn inner).1.close (start.readOn inner).2))

def Level.reading (level : Level) (expr : Expr) : Expr :=
  (level.readOn expr).1.close (level.readOn expr).2

theorem Level.readOn_operand {operand : Expr} (isOperand : operand.isOperand = true)
    (level : Level) : level.readOn operand = (level, start.reading operand) := by
  cases operand with
  | number value => rfl
  | reference name => rfl
  | operation operator left right => cases isOperand
  | call function argument => rfl
  | group inner => rfl

theorem Level.reading_operation {left : Expr} (isOperand : left.isOperand = true) (level : Level)
    (operator : Operator) (right : Expr) :
    level.reading (.operation operator left right) =
      (level.push (start.reading left) operator).reading right := by
  rw [reading, readOn, readOn_operand isOperand]
  rfl

end Script

namespace Expr

open Script

def symbols : Expr → List Symbol
  | .number value => [.word value.scriptText]
  | .reference name => [.word name]
  | .operation operator left right => left.symbols ++ .operator operator :: right.symbols
  | .call function argument =>
    .word function.scriptName :: .opening :: (argument.symbols ++ [.closing])
  | .group inner => .opening :: (inner.symbols ++ [.closing])

def isFinite : Expr → Bool
  | .number value => value.isFinite
  | .reference _ => true
  | .operation _ left right => left.isFinite && right.isFinite
  | .call _ argument => argument.isFinite
  | .group inner => inner.isFinite

end Expr

namespace Script

def EndsWord (rest : List Char) : Prop := ∀ c ∈ rest.head?, (Symbol.ofChar? c).isSome = true

theorem endsWord_cons {mark : Char} {symbol : Symbol} (isMark : Symbol.ofChar? mark = some symbol)
    (rest : List Char) : EndsWord (mark :: rest) := by
  intro c member
  cases member
  rw [isMark]
  rfl

private theorem Symbol.scanAfter_plain {chars : List Char}
    (plain : ∀ c ∈ chars, Symbol.ofChar? c = none) (pending rest : List Char) :
    Symbol.scanAfter pending (chars ++ rest) = Symbol.scanAfter (pending ++ chars) rest := by
  induction chars generalizing pending with
  | nil => rw [List.nil_append, List.append_nil]
  | cons c others ih =>
      have head : Symbol.ofChar? c = none := plain c List.mem_cons_self
      have tail : ∀ c ∈ others, Symbol.ofChar? c = none := fun c member =>
        plain c (List.mem_cons_of_mem _ member)
      rw [List.cons_append, Symbol.scanAfter, head]
      dsimp only
      rw [ih tail, List.append_assoc, List.singleton_append]

theorem Symbol.scanAfter_mark {mark : Char} {symbol : Symbol}
    (isMark : Symbol.ofChar? mark = some symbol) (rest : List Char) :
    Symbol.scanAfter [] (mark :: rest) = symbol :: Symbol.scanAfter [] rest := by
  rw [Symbol.scanAfter, isMark]
  rfl

private theorem ofChar?_of_isBareChar {c : Char} (bare : Text.isBareChar c = true) :
    Symbol.ofChar? c = none := by
  unfold Symbol.ofChar?
  split
  all_goals first | rfl | (exfalso; revert bare; decide)

theorem Symbol.scanAfter_word {text : String} (bare : Text.isBare text = true) {rest : List Char}
    (ends : EndsWord rest) :
    Symbol.scanAfter [] (text.toList ++ rest) = .word text :: Symbol.scanAfter [] rest := by
  rw [Text.isBare, Bool.and_eq_true, List.all_eq_true] at bare
  have plain : ∀ c ∈ text.toList, Symbol.ofChar? c = none := fun c member =>
    ofChar?_of_isBareChar (bare.2 c member)
  have word : Symbol.ofPending text.toList = [.word text] := by
    cases chars : text.toList with
    | nil =>
        have empty : text = "" := String.toList_eq_nil_iff.mp chars
        rw [empty] at bare
        exact absurd bare.1 (by decide)
    | cons first others => rw [Symbol.ofPending, ← chars, String.ofList_toList]
  rw [Symbol.scanAfter_plain plain, List.nil_append]
  cases rest with
  | nil => rw [Symbol.scanAfter, word, Symbol.scanAfter, Symbol.ofPending]
  | cons c others =>
      obtain ⟨symbol, isMark⟩ := Option.isSome_iff_exists.mp (ends c rfl)
      rw [Symbol.scanAfter_mark isMark, Symbol.scanAfter, isMark, word]
      rfl

end Script

namespace Expr

open Script

variable {expr : Expr}

theorem number_reads {value : Binary64} (writable : isWritable (.number value) = true)
    (finite : isFinite (.number value) = true) :
    Text.isDecimal value.scriptText.toList = true ∧
      Numeral.read? value.scriptText = some value := by
  rw [isWritable, Binary64.isWritable, Bool.and_eq_true, Bool.not_eq_true'] at writable
  exact Binary64.read?_scriptText finite writable.1

theorem isBare_scriptName (function : MathFunction) :
    Text.isBare function.scriptName = true := by
  cases function <;> rfl

private theorem scanAfter_parentheses {chars : List Char} {inside : List Symbol} {rest : List Char}
    (scanned : ∀ others, EndsWord others →
      Symbol.scanAfter [] (chars ++ others) = inside ++ Symbol.scanAfter [] others) :
    Symbol.scanAfter [] ('(' :: (chars ++ ')' :: rest)) =
      .opening :: (inside ++ .closing :: Symbol.scanAfter [] rest) := by
  have opened : Symbol.ofChar? '(' = some .opening := rfl
  have closed : Symbol.ofChar? ')' = some .closing := rfl
  rw [Symbol.scanAfter_mark opened, scanned _ (endsWord_cons closed rest),
    Symbol.scanAfter_mark closed]

theorem scanAfter_scriptText (writable : expr.isWritable = true) (finite : expr.isFinite = true)
    {rest : List Char} (ends : EndsWord rest) :
    Symbol.scanAfter [] (expr.scriptText.toList ++ rest) =
      expr.symbols ++ Symbol.scanAfter [] rest := by
  -- What follows a part starts with a mark or not at all, so the words of the parts stay apart.
  induction expr generalizing rest with
  | number value =>
      have bare := Text.isBare_of_isDecimal (number_reads writable finite).1
      rw [scriptText_number, Symbol.scanAfter_word bare ends]
      rfl
  | reference name =>
      simp only [isWritable, Text.isName, Bool.and_eq_true] at writable
      rw [scriptText_reference, Symbol.scanAfter_word writable.1.1 ends]
      rfl
  | operation operator left right leftIh rightIh =>
      rw [isWritable, Bool.and_eq_true] at writable
      rw [isFinite, Bool.and_eq_true] at finite
      obtain ⟨mark, text, isMark⟩ : ∃ mark, operator.symbol.toList = [mark] ∧
          Symbol.ofChar? mark = some (.operator operator) := by
        cases operator <;> exact ⟨_, rfl, rfl⟩
      rw [scriptText_operation, String.toList_append, String.toList_append, text,
        List.append_assoc, List.append_assoc, List.singleton_append,
        leftIh writable.1 finite.1 (endsWord_cons isMark _), Symbol.scanAfter_mark isMark,
        rightIh writable.2 finite.2 ends]
      simp only [symbols, List.append_assoc, List.cons_append]
  | call function argument ih =>
      have text : (scriptText (.call function argument)).toList ++ rest =
          function.scriptName.toList ++ '(' :: (argument.scriptText.toList ++ ')' :: rest) := by
        rw [scriptText_call, String.toList_append, String.toList_append, String.toList_append]
        simp only [String.reduceToList, List.append_assoc, List.cons_append, List.nil_append]
      rw [text, Symbol.scanAfter_word (isBare_scriptName function) (endsWord_cons rfl _),
        scanAfter_parentheses fun _ ends => ih writable finite ends]
      simp only [symbols, List.append_assoc, List.cons_append, List.nil_append]
  | group inner ih =>
      have text : (scriptText (.group inner)).toList ++ rest =
          '(' :: (inner.scriptText.toList ++ ')' :: rest) := by
        rw [scriptText_group, String.toList_append, String.toList_append]
        simp only [String.reduceToList, List.append_assoc, List.cons_append, List.nil_append]
      rw [text, scanAfter_parentheses fun _ ends => ih writable finite ends]
      simp only [symbols, List.append_assoc, List.cons_append, List.nil_append]

theorem scan_scriptText (writable : expr.isWritable = true) (finite : expr.isFinite = true) :
    Symbol.scan expr.scriptText = expr.symbols := by
  have ends : EndsWord [] := nofun
  have scanned := scanAfter_scriptText writable finite ends
  rwa [List.append_nil, Symbol.scanAfter, Symbol.ofPending, List.append_nil] at scanned

private theorem leaf?_scriptText {value : Binary64} (writable : isWritable (.number value) = true)
    (finite : isFinite (.number value) = true) :
    leaf? value.scriptText = some (.number value) := by
  obtain ⟨decimal, read⟩ := number_reads writable finite
  rw [leaf?, if_pos decimal, read, Option.map_some]

private theorem leaf?_name {name : String} (isName : Text.isName name = true) :
    leaf? name = some (.reference name) := by
  simp only [Text.isName, Bool.and_eq_true, Bool.not_eq_true'] at isName
  rw [leaf?, isName.1.2, if_neg Bool.false_ne_true]

private theorem leaf?_scriptName (function : MathFunction) :
    leaf? function.scriptName = some (.reference function.scriptName) := by
  cases function <;> rfl

/-- A reader that waits for an operand goes over the symbols of an expression. -/
theorem foldlM_symbols (writable : expr.isWritable = true) (finite : expr.isFinite = true)
    (outer : List (Option MathFunction × Level)) (level : Level) :
    expr.symbols.foldlM Reader.step { outer, level, operand? := none } =
      some { outer, level := (level.readOn expr).1, operand? := some (level.readOn expr).2 } := by
  -- Inside parentheses there is one more level around, and the level itself is a new one.
  induction expr generalizing outer level with
  | number value =>
      simp only [symbols, List.foldlM_cons, List.foldlM_nil, Reader.step,
        leaf?_scriptText writable finite, Option.map_some, Option.bind_eq_bind, Option.bind_some,
        Level.readOn, Option.pure_def]
  | reference name =>
      simp only [symbols, List.foldlM_cons, List.foldlM_nil, Reader.step, leaf?_name writable,
        Option.map_some, Option.bind_eq_bind, Option.bind_some, Level.readOn, Option.pure_def]
  | operation operator left right leftIh rightIh =>
      rw [isWritable, Bool.and_eq_true] at writable
      rw [isFinite, Bool.and_eq_true] at finite
      simp only [symbols, List.foldlM_append, List.foldlM_cons, leftIh writable.1 finite.1,
        Reader.step, Option.bind_eq_bind, Option.bind_some, rightIh writable.2 finite.2,
        Level.readOn]
  | call function argument ih =>
      simp only [symbols, List.foldlM_append, List.foldlM_cons, List.foldlM_nil, Reader.step,
        leaf?_scriptName, MathFunction.ofScriptName?_scriptName, ih writable finite,
        Option.map_some, Option.bind_eq_bind, Option.bind_some, enclose, Level.readOn,
        Option.pure_def]
  | group inner ih =>
      simp only [symbols, List.foldlM_append, List.foldlM_cons, List.foldlM_nil, Reader.step,
        ih writable finite, Option.bind_eq_bind, Option.bind_some, enclose, Level.readOn,
        Option.pure_def]

theorem readExpr?_scriptText (writable : expr.isWritable = true) (finite : expr.isFinite = true) :
    readExpr? expr.scriptText = some (Level.start.reading expr) := by
  rw [readExpr?, scan_scriptText writable finite, Reader.start, foldlM_symbols writable finite,
    Option.bind_some]
  rfl

end Expr
end AudioMarkup
