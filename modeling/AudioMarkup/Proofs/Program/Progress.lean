import AudioMarkup.Proofs.Expr.Grammar
import AudioMarkup.Proofs.Program.Cursor
import AudioMarkup.Proofs.Program.Diagnostics

/-!
Progress of the readers. From any position each of them comes to an end: behind its start if it
succeeds, not before its start if it is refused, and never behind the last token. So a loop that has
more rounds than there are tokens left ends before it has used them up.

Chains of operators are read by recursion elsewhere. Here is the loop for them, which collects the
operands and makes the tree in the end: `Cursor.readLooped`.
-/

namespace AudioMarkup

def Expr.ofOperations (first : Expr) : List (Operator × Expr) → Expr
  | [] => first
  | (operator, operand) :: rest => .operation operator first (ofOperations operand rest)

namespace Cursor

/-! ### Chains of operators -/

section Chains

variable (tokens : Array Token) (scope : Scope)

/-- Rounds of a loop, each with an operator and its operand. There is a reader for each level that is
left, the outermost first, and each operand has one level less than the one before it. -/
def readOperations : Nat → List (Cursor Expr) → Array (Operator × Expr) →
    Cursor (Array (Operator × Expr))
  | 0, _, _ => crash .noRound
  | rounds + 1, below, read => do
    match ← takeMap tokens Expr.operatorOf? with
    | none => pure read
    | some (operator, token) =>
      match below with
      | [] => fail (.nestingTooDeep nestingLimit) token
      | _ :: lower => do
        let operand ← readOperand tokens scope lower.head?
        readOperations rounds lower (read.push (operator, operand))

def readLoop (below : List (Cursor Expr)) : Cursor Expr := do
  let first ← readOperand tokens scope below.head?
  let operations ← readOperations tokens scope tokens.size below #[]
  pure (first.ofOperations operations.toList)

def readersBelow : Nat → List (Cursor Expr)
  | 0 => []
  | levels + 1 => readLoop tokens scope (readersBelow levels) :: readersBelow levels

def readLooped : Cursor Expr := readLoop tokens scope (readersBelow tokens scope nestingLimit)

def readItem (items : Array Expr) : Cursor (Array Expr) := do
  let item ← readExpr tokens scope
  pure (items.push item)

end Chains

inductive Below (tokens : Array Token) (scope : Scope) : Nat → List (Cursor Expr) → Prop where
  | none : Below tokens scope 0 []
  | some {levels : Nat} {reader : Cursor Expr} {below : List (Cursor Expr)} :
      Simulates tokens Eq reader (Expr.parseWithin scope levels) → Below tokens scope levels below →
      Below tokens scope (levels + 1) (reader :: below)

variable {tokens : Array Token} {scope : Scope} {levels : Nat}

theorem Below.head? {below : List (Cursor Expr)} (lower : Below tokens scope levels below) :
    Option.Rel (Simulates tokens Eq) below.head? (Expr.nextLevel? scope levels) := by
  cases lower with
  | none => exact .none
  | some simulates _ => exact .some simulates

theorem settles_nextLevel? {Known : Token → Prop} (scope : Scope) (levels : Nat) :
    ∀ step ∈ Expr.nextLevel? scope levels, Parse.Settles Known (fun _ => True) step := by
  intro step member
  cases levels with
  | zero => cases member
  | succ lower =>
      cases member
      exact Expr.settles_parseWithin scope lower

/-- A round takes the operator at least. -/
private theorem remaining_lt_of_round {stream afterOperator afterOperand : Stream}
    {pair : Operator × Token} {operand : Expr}
    (operatorRead : Parse.takeMap Expr.operatorOf? stream = .ok (some pair) afterOperator)
    (operandRead : Expr.parseOperand scope (Expr.nextLevel? scope levels) afterOperator =
      .ok operand afterOperand) :
    afterOperand.remaining < stream.remaining := by
  obtain ⟨token, _, same⟩ := Parse.takeMap_eq_some_iff.mp operatorRead
  have atOperator : stream.remaining = afterOperator.remaining + 1 := by
    rw [same]
    rfl
  have settled := Expr.settles_parseOperand scope (settles_nextLevel? scope levels) afterOperator
    fun _ _ => trivial
  rw [operandRead] at settled
  have atOperand := settled.remaining_le_of_ok
  omega

/-- The loop reads what the recursion reads behind a left operand. There are more rounds than
tokens. -/
theorem simulates_readOperations {rounds : Nat} {below : List (Cursor Expr)}
    (lower : Below tokens scope levels below) (left : Expr) (read : Array (Operator × Expr))
    {position : Nat} {stream : Stream} (enough : stream.remaining < rounds)
    (follows : Follows tokens position stream) :
    Matches tokens
      (fun operations expr => ∃ more, operations = read ++ more.toArray ∧
        expr = left.ofOperations more)
      (readOperations tokens scope rounds below read position)
      (Expr.parseTail (Expr.nextLevel? scope levels) left stream) := by
  induction rounds generalizing levels below left read position stream with
  | zero => exact absurd enough (Nat.not_lt_zero _)
  | succ rounds ih =>
      rw [readOperations, Expr.parseTail]
      apply (simulates_takeMap _ position stream follows).bind
      rintro pair? _ positionOperator afterOperator operatorRead rfl followsOperator
      cases pair? with
      | none => exact .ok ⟨[], by simp, rfl⟩ followsOperator
      | some pair =>
          cases lower with
          | none => exact .refused followsOperator
          | @some levels _ below _ lower =>
              dsimp only [Expr.nextLevel?]
              rw [Expr.parseWithin_eq_parseChain, Expr.parseChain, bind_assoc]
              apply (simulates_readOperand scope lower.head? _ _ followsOperator).bind
              rintro operand _ positionOperand afterOperand operandRead rfl followsOperand
              have fewer : afterOperand.remaining < rounds := by
                have taken := remaining_lt_of_round operatorRead operandRead
                omega
              rw [← bind_pure (readOperations tokens scope rounds _ _)]
              apply (ih lower operand _ fewer followsOperand).bind
              rintro _ _ positionRest afterRest _ ⟨more, rfl, rfl⟩ followsRest
              exact .ok ⟨(pair.1, operand) :: more, by simp, rfl⟩ followsRest

theorem simulates_readLoop {below : List (Cursor Expr)} (lower : Below tokens scope levels below) :
    Simulates tokens Eq (readLoop tokens scope below) (Expr.parseWithin scope levels) := by
  rw [Expr.parseWithin_eq_parseChain]
  apply (simulates_readOperand scope lower.head?).andThen
  intro first position stream follows
  have enough : stream.remaining < tokens.size := by
    rw [follows.size]
    omega
  rw [← bind_pure (Expr.parseTail _ first)]
  apply (simulates_readOperations lower first #[] enough follows).bind
  rintro _ _ positionAfter after _ ⟨more, rfl, rfl⟩ followsAfter
  exact .ok (by simp) followsAfter

theorem below_readersBelow (levels : Nat) :
    Below tokens scope levels (readersBelow tokens scope levels) := by
  induction levels with
  | zero => exact .none
  | succ levels ih => exact .some (simulates_readLoop ih) ih

theorem simulates_readLooped :
    Simulates tokens Eq (readLooped tokens scope) (Expr.parse scope) :=
  simulates_readLoop (below_readersBelow nestingLimit)

/-! ### Where a reader comes to -/

/-- The end of a reader that has started at a position. It has not crashed. If it has succeeded, it
is at the earliest place or behind it, and if it was refused, at its start or behind it. -/
inductive Lands (tokens : List Token) (start earliest : Nat) {α : Type} :
    EStateM.Result Halt Nat α → Prop where
  | ok {value : α} {position : Nat} : earliest ≤ position → position ≤ tokens.length →
      Lands tokens start earliest (.ok value position)
  | refused {diagnostic : Diagnostic} {position : Nat} :
      start ≤ position → position ≤ tokens.length →
      Lands tokens start earliest (.error (.refused diagnostic) position)

structure Progresses (tokens : List Token) {α : Type} (reader : Cursor α) (other : Parse α) :
    Prop where
  matched : ∀ start, start ≤ tokens.length →
    Matches (marked tokens) Eq (reader start) (other ((Stream.ofTokens tokens).skip start))
  lands : ∀ start, start ≤ tokens.length → Lands tokens start (start + 1) (reader start)

/-- From any position, the loop ends within as many rounds as there are tokens left and one more. -/
def Ends (tokens : List Token) {α : Type} (loop : Nat → Cursor α) : Prop :=
  ∀ start rounds, start ≤ tokens.length → tokens.length < start + rounds →
    Lands tokens start start (loop rounds start)

section

variable {tokens : List Token} {start : Nat} {α β : Type}

theorem follows_skip (within : start ≤ tokens.length) :
    Follows (marked tokens) start ((Stream.ofTokens tokens).skip start) := by
  refine ⟨tokens.take start, ?_, (List.length_take_of_le within).symm⟩
  rw [marked, ← List.append_assoc]
  show _ = (tokens.take start ++ tokens.drop start ++ _).toArray
  rw [List.take_append_drop]
  rfl

/-- No reader comes back to tokens before its start, as fewer tokens would be left there. -/
theorem Matches.lands {Value : α → β → Prop} {Good : β → Prop} {before : Stream}
    {result : EStateM.Result Halt Nat α} {other : EStateM.Result Diagnostic Stream β}
    (matched : Matches (marked tokens) Value result other) (gain : Nat)
    (follows : Follows (marked tokens) start before)
    (settled : Parse.Settled (fun _ => True) Good before other)
    (gains : ∀ value after, other = .ok value after →
      after.remaining + gain ≤ before.remaining) :
    Lands tokens start (start + gain) result := by
  have count : (marked tokens).size = tokens.length + 1 := by
    rw [marked, List.size_toArray, List.length_append, List.length_singleton]
  have atStart := follows.size
  cases matched with
  | ok _ followsAfter =>
      have atEnd := followsAfter.size
      have fewer := gains _ _ rfl
      exact .ok (by omega) (by omega)
  | refused followsStopped =>
      have atEnd := followsStopped.size
      have fewer := settled.remaining_le_of_error
      exact .refused (by omega) (by omega)

theorem progresses_of_simulates {Good : α → Prop} {reader : Cursor α} {other : Parse α}
    (simulates : Simulates (marked tokens) Eq reader other) (advances : other.Advances)
    (settles : Parse.Settles (fun _ => True) Good other) : Progresses tokens reader other where
  matched start within := simulates start _ (follows_skip within)
  lands start within := by
    have follows := follows_skip within
    apply (simulates start _ follows).lands 1 follows (settles _ fun _ _ => trivial)
    intro value after success
    exact advances _ _ _ success

theorem ends_of_matches {Value : α → β → Prop} {Good : β → Prop} {loop : Nat → Cursor α}
    {other : Parse β} (settles : Parse.Settles (fun _ => True) Good other)
    (matched : ∀ start rounds stream, stream.remaining < rounds →
      Follows (marked tokens) start stream →
      Matches (marked tokens) Value (loop rounds start) (other stream)) :
    Ends tokens loop := by
  intro start rounds within enough
  have follows := follows_skip within
  have fewer : ((Stream.ofTokens tokens).skip start).remaining < rounds := by
    have left : ((Stream.ofTokens tokens).skip start).remaining = tokens.length - start :=
      List.length_drop
    omega
  have settled := settles ((Stream.ofTokens tokens).skip start) fun _ _ => trivial
  apply (matched start rounds _ fewer follows).lands 0 follows settled
  intro value after success
  rw [success] at settled
  exact settled.remaining_le_of_ok

/-! ### The loops -/

theorem ends_readDefinitions (context : String) (defined : List String) (read : Array Definition) :
    Ends tokens fun rounds => readDefinitions (marked tokens) context rounds defined read := by
  apply ends_of_matches (Program.settles_parseDefinitions context defined)
  intro start rounds stream enough follows
  exact simulates_readDefinitions context defined read enough follows

theorem ends_readSettings (scope : Scope) (node : Node) :
    Ends tokens fun rounds => separated (marked tokens) .rightBrace
      (readSetting (marked tokens) node.nodeClass scope) rounds node := by
  apply ends_of_matches (Parse.settles_separated
    (Definition.neverRewinds_parseSetting node.nodeClass scope)
    (Definition.settles_parseSetting node.nodeClass scope))
  intro start rounds stream enough follows
  exact simulates_separated _ (simulates_readSetting scope) rfl enough follows

theorem ends_readItems (scope : Scope) (items : Array Expr) :
    Ends tokens fun rounds => separated (marked tokens) .rightBracket
      (readItem (marked tokens) scope) rounds items := by
  apply ends_of_matches (Parse.settles_separated (Series.neverRewinds_item scope)
    (Expr.settles_parse scope))
  intro start rounds stream enough follows
  exact simulates_separated _ (simulates_push_readExpr scope) trivial enough follows

theorem ends_readOperations (scope : Scope) (levels : Nat) (read : Array (Operator × Expr)) :
    Ends tokens fun rounds => readOperations (marked tokens) scope rounds
      (readersBelow (marked tokens) scope levels) read := by
  apply ends_of_matches (Expr.settles_parseTail default (settles_nextLevel? scope levels))
  intro start rounds stream enough follows
  exact simulates_readOperations (below_readersBelow levels) default read enough follows

end

/-- Each reader makes progress from any position, whatever the tokens are, and each loop ends. -/
theorem readers_progress_and_loops_end (tokens : List Token) (scope : Scope) (context : String)
    (defined : List String) :
    Progresses tokens (readExpr (marked tokens) scope) (Expr.parse scope) ∧
    Progresses tokens (readLooped (marked tokens) scope) (Expr.parse scope) ∧
    Progresses tokens (readItems (marked tokens) scope) (Series.parseItems scope) ∧
    Progresses tokens (readRange (marked tokens) scope) (Series.parseRange scope) ∧
    Progresses tokens (readSeries (marked tokens) scope) (Series.parse scope) ∧
    Progresses tokens (readDefinition (marked tokens) context defined)
      (Definition.parse context defined) ∧
    (∀ read, Ends tokens fun rounds =>
      readDefinitions (marked tokens) context rounds defined read) ∧
    (∀ node, Ends tokens fun rounds => separated (marked tokens) .rightBrace
      (readSetting (marked tokens) node.nodeClass scope) rounds node) ∧
    (∀ items, Ends tokens fun rounds => separated (marked tokens) .rightBracket
      (readItem (marked tokens) scope) rounds items) ∧
    ∀ levels read, Ends tokens fun rounds => readOperations (marked tokens) scope rounds
      (readersBelow (marked tokens) scope levels) read := by
  refine ⟨?_, ?_, ?_, ?_, ?_, ?_, ends_readDefinitions context defined, ends_readSettings scope,
    ends_readItems scope, ends_readOperations scope⟩
  · exact progresses_of_simulates (simulates_readExpr scope) (Expr.advances_parse scope)
      (Expr.settles_parse scope)
  · exact progresses_of_simulates simulates_readLooped (Expr.advances_parse scope)
      (Expr.settles_parse scope)
  · exact progresses_of_simulates (simulates_readItems scope) (Series.advances_parseItems scope)
      (Series.settles_parseItems scope)
  · exact progresses_of_simulates (simulates_readRange scope) (Series.advances_parseRange scope)
      (Series.settles_parseRange scope)
  · exact progresses_of_simulates (simulates_readSeries scope) (Series.advances_parse scope)
      (Series.settles_parse scope)
  · exact progresses_of_simulates (simulates_readDefinition context defined)
      (Definition.advances_parse context defined) (Definition.settles_parse context defined)

/-- The items are given up at the unknown name, and the range is read again from the bracket on. -/
theorem readers_progress_and_loops_end_of_cut_range :
    2 ≤ (Token.scan "real:[k,0 to").length ∧
    Lands (Token.scan "real:[k,0 to") 2 3
      (readSeries (marked (Token.scan "real:[k,0 to")) (.ofNames []) 2) ∧
    readItems (marked (Token.scan "real:[k,0 to")) (.ofNames []) 2 =
      .error (.refused ⟨.undefinedReference, ⟨1, 7, "k", .name⟩⟩) 4 ∧
    readSeries (marked (Token.scan "real:[k,0 to")) (.ofNames []) 2 =
      .error (.refused ⟨.exhaustedInput, ⟨1, 12, "", .endOfInput⟩⟩) 7 := by
  have within : 2 ≤ (Token.scan "real:[k,0 to").length := by decide +kernel
  obtain ⟨_, _, _, _, series, _⟩ :=
    readers_progress_and_loops_end (Token.scan "real:[k,0 to") (.ofNames []) defaultContext []
  exact ⟨within, series.lands 2 within, by decide +kernel, by decide +kernel⟩

end Cursor
end AudioMarkup
