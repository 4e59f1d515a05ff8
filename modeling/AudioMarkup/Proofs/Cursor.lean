import AudioMarkup.Proofs.Parallel
import AudioMarkup.Program.Basic

/-!
Reading by position. All tokens stand in an array with the end marker behind them, and a reader is
at a position of this array. Going back is setting the position to an earlier one.

Each access to the array is checked, so a reader may crash as well as refuse the tokens.
`Cursor.Simulates` states that it does not crash, and that it does what a reader of streams does.
-/

namespace AudioMarkup

/-- What no reader should come to: a look outside the array, a setting that does not apply to its
node, and a loop that goes on when there are no tokens for another round. -/
inductive Crash where
  | noToken (index : Nat)
  | noSetting (node : Node) (property : Property) (value : PropertyValue)
  | noRound
  deriving DecidableEq, Repr

inductive Halt where
  | refused (diagnostic : Diagnostic)
  | crashed (crash : Crash)
  deriving DecidableEq, Repr

abbrev Cursor (α : Type) := EStateM Halt Nat α

namespace Cursor

/-! ### Elementary steps -/

def fail {α : Type} (fault : Fault) (token : Token) : Cursor α :=
  fun position => .error (.refused ⟨fault, token⟩) position

def crash {α : Type} (reason : Crash) : Cursor α :=
  fun position => .error (.crashed reason) position

/-- Goes on after a step that was refused, from where it has stopped. A crash stays. -/
def recover {α : Type} (step : Cursor α) (next : Diagnostic → Cursor α) : Cursor α :=
  fun position =>
    match step position with
    | .error (.refused diagnostic) stopped => next diagnostic stopped
    | result => result

section Steps

variable (tokens : Array Token)

def tokenAt (index : Nat) : Cursor Token :=
  match tokens[index]? with
  | some token => pure token
  | none => crash (.noToken index)

def lastIndex : Cursor Nat :=
  match tokens.size with
  | 0 => crash (.noToken 0)
  | last + 1 => pure last

def hasNext : Cursor Bool := do
  let last ← lastIndex tokens
  let position ← get
  pure (position < last)

def exhausted {α : Type} : Cursor α := do
  let last ← lastIndex tokens
  let stop ← tokenAt tokens last
  fail .exhaustedInput stop

def next : Cursor Token := do
  if ← hasNext tokens then
    let position ← get
    let token ← tokenAt tokens position
    set (position + 1)
    pure token
  else exhausted tokens

def peek? : Cursor (Option Token) := do
  if ← hasNext tokens then
    let position ← get
    let token ← tokenAt tokens position
    pure (some token)
  else pure none

def expectAny (kinds : List Token.Kind) : Cursor Token := do
  match ← peek? tokens with
  | none => exhausted tokens
  | some token =>
    if kinds.contains token.kind then next tokens
    else
      let position ← get
      let offending ← tokenAt tokens position
      fail .unexpectedToken offending

def expect (kind : Token.Kind) : Cursor Token := expectAny tokens [kind]

def takeMap {α : Type} (make : Token → Option α) : Cursor (Option α) := do
  match (← peek? tokens).bind make with
  | none => pure none
  | some value =>
    let _ ← next tokens
    pure (some value)

def takeIf (condition : Token → Bool) : Cursor (Option Token) :=
  takeMap tokens (Option.guard condition)

def separated {σ : Type} (close : Token.Kind) (round : σ → Cursor σ) : Nat → σ → Cursor σ
  | 0, _ => crash .noRound
  | rounds + 1, state => do
    let state ← round state
    let mark ← expectAny tokens [.comma, close]
    if mark.kind = close then pure state else separated close round rounds state

def delimited {σ : Type} (opening close : Token.Kind) (round : σ → Cursor σ) (state : σ) :
    Cursor σ := do
  let _ ← expect tokens opening
  match ← takeIf tokens (·.kind == close) with
  | some _ => pure state
  | none => separated tokens close round tokens.size state

end Steps

/-! ### Positions and streams -/

variable {tokens : Array Token}

/-- What is ahead in the stream, and then the end marker, stands from the position on. -/
def Follows (tokens : Array Token) (position : Nat) (stream : Stream) : Prop :=
  ∃ passed, tokens = (passed ++ (stream.ahead ++ [stream.stop])).toArray ∧ position = passed.length

namespace Follows

variable {position : Nat} {stream : Stream}

theorem size (follows : Follows tokens position stream) :
    tokens.size = position + stream.remaining + 1 := by
  obtain ⟨passed, rfl, rfl⟩ := follows
  simp only [List.size_toArray, List.length_append, List.length_singleton, Stream.remaining]
  omega

theorem getElem?_add (follows : Follows tokens position stream) (offset : Nat) :
    tokens[position + offset]? = (stream.ahead ++ [stream.stop])[offset]? := by
  obtain ⟨passed, rfl, rfl⟩ := follows
  rw [List.getElem?_toArray, List.getElem?_append_right (Nat.le_add_right ..),
    Nat.add_sub_cancel_left]

theorem tail {token : Token} {rest : List Token} (follows : Follows tokens position stream)
    (ahead : stream.ahead = token :: rest) :
    Follows tokens (position + 1) { stream with ahead := rest } := by
  obtain ⟨passed, rfl, rfl⟩ := follows
  exact ⟨passed ++ [token], by simp [ahead], by simp⟩

end Follows

/-- Corresponding results: values that belong together or one diagnostic, at the same place. -/
inductive Matches (tokens : Array Token) {α β : Type} (Value : α → β → Prop) :
    EStateM.Result Halt Nat α → EStateM.Result Diagnostic Stream β → Prop where
  | ok {value : α} {other : β} {position : Nat} {after : Stream} :
      Value value other → Follows tokens position after →
      Matches tokens Value (.ok value position) (.ok other after)
  | refused {diagnostic : Diagnostic} {position : Nat} {stopped : Stream} :
      Follows tokens position stopped →
      Matches tokens Value (.error (.refused diagnostic) position) (.error diagnostic stopped)

/-- From any place in the tokens, both steps come to corresponding results. -/
def Simulates (tokens : Array Token) {α β : Type} (Value : α → β → Prop) (step : Cursor α)
    (other : Parse β) : Prop :=
  ∀ position stream, Follows tokens position stream →
    Matches tokens Value (step position) (other stream)

variable {α β γ δ : Type}

theorem bind_of_ok {step : Cursor α} {next : α → Cursor β} {position after : Nat} {value : α}
    (success : step position = .ok value after) : (step >>= next) position = next value after := by
  show EStateM.bind step next position = _
  rw [EStateM.bind, success]

theorem bind_of_error {step : Cursor α} {next : α → Cursor β} {position stopped : Nat} {halt : Halt}
    (failure : step position = .error halt stopped) :
    (step >>= next) position = .error halt stopped := by
  show EStateM.bind step next position = _
  rw [EStateM.bind, failure]

/-- What follows a step may use how far this has come. -/
theorem Matches.bind {Value : α → β → Prop} {Next : γ → δ → Prop} {step : Cursor α}
    {other : Parse β} {next : α → Cursor γ} {otherNext : β → Parse δ} {position : Nat}
    {stream : Stream} (first : Matches tokens Value (step position) (other stream))
    (second : ∀ value otherValue positionAfter after, other stream = .ok otherValue after →
      Value value otherValue → Follows tokens positionAfter after →
      Matches tokens Next (next value positionAfter) (otherNext otherValue after)) :
    Matches tokens Next ((step >>= next) position) ((other >>= otherNext) stream) := by
  generalize ended : step position = result at first
  generalize otherEnded : other stream = otherResult at first
  cases first with
  | ok good follows =>
      rw [bind_of_ok ended, Parse.bind_of_ok otherEnded]
      exact second _ _ _ _ otherEnded good follows
  | refused follows =>
      rw [bind_of_error ended, Parse.bind_of_error otherEnded]
      exact .refused follows

theorem Simulates.bind {Value : α → β → Prop} {Next : γ → δ → Prop} {step : Cursor α}
    {other : Parse β} {next : α → Cursor γ} {otherNext : β → Parse δ}
    (first : Simulates tokens Value step other)
    (second : ∀ value otherValue, Value value otherValue →
      Simulates tokens Next (next value) (otherNext otherValue)) :
    Simulates tokens Next (step >>= next) (other >>= otherNext) := by
  intro position stream follows
  apply (first position stream follows).bind
  intro value otherValue positionAfter after _ good followsAfter
  exact second value otherValue good positionAfter after followsAfter

/-- Where the values are the same, what follows has to agree on each of them. -/
theorem Simulates.andThen {Next : γ → δ → Prop} {step : Cursor α} {other : Parse α}
    {next : α → Cursor γ} {otherNext : α → Parse δ} (first : Simulates tokens Eq step other)
    (second : ∀ value, Simulates tokens Next (next value) (otherNext value)) :
    Simulates tokens Next (step >>= next) (other >>= otherNext) := by
  apply first.bind
  intro value otherValue same
  rw [same]
  exact second otherValue

theorem simulates_pure {Value : α → β → Prop} {value : α} {other : β} (good : Value value other) :
    Simulates tokens Value (pure value) (pure other) :=
  fun _ _ follows => .ok good follows

theorem simulates_fail {Value : α → β → Prop} (fault : Fault) (token : Token) :
    Simulates tokens Value (fail fault token) (Parse.fail fault token) :=
  fun _ _ follows => .refused follows

/-! ### Elementary steps -/

section

variable {position : Nat} {stream : Stream}

theorem tokenAt_of_some {index : Nat} {token : Token} (found : tokens[index]? = some token) :
    tokenAt tokens index = pure token := by
  rw [tokenAt, found]

theorem lastIndex_of_follows (follows : Follows tokens position stream) :
    lastIndex tokens = pure (position + stream.remaining) := by
  rw [lastIndex, follows.size]

theorem hasNext_of_follows (follows : Follows tokens position stream) :
    hasNext tokens position = .ok stream.hasNext position := by
  have compared : decide (position < position + stream.remaining) = stream.hasNext := by
    rw [Stream.remaining, Stream.hasNext]
    cases stream.ahead with
    | nil => exact decide_eq_false (Nat.lt_irrefl position)
    | cons token rest => exact decide_eq_true (Nat.lt_add_of_pos_right (Nat.succ_pos _))
  rw [hasNext, lastIndex_of_follows follows, pure_bind, ← compared]
  rfl

theorem exhausted_of_follows (follows : Follows tokens position stream) :
    (exhausted tokens : Cursor α) position =
      .error (.refused ⟨.exhaustedInput, stream.stop⟩) position := by
  have marker : tokens[position + stream.remaining]? = some stream.stop := by
    rw [follows.getElem?_add, Stream.remaining]
    exact List.getElem?_concat_length ..
  rw [exhausted, lastIndex_of_follows follows, pure_bind, tokenAt_of_some marker, pure_bind]
  rfl

private theorem tokenAt_of_follows {token : Token} {rest : List Token}
    (follows : Follows tokens position stream) (ahead : stream.ahead = token :: rest) :
    tokenAt tokens position = pure token := by
  apply tokenAt_of_some
  have found := follows.getElem?_add 0
  rwa [ahead] at found

theorem peek?_of_follows (follows : Follows tokens position stream) :
    peek? tokens position = .ok stream.peek? position := by
  rw [peek?, bind_of_ok (hasNext_of_follows follows), Stream.hasNext, Stream.peek?]
  cases ahead : stream.ahead with
  | nil => rfl
  | cons token rest =>
      have found := tokenAt_of_follows follows ahead
      show (tokenAt tokens position >>= fun token => pure (some token)) position = _
      rw [found, pure_bind]
      rfl

theorem next_of_follows {token : Token} {rest : List Token}
    (follows : Follows tokens position stream) (ahead : stream.ahead = token :: rest) :
    next tokens position = .ok token (position + 1) := by
  have found := tokenAt_of_follows follows ahead
  rw [next, bind_of_ok (hasNext_of_follows follows), Stream.hasNext, ahead]
  show (tokenAt tokens position >>= fun token => set (position + 1) >>= fun _ => pure token)
    position = _
  rw [found, pure_bind]
  rfl

end

theorem simulates_expectAny (kinds : List Token.Kind) :
    Simulates tokens Eq (expectAny tokens kinds) (Parse.expectAny kinds) := by
  intro position stream follows
  rw [expectAny, bind_of_ok (peek?_of_follows follows), Parse.expectAny, Stream.peek?]
  cases ahead : stream.ahead with
  | nil =>
      dsimp only [List.head?_nil]
      rw [exhausted_of_follows follows]
      exact .refused follows
  | cons token rest =>
      dsimp only [List.head?_cons]
      split
      · rw [next_of_follows follows ahead]
        exact .ok rfl (follows.tail ahead)
      · show Matches _ _ ((tokenAt tokens position >>= fun offending =>
          fail .unexpectedToken offending) position) _
        rw [tokenAt_of_follows follows ahead, pure_bind]
        exact .refused follows

theorem simulates_expect (kind : Token.Kind) :
    Simulates tokens Eq (expect tokens kind) (Parse.expect kind) :=
  simulates_expectAny [kind]

theorem simulates_takeMap (make : Token → Option α) :
    Simulates tokens Eq (takeMap tokens make) (Parse.takeMap make) := by
  intro position stream follows
  rw [takeMap, bind_of_ok (peek?_of_follows follows), Parse.takeMap, Stream.peek?]
  cases ahead : stream.ahead with
  | nil => exact .ok rfl follows
  | cons token rest =>
      dsimp only [List.head?_cons, Option.bind_some]
      cases make token with
      | none => exact .ok rfl follows
      | some value =>
          dsimp only
          rw [bind_of_ok (next_of_follows follows ahead)]
          exact .ok rfl (follows.tail ahead)

theorem simulates_takeIf (condition : Token → Bool) :
    Simulates tokens Eq (takeIf tokens condition) (Parse.takeIf condition) :=
  simulates_takeMap _

/-! ### Loops -/

section Loops

variable {σ : Type} {close : Token.Kind} {round : σ → Cursor σ} {item : Parse β} {Good : σ → Prop}
  {add : σ → β → σ}

/-- A loop whose rounds add one item each to its state. There are more rounds than tokens, and each
round reads one at least. -/
theorem simulates_separated (keeps : item.NeverRewinds)
    (adds : ∀ state, Good state → Simulates tokens
      (fun after value => after = add state value ∧ Good after) (round state) item)
    {rounds : Nat} {state : σ} {position : Nat} {stream : Stream} (good : Good state)
    (enough : stream.remaining < rounds) (follows : Follows tokens position stream) :
    Matches tokens (fun after values => after = values.foldl add state)
      (separated tokens close round rounds state position)
      (Parse.separated close item keeps stream) := by
  induction rounds generalizing state position stream with
  | zero => exact absurd enough (Nat.not_lt_zero _)
  | succ rounds ih =>
      rw [separated, Parse.separated_eq_bind]
      apply (adds state good position stream follows).bind
      rintro _ first positionItem afterItem itemRead ⟨rfl, goodItem⟩ followsItem
      apply (simulates_expectAny [.comma, close] positionItem afterItem followsItem).bind
      rintro mark _ positionMark afterMark markRead rfl followsMark
      by_cases closed : mark.kind = close
      · rw [if_pos closed, if_pos closed]
        exact .ok rfl followsMark
      · rw [if_neg closed, if_neg closed]
        have fewer : afterMark.remaining < rounds := by
          have atMark := Parse.advances_expectAny _ _ _ _ markRead
          have atItem := keeps _ _ _ itemRead
          omega
        rw [← bind_pure (separated tokens close round rounds _)]
        apply (ih goodItem fewer followsMark).bind
        rintro _ others positionOthers afterOthers _ rfl followsOthers
        exact .ok rfl followsOthers

theorem simulates_delimited {opening : Token.Kind} (keeps : item.NeverRewinds)
    (adds : ∀ state, Good state → Simulates tokens
      (fun after value => after = add state value ∧ Good after) (round state) item)
    {state : σ} (good : Good state) :
    Simulates tokens (fun after values => after = values.foldl add state)
      (delimited tokens opening close round state) (Parse.delimited opening close item keeps) := by
  apply (simulates_expect opening).andThen
  intro _
  apply (simulates_takeIf _).andThen
  intro token?
  cases token? with
  | some token => exact simulates_pure rfl
  | none =>
      intro position stream follows
      apply simulates_separated keeps adds good _ follows
      rw [follows.size]
      omega

end Loops

end Cursor
end AudioMarkup
