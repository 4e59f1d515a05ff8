import AudioMarkup.Diagnostic

/-!
The stream of tokens that a program is read from, and the elementary steps of reading. A step that
fails leaves the stream where the fault was found. Going back is keeping an earlier stream.

`Parse.Advances` and `Parse.NeverRewinds` say how a step moves along the stream; the loops of the
readers end because of them.
-/

namespace AudioMarkup

/-- The tokens still to be read, and the token that stands for the end of all input. The end token
is not among the tokens to be read. -/
structure Stream where
  ahead : List Token
  stop : Token
  deriving DecidableEq, Repr, Inhabited

namespace Stream

/-- A stream over all of the tokens. The end of input is placed where the last token ends. -/
def ofTokens (tokens : List Token) : Stream where
  ahead := tokens
  stop :=
    match tokens.getLast? with
    | some last => ⟨last.line, last.column, "", .endOfInput⟩
    | none => ⟨1, 0, "", .endOfInput⟩

def hasNext (stream : Stream) : Bool := !stream.ahead.isEmpty

def peek? (stream : Stream) : Option Token := stream.ahead.head?

def peekAny? (stream : Stream) (kinds : List Token.Kind) : Option Token :=
  stream.peek?.filter (kinds.contains ·.kind)

def remaining (stream : Stream) : Nat := stream.ahead.length

end Stream

/-- A step of reading: from a stream to a value or a diagnostic, and the stream after it. -/
abbrev Parse (α : Type) := EStateM Diagnostic Stream α

namespace Parse

def fail {α : Type} (fault : Fault) (token : Token) : Parse α :=
  fun stream => .error ⟨fault, token⟩ stream

def next : Parse Token := fun stream =>
  match stream.ahead with
  | [] => .error ⟨.exhaustedInput, stream.stop⟩ stream
  | token :: rest => .ok token { stream with ahead := rest }

/-- The next token, which has to be of one of the kinds. A token of another kind stays. -/
def expectAny (kinds : List Token.Kind) : Parse Token := fun stream =>
  match stream.ahead with
  | [] => .error ⟨.exhaustedInput, stream.stop⟩ stream
  | token :: rest =>
    if kinds.contains token.kind then .ok token { stream with ahead := rest }
    else .error ⟨.unexpectedToken, token⟩ stream

def expect (kind : Token.Kind) : Parse Token := expectAny [kind]

def takeMap {α : Type} (make : Token → Option α) : Parse (Option α) := fun stream =>
  match stream.ahead with
  | [] => .ok none stream
  | token :: rest =>
    match make token with
    | some value => .ok (some value) { stream with ahead := rest }
    | none => .ok none stream

def takeIf (condition : Token → Bool) : Parse (Option Token) := takeMap (Option.guard condition)

/-! ### Progress -/

/-- Whenever the step succeeds, fewer tokens are left. -/
def Advances {α : Type} (step : Parse α) : Prop :=
  ∀ before value after, step before = .ok value after → after.remaining < before.remaining

def NeverRewinds {α : Type} (step : Parse α) : Prop :=
  ∀ before value after, step before = .ok value after → after.remaining ≤ before.remaining

theorem Advances.neverRewinds {α : Type} {step : Parse α} (advances : step.Advances) :
    step.NeverRewinds :=
  fun before value after success => Nat.le_of_lt (advances before value after success)

theorem bind_eq_ok {α β : Type} {step : Parse α} {next : α → Parse β} {before after : Stream}
    {value : β} :
    (step >>= next) before = .ok value after ↔
      ∃ middle between, step before = .ok middle between ∧ next middle between = .ok value after := by
  show EStateM.bind step next before = _ ↔ _
  unfold EStateM.bind
  cases step before with
  | ok middle between =>
    constructor
    · intro finished
      exact ⟨middle, between, rfl, finished⟩
    · rintro ⟨_, _, stepped, finished⟩
      cases stepped
      exact finished
  | error fault between => simp

theorem advances_expectAny (kinds : List Token.Kind) : (expectAny kinds).Advances := by
  intro before value after success
  unfold expectAny at success
  split at success
  · cases success
  · rename_i token rest ahead
    split at success
    · cases success
      simp [Stream.remaining, ahead]
    · cases success

theorem advances_expect (kind : Token.Kind) : (expect kind).Advances := advances_expectAny [kind]

theorem neverRewinds_takeMap {α : Type} (make : Token → Option α) :
    (takeMap make).NeverRewinds := by
  intro before value after success
  unfold takeMap at success
  split at success
  · cases success
    exact Nat.le_refl _
  · rename_i token rest ahead
    split at success
    · cases success
      simp [Stream.remaining, ahead]
    · cases success
      exact Nat.le_refl _

theorem neverRewinds_takeIf (condition : Token → Bool) : (takeIf condition).NeverRewinds :=
  neverRewinds_takeMap (Option.guard condition)

theorem neverRewinds_pure {α : Type} (value : α) : NeverRewinds (pure value) := by
  intro before result after success
  cases success
  exact Nat.le_refl _

theorem advances_fail {α : Type} (fault : Fault) (token : Token) :
    Advances (fail fault token : Parse α) := by
  intro before value after success
  cases success

theorem Advances.bind {α β : Type} {step : Parse α} {next : α → Parse β}
    (first : step.Advances) (second : ∀ value, (next value).NeverRewinds) :
    (step >>= next).Advances := by
  intro before value after success
  obtain ⟨middle, between, stepped, finished⟩ := bind_eq_ok.mp success
  exact Nat.lt_of_le_of_lt (second _ _ _ _ finished) (first _ _ _ stepped)

theorem NeverRewinds.bind {α β : Type} {step : Parse α} {next : α → Parse β}
    (first : step.NeverRewinds) (second : ∀ value, (next value).NeverRewinds) :
    (step >>= next).NeverRewinds := by
  intro before value after success
  obtain ⟨middle, between, stepped, finished⟩ := bind_eq_ok.mp success
  exact Nat.le_trans (second _ _ _ _ finished) (first _ _ _ stepped)

/-! ### Lists -/

/-- One or more items with commas between them, up to and including the closing token. -/
def separated {α : Type} (close : Token.Kind) (item : Parse α) (keeps : item.NeverRewinds)
    (stream : Stream) : EStateM.Result Diagnostic Stream (List α) :=
  match itemRead : item stream with
  | .error diagnostic stopped => .error diagnostic stopped
  | .ok first afterItem =>
    match markRead : expectAny [.comma, close] afterItem with
    | .error diagnostic stopped => .error diagnostic stopped
    | .ok mark rest =>
      have : rest.remaining < stream.remaining :=
        Nat.lt_of_lt_of_le (advances_expectAny _ _ _ _ markRead) (keeps _ _ _ itemRead)
      if mark.kind = close then .ok [first] rest
      else
        match separated close item keeps rest with
        | .error diagnostic stopped => .error diagnostic stopped
        | .ok others final => .ok (first :: others) final
termination_by stream.remaining

def delimited {α : Type} (opening close : Token.Kind) (item : Parse α) (keeps : item.NeverRewinds) :
    Parse (List α) := do
  let _ ← expect opening
  match ← takeIf (·.kind == close) with
  | some _ => pure []
  | none => separated close item keeps

theorem advances_separated {α : Type} (close : Token.Kind) (item : Parse α)
    (keeps : item.NeverRewinds) : Advances (separated close item keeps) := by
  intro before value after success
  fun_induction separated close item keeps before generalizing value after with
  | case1 => cases success
  | case2 => cases success
  | case3 =>
    cases success
    assumption
  | case4 => cases success
  | case5 _ _ _ _ _ _ _ shorter _ others final othersRead ih =>
    cases success
    exact Nat.lt_trans (ih _ _ othersRead) shorter

theorem advances_delimited {α : Type} (opening close : Token.Kind) (item : Parse α)
    (keeps : item.NeverRewinds) : (delimited opening close item keeps).Advances := by
  refine (advances_expect opening).bind fun _ => ?_
  refine (neverRewinds_takeIf _).bind fun token? => ?_
  cases token? with
  | none => exact (advances_separated close item keeps).neverRewinds
  | some _ => exact neverRewinds_pure _

end Parse
end AudioMarkup
