import AudioMarkup.Proofs.Parallel

/-!
Reading a stream that is cut short. A step is run on a stream and on the part of it before a cut.
As long as the cut is not reached, both runs do the same. Where it is reached, the shorter run has
nothing left to read: it succeeds there, maybe with less than the other run, or it calls the input
exhausted.

A reader that goes back after a failure can do otherwise: it may refuse a token long before the cut.
`Parse.Account` has what is said of the tokens before the cut in each case, so that a reader can
keep the books on which tokens it has passed.
-/

namespace AudioMarkup.Parse

/-- What is said of the tokens before a cut: of those that a step has read, of all of them once
none is left, and of all of them together with one that is refused. Runs are compared strictly if
this includes the faults that are found before the cut. -/
structure Account where
  Passed : List Token → Prop
  Spent : List Token → Prop
  Misled : List Token → Token → Prop
  strict : Prop
  passed_nil : Passed []
  passed_append {front back : List Token} : Passed front → Passed back → Passed (front ++ back)
  spent_nil : Spent []
  spent_append {front back : List Token} : Passed front → Spent back → Spent (front ++ back)
  misled_append {front back : List Token} {token : Token} :
    Passed front → Misled back token → Misled (front ++ back) token

def Account.silent : Account where
  Passed _ := True
  Spent _ := True
  Misled _ _ := False
  strict := True
  passed_nil := trivial
  passed_append _ _ := trivial
  spent_nil := trivial
  spent_append _ _ := trivial
  misled_append _ impossible := impossible

variable {account : Account} {α β : Type}

inductive AtEnd (Value : α → Prop) : EStateM.Result Diagnostic Stream α → Prop where
  | ended {value : α} {after : Stream} :
      Value value → after.ahead = [] → AtEnd Value (.ok value after)
  | exhausted {token : Token} {stopped : Stream} :
      AtEnd Value (.error ⟨.exhaustedInput, token⟩ stopped)

/-- A step that stays at the end of a stream and finds no other fault there. -/
def Quiet (Value : α → Prop) (step : Parse α) : Prop :=
  ∀ stream, stream.ahead = [] → AtEnd Value (step stream)

inductive CutShort (account : Account) (Value : α → Prop) (rest : List Token) (short : Stream) :
    EStateM.Result Diagnostic Stream α → EStateM.Result Diagnostic Stream α → Prop where
  | same {value : α} {tokens : List Token} {after left : Stream} :
      short = left.unread tokens → account.Passed tokens → after.ahead = left.ahead ++ rest →
      CutShort account Value rest short (.ok value after) (.ok value left)
  | fault {diagnostic : Diagnostic} {stopped left : Stream} :
      CutShort account Value rest short (.error diagnostic stopped) (.error diagnostic left)
  | unknown {diagnostic : Diagnostic} {stopped : Stream}
      {result : EStateM.Result Diagnostic Stream α} :
      ¬ account.strict → CutShort account Value rest short (.error diagnostic stopped) result
  | spent {full result : EStateM.Result Diagnostic Stream α} :
      account.Spent short.ahead → AtEnd Value result →
      CutShort account Value rest short full result
  | misled {full : EStateM.Result Diagnostic Stream α} {token : Token} {stopped : Stream} :
      account.Misled short.ahead token →
      CutShort account Value rest short full (.error ⟨.unexpectedToken, token⟩ stopped)

/-- A step that does the same on a stream and on any part of it before a cut, up to the cut. -/
def Curtails (account : Account) (Value : α → Prop) (step : Parse α) : Prop :=
  ∀ (rest : List Token) (full short : Stream), full.ahead = short.ahead ++ rest →
    CutShort account Value rest short (step full) (step short)

/-! ### Sequences of steps -/

theorem AtEnd.bind {Value : α → Prop} {Next : β → Prop} {step : Parse α} {next : α → Parse β}
    {stream : Stream} (first : AtEnd Value (step stream))
    (second : ∀ value, Value value → Quiet Next (next value)) :
    AtEnd Next ((step >>= next) stream) := by
  generalize ended : step stream = result at first
  cases first with
  | @ended value after good empty =>
      rw [bind_of_ok ended]
      exact second value good after empty
  | exhausted =>
      rw [bind_of_error ended]
      exact .exhausted

theorem Quiet.bind {Value : α → Prop} {Next : β → Prop} {step : Parse α} {next : α → Parse β}
    (first : Quiet Value step) (second : ∀ value, Value value → Quiet Next (next value)) :
    Quiet Next (step >>= next) :=
  fun stream finished => (first stream finished).bind second

theorem CutShort.unread {Value : α → Prop} {rest tokens : List Token} {left : Stream}
    {full result : EStateM.Result Diagnostic Stream α}
    (outcome : CutShort account Value rest left full result) (passed : account.Passed tokens) :
    CutShort account Value rest (left.unread tokens) full result := by
  cases outcome with
  | same split more cut =>
      rw [split, Stream.unread_unread]
      exact .same rfl (account.passed_append passed more) cut
  | fault => exact .fault
  | unknown lenient => exact .unknown lenient
  | spent empty atEnd => exact .spent (account.spent_append passed empty) atEnd
  | misled found => exact .misled (account.misled_append passed found)

/-- What follows a step may use how far this has come on both streams. -/
theorem CutShort.bind {Value : α → Prop} {Next : β → Prop} {step : Parse α} {next : α → Parse β}
    {rest : List Token} {full short : Stream}
    (first : CutShort account Value rest short (step full) (step short))
    (follows : ∀ value after left, step full = .ok value after → step short = .ok value left →
      after.ahead = left.ahead ++ rest →
      CutShort account Next rest left (next value after) (next value left))
    (quiet : ∀ value, Value value → Quiet Next (next value)) :
    CutShort account Next rest short ((step >>= next) full) ((step >>= next) short) := by
  generalize fullEnded : step full = fullResult at first
  generalize shortEnded : step short = shortResult at first
  cases first with
  | @same value tokens after left split passed cut =>
      rw [bind_of_ok fullEnded, bind_of_ok shortEnded, split]
      exact (follows value after left fullEnded shortEnded cut).unread passed
  | fault =>
      rw [bind_of_error fullEnded, bind_of_error shortEnded]
      exact .fault
  | unknown lenient =>
      rw [bind_of_error fullEnded]
      exact .unknown lenient
  | spent empty atEnd =>
      rw [← shortEnded] at atEnd
      exact .spent empty (atEnd.bind quiet)
  | misled found =>
      rw [bind_of_error shortEnded]
      exact .misled found

theorem Curtails.bind {Value : α → Prop} {Next : β → Prop} {step : Parse α} {next : α → Parse β}
    (first : Curtails account Value step) (second : ∀ value, Curtails account Next (next value))
    (quiet : ∀ value, Value value → Quiet Next (next value)) :
    Curtails account Next (step >>= next) := by
  intro rest full short cut
  apply (first rest full short cut).bind
  · intro value after left _ _ leftCut
    exact second value rest after left leftCut
  · exact quiet

theorem curtails_pure {Value : α → Prop} (value : α) :
    Curtails account Value (pure value) := by
  intro rest full short cut
  exact .same (Stream.unread_nil short).symm account.passed_nil cut

theorem quiet_pure {Value : α → Prop} {value : α} (good : Value value) :
    Quiet Value (pure value) := by
  intro stream finished
  exact .ended good finished

theorem curtails_fail {Value : α → Prop} (fault : Fault) (token : Token) :
    Curtails account Value (fail fault token) := by
  intro rest full short _
  exact .fault

/-! ### Elementary steps -/

/-- A token that has to be there is never read at the end. -/
theorem quiet_expectAny (kinds : List Token.Kind) : Quiet (fun _ => False) (expectAny kinds) := by
  intro stream finished
  rw [expectAny, finished]
  exact .exhausted

theorem curtails_expectAny {kinds : List Token.Kind}
    (passes : ∀ token : Token, token.kind ∈ kinds → account.Passed [token]) :
    Curtails account (fun _ => False) (expectAny kinds) := by
  intro rest full short cut
  cases ahead : short.ahead with
  | nil =>
      refine .spent ?_ (quiet_expectAny kinds short ahead)
      rw [ahead]
      exact account.spent_nil
  | cons token tokens =>
      rw [ahead, List.cons_append] at cut
      by_cases listed : token.kind ∈ kinds
      · have fullRead := expectAny_unread { full with ahead := tokens ++ rest } listed
        have shortRead := expectAny_unread { short with ahead := tokens } listed
        rw [← Stream.eq_unread_of_ahead cut] at fullRead
        rw [← Stream.eq_unread_of_ahead ahead] at shortRead
        rw [fullRead, shortRead]
        exact .same (Stream.eq_unread_of_ahead ahead) (passes token listed) rfl
      · have fullFails := expectAny_unread_error { full with ahead := tokens ++ rest } listed
        have shortFails := expectAny_unread_error { short with ahead := tokens } listed
        rw [← Stream.eq_unread_of_ahead cut] at fullFails
        rw [← Stream.eq_unread_of_ahead ahead] at shortFails
        rw [fullFails, shortFails]
        exact .fault

theorem quiet_takeMap (make : Token → Option α) : Quiet (· = none) (takeMap make) := by
  intro stream finished
  rw [takeMap, finished]
  exact .ended rfl finished

theorem curtails_takeMap {make : Token → Option α}
    (passes : ∀ token value, make token = some value → account.Passed [token]) :
    Curtails account (· = none) (takeMap make) := by
  intro rest full short cut
  cases ahead : short.ahead with
  | nil =>
      refine .spent ?_ (quiet_takeMap make short ahead)
      rw [ahead]
      exact account.spent_nil
  | cons token tokens =>
      rw [ahead, List.cons_append] at cut
      rw [takeMap, takeMap, cut, ahead]
      dsimp only
      cases made : make token with
      | none =>
          refine .same (Stream.unread_nil short).symm account.passed_nil ?_
          rw [cut, ahead, List.cons_append]
      | some value =>
          exact .same (Stream.eq_unread_of_ahead ahead) (passes token value made) rfl

theorem curtails_takeIf {condition : Token → Bool}
    (passes : ∀ token, condition token = true → account.Passed [token]) :
    Curtails account (· = none) (takeIf condition) := by
  apply curtails_takeMap
  intro token value guarded
  exact passes token (by simpa using (Option.guard_eq_some_iff.mp guarded).2)

/-- Whatever follows a token that has to be there. -/
theorem quiet_expectAny_bind {Next : α → Prop} (kinds : List Token.Kind) (next : Token → Parse α) :
    Quiet Next (expectAny kinds >>= next) :=
  (quiet_expectAny kinds).bind fun _ impossible => impossible.elim

theorem curtails_expectAny_bind {Next : α → Prop} {kinds : List Token.Kind}
    {next : Token → Parse α}
    (passes : ∀ token : Token, token.kind ∈ kinds → account.Passed [token])
    (follows : ∀ token : Token, token.kind ∈ kinds → Curtails account Next (next token)) :
    Curtails account Next (expectAny kinds >>= next) := by
  intro rest full short cut
  apply (curtails_expectAny passes rest full short cut).bind
  · intro token after left read _ leftCut
    exact follows token (expectAny_eq_ok_iff.mp read).1 rest after left leftCut
  · intro token impossible
    exact impossible.elim

/-! ### Lists -/

section Lists

variable {close : Token.Kind} {item : Parse α} {Value : α → Prop}

theorem quiet_separated (keeps : item.NeverRewinds) (quiet : Quiet Value item) :
    Quiet (fun _ => False) (separated close item keeps) := by
  intro stream finished
  rw [separated_eq_bind]
  apply quiet.bind _ stream finished
  intro first _
  exact quiet_expectAny_bind _ _

theorem curtails_separated (keeps : item.NeverRewinds) (items : Curtails account Value item)
    (passes : ∀ mark : Token, mark.kind ∈ [.comma, close] → account.Passed [mark]) :
    Curtails account (fun _ => False) (separated close item keeps) := by
  intro rest full short cut
  -- Each round ends behind a comma, so fewer tokens are left of the whole stream.
  induction amount : full.remaining using Nat.strongRecOn generalizing full short with
  | ind bound shorter =>
    rw [separated_eq_bind, separated_eq_bind]
    apply (items rest full short cut).bind
    · intro first afterItem leftItem itemRead _ itemCut
      apply (curtails_expectAny passes rest afterItem leftItem itemCut).bind
      · intro mark afterMark leftMark markRead _ markCut
        have fewer : afterMark.remaining < bound := by
          have atMark := advances_expectAny _ _ _ _ markRead
          have atItem := keeps _ _ _ itemRead
          omega
        by_cases closed : mark.kind = close
        · rw [if_pos closed]
          exact curtails_pure [first] rest afterMark leftMark markCut
        · rw [if_neg closed]
          apply (shorter _ fewer afterMark leftMark markCut rfl).bind
          · intro others afterOthers leftOthers _ _ othersCut
            exact curtails_pure (first :: others) rest afterOthers leftOthers othersCut
          · intro others impossible
            exact impossible.elim
      · intro mark impossible
        exact impossible.elim
    · intro first _
      exact quiet_expectAny_bind _ _

theorem quiet_delimited (opening : Token.Kind) (keeps : item.NeverRewinds) :
    Quiet (fun _ => False) (delimited opening close item keeps) :=
  quiet_expectAny_bind _ _

theorem curtails_delimited {opening : Token.Kind} (keeps : item.NeverRewinds)
    (items : Curtails account Value item) (quiet : Quiet Value item)
    (passes : ∀ mark : Token, mark.kind ∈ [opening, .comma, close] → account.Passed [mark]) :
    Curtails account (fun _ => False) (delimited opening close item keeps) := by
  have opens : ∀ mark : Token, mark.kind ∈ [opening] → account.Passed [mark] := by
    intro mark listed
    rw [List.mem_singleton] at listed
    exact passes mark (by rw [listed]; exact List.mem_cons_self ..)
  have separates : ∀ mark : Token, mark.kind ∈ [.comma, close] → account.Passed [mark] := by
    intro mark listed
    exact passes mark (List.mem_cons_of_mem _ listed)
  have closes : ∀ mark : Token, (mark.kind == close) = true → account.Passed [mark] := by
    intro mark closed
    rw [beq_iff_eq] at closed
    exact separates mark (by rw [closed]; simp)
  apply curtails_expectAny_bind opens
  intro first _
  apply (curtails_takeIf closes).bind
  · intro token?
    cases token? with
    | none => exact curtails_separated keeps items separates
    | some token => exact curtails_pure []
  · intro token? nothing
    rw [nothing]
    exact quiet_separated keeps quiet

end Lists

end AudioMarkup.Parse
