import AudioMarkup.Proofs.Parallel

/-!
How a step of reading ends. A step that succeeds has read some tokens from the front of the stream.
One that fails has done so as well, and either nothing is left and the input is called exhausted, or
the fault is another one and a token is blamed for it that was in the stream.

A reader may blame a token that it has read long before. So `Known` stands for all the tokens that
can be blamed, and a value that holds a token is asked to hold a known one.
-/

namespace AudioMarkup

def Stream.Within (Known : Token → Prop) (stream : Stream) : Prop :=
  ∀ token ∈ stream.ahead, Known token

theorem Stream.remaining_le_unread (stream : Stream) (tokens : List Token) :
    stream.remaining ≤ (stream.unread tokens).remaining := by
  rw [remaining, remaining, unread_ahead, List.length_append]
  exact Nat.le_add_left ..

namespace Parse

variable {Known : Token → Prop} {α β : Type}

inductive Settled (Known : Token → Prop) {α : Type} (Value : α → Prop) (before : Stream) :
    EStateM.Result Diagnostic Stream α → Prop where
  | ok {value : α} {tokens : List Token} {after : Stream} :
      before = after.unread tokens → Value value → Settled Known Value before (.ok value after)
  | exhausted {tokens : List Token} {stopped : Stream} :
      before = stopped.unread tokens → stopped.ahead = [] →
      Settled Known Value before (.error ⟨.exhaustedInput, before.stop⟩ stopped)
  | blamed {fault : Fault} {token : Token} {tokens : List Token} {stopped : Stream} :
      before = stopped.unread tokens → fault ≠ .exhaustedInput → Known token →
      Settled Known Value before (.error ⟨fault, token⟩ stopped)

def Settles (Known : Token → Prop) {α : Type} (Value : α → Prop) (step : Parse α) : Prop :=
  ∀ before : Stream, before.Within Known → Settled Known Value before (step before)

/-- Whether a step succeeds or fails, no more tokens are left than before. -/
theorem Settled.remaining_le_of_ok {Value : α → Prop} {before after : Stream} {value : α}
    (settled : Settled Known Value before (.ok value after)) :
    after.remaining ≤ before.remaining := by
  cases settled with
  | ok same _ =>
      rw [same]
      exact after.remaining_le_unread _

theorem Settled.remaining_le_of_error {Value : α → Prop} {before stopped : Stream}
    {diagnostic : Diagnostic} (settled : Settled Known Value before (.error diagnostic stopped)) :
    stopped.remaining ≤ before.remaining := by
  cases settled with
  | exhausted same _ =>
      rw [same]
      exact stopped.remaining_le_unread _
  | blamed same _ _ =>
      rw [same]
      exact stopped.remaining_le_unread _

/-! ### Sequences of steps -/

theorem Settled.unread {Value : α → Prop} {between : Stream}
    {result : EStateM.Result Diagnostic Stream α} (settled : Settled Known Value between result)
    (tokens : List Token) : Settled Known Value (between.unread tokens) result := by
  cases settled with
  | ok same value =>
      rw [same, Stream.unread_unread]
      exact .ok rfl value
  | @exhausted more stopped same ended =>
      have sameStop : between.stop = (between.unread tokens).stop := rfl
      rw [sameStop]
      refine .exhausted (?_ : _ = stopped.unread (tokens ++ more)) ended
      rw [same, Stream.unread_unread]
  | blamed same other known =>
      rw [same, Stream.unread_unread]
      exact .blamed rfl other known

/-- What follows a step may use how far this has come. -/
theorem Settled.bind {Value : α → Prop} {Next : β → Prop} {step : Parse α} {next : α → Parse β}
    {before : Stream} (settled : Settled Known Value before (step before))
    (within : before.Within Known)
    (follows : ∀ value after, step before = .ok value after → Value value → after.Within Known →
      Settled Known Next after (next value after)) :
    Settled Known Next before ((step >>= next) before) := by
  generalize ended : step before = result at settled
  cases settled with
  | @ok value tokens after same good =>
      have rest : after.Within Known := by
        intro token member
        apply within
        rw [same]
        exact List.mem_append_right _ member
      rw [bind_of_ok ended, same]
      exact (follows value after ended good rest).unread tokens
  | exhausted same finished =>
      rw [bind_of_error ended]
      exact .exhausted same finished
  | blamed same other known =>
      rw [bind_of_error ended]
      exact .blamed same other known

theorem Settles.bind {Value : α → Prop} {Next : β → Prop} {step : Parse α} {next : α → Parse β}
    (settles : Settles Known Value step)
    (follows : ∀ value, Value value → Settles Known Next (next value)) :
    Settles Known Next (step >>= next) := by
  intro before within
  apply (settles before within).bind within
  intro value after _ good rest
  exact follows value good after rest

theorem settles_pure {Value : α → Prop} {value : α} (good : Value value) :
    Settles Known Value (pure value) :=
  fun before _ => .ok (Stream.unread_nil before).symm good

theorem settles_fail {Value : α → Prop} {fault : Fault} {token : Token} (known : Known token)
    (other : fault ≠ .exhaustedInput) : Settles Known Value (fail fault token) :=
  fun before _ => .blamed (Stream.unread_nil before).symm other known

/-! ### Elementary steps -/

theorem settles_expectAny (kinds : List Token.Kind) :
    Settles Known Known (expectAny kinds) := by
  intro before within
  obtain ⟨ahead, stop⟩ := before
  cases ahead with
  | nil => exact .exhausted (Stream.unread_nil _).symm rfl
  | cons token rest =>
      have known : Known token := within token (List.mem_cons_self ..)
      rw [expectAny]
      dsimp only
      split
      · exact .ok (Stream.eq_unread_of_ahead rfl) known
      · exact .blamed (Stream.unread_nil _).symm (by simp) known

theorem settles_expect (kind : Token.Kind) : Settles Known Known (expect kind) :=
  settles_expectAny [kind]

theorem settles_takeMap {Value : α → Prop} {make : Token → Option α}
    (made : ∀ token value, Known token → make token = some value → Value value) :
    Settles Known (fun value? => ∀ value ∈ value?, Value value) (takeMap make) := by
  intro before within
  obtain ⟨ahead, stop⟩ := before
  cases ahead with
  | nil => exact .ok (Stream.unread_nil _).symm (by simp)
  | cons token rest =>
      have known : Known token := within token (List.mem_cons_self ..)
      rw [takeMap]
      dsimp only
      split
      · rename_i value found
        refine .ok (Stream.eq_unread_of_ahead rfl) fun other same => ?_
        cases same
        exact made token value known found
      · exact .ok (Stream.unread_nil _).symm (by simp)

theorem settles_takeIf (condition : Token → Bool) :
    Settles Known (fun token? => ∀ token ∈ token?, Known token) (takeIf condition) := by
  apply settles_takeMap
  intro token value known found
  rw [Option.guard_eq_some_iff] at found
  exact found.1 ▸ known

/-! ### Lists -/

variable {close : Token.Kind} {item : Parse α}

theorem settles_separated (keeps : item.NeverRewinds)
    (items : Settles Known (fun _ => True) item) :
    Settles Known (fun _ => True) (separated close item keeps) := by
  intro before within
  -- Each round ends behind a comma, so fewer tokens are left.
  induction amount : before.remaining using Nat.strongRecOn generalizing before with
  | ind bound shorter =>
    rw [separated_eq_bind]
    apply (items before within).bind within
    intro first afterItem itemRead _ itemWithin
    apply (settles_expectAny [.comma, close] afterItem itemWithin).bind itemWithin
    intro mark rest markRead _ restWithin
    have fewer : rest.remaining < bound := by
      have atMark := advances_expectAny _ _ _ _ markRead
      have atItem := keeps _ _ _ itemRead
      omega
    by_cases closed : mark.kind = close
    · rw [if_pos closed]
      exact settles_pure trivial rest restWithin
    · rw [if_neg closed]
      apply (shorter _ fewer rest restWithin rfl).bind restWithin
      intro others final _ _ finalWithin
      exact settles_pure trivial final finalWithin

theorem settles_delimited (opening close : Token.Kind) (keeps : item.NeverRewinds)
    (items : Settles Known (fun _ => True) item) :
    Settles Known (fun _ => True) (delimited opening close item keeps) := by
  apply (settles_expect opening).bind
  intro _ _
  apply (settles_takeIf _).bind
  intro token? _
  cases token? with
  | none => exact settles_separated keeps items
  | some _ => exact settles_pure trivial

end Parse
end AudioMarkup
