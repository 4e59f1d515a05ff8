import AudioMarkup.Proofs.Reading
import AudioMarkup.Proofs.Token.Words
import Mathlib.Data.List.Forall2

/-!
Reading two streams side by side. `Match` says which token of the one stream stands for which token
of the other; a reader decides by the kinds and the texts of tokens alone, so it does the same on
both sides as long as matching tokens have the same word, whatever else `Match` may say of them.

`Parse.Parallel` is this for a pair of steps: both succeed with values that correspond, or both fail
with the same fault at tokens that match, and what is left to read matches again.
-/

namespace AudioMarkup

/-- Matching tokens differ at most in their place. -/
def Token.Faithful (Match : Token → Token → Prop) : Prop :=
  ∀ first second, Match first second → first.word = second.word

namespace Token.Faithful

variable {Match : Token → Token → Prop} {first second : Token}

theorem kind (faithful : Faithful Match) (same : Match first second) : first.kind = second.kind :=
  congrArg Word.kind (faithful first second same)

theorem text (faithful : Faithful Match) (same : Match first second) : first.text = second.text :=
  congrArg Word.text (faithful first second same)

theorem isKeyword (faithful : Faithful Match) (same : Match first second) (word : String) :
    first.isKeyword word = second.isKeyword word := by
  rw [Token.isKeyword, Token.isKeyword, faithful.kind same, faithful.text same]

end Token.Faithful

structure Stream.Parallel (Match : Token → Token → Prop) (left right : Stream) : Prop where
  ahead : List.Forall₂ Match left.ahead right.ahead
  stop : Match left.stop right.stop

theorem Stream.Parallel.hasNext_eq {Match : Token → Token → Prop} {left right : Stream}
    (parallel : left.Parallel Match right) : left.hasNext = right.hasNext := by
  cases left
  cases right
  cases parallel.ahead with
  | nil => rfl
  | cons _ _ => rfl

namespace Parse

inductive SameOutcome (Match : Token → Token → Prop) {α β : Type} (Value : α → β → Prop) :
    EStateM.Result Diagnostic Stream α → EStateM.Result Diagnostic Stream β → Prop where
  | ok {first : α} {second : β} {left right : Stream} :
      Value first second → left.Parallel Match right →
      SameOutcome Match Value (.ok first left) (.ok second right)
  | error {fault : Fault} {first second : Token} {left right : Stream} :
      Match first second → left.Parallel Match right →
      SameOutcome Match Value (.error ⟨fault, first⟩ left) (.error ⟨fault, second⟩ right)

def Parallel (Match : Token → Token → Prop) {α β : Type} (Value : α → β → Prop)
    (first : Parse α) (second : Parse β) : Prop :=
  ∀ left right, left.Parallel Match right → SameOutcome Match Value (first left) (second right)

variable {Match : Token → Token → Prop} {α β γ δ : Type}

/-! ### Sequences of steps -/

/-- What follows a pair of steps may use how far these have come. -/
theorem SameOutcome.bind {Value : α → β → Prop} {Next : γ → δ → Prop} {first : Parse α}
    {second : Parse β} {afterFirst : α → Parse γ} {afterSecond : β → Parse δ}
    {left right : Stream} (outcome : SameOutcome Match Value (first left) (second right))
    (follows : ∀ one other leftRest rightRest, first left = .ok one leftRest →
      second right = .ok other rightRest → Value one other → leftRest.Parallel Match rightRest →
      SameOutcome Match Next (afterFirst one leftRest) (afterSecond other rightRest)) :
    SameOutcome Match Next ((first >>= afterFirst) left) ((second >>= afterSecond) right) := by
  generalize firstEnded : first left = firstResult at outcome
  generalize secondEnded : second right = secondResult at outcome
  cases outcome with
  | ok values rest =>
      rw [bind_of_ok firstEnded, bind_of_ok secondEnded]
      exact follows _ _ _ _ firstEnded secondEnded values rest
  | error tokens rest =>
      rw [bind_of_error firstEnded, bind_of_error secondEnded]
      exact .error tokens rest

theorem Parallel.bind {Value : α → β → Prop} {Next : γ → δ → Prop} {first : Parse α}
    {second : Parse β} {afterFirst : α → Parse γ} {afterSecond : β → Parse δ}
    (steps : Parallel Match Value first second)
    (follows : ∀ one other, Value one other →
      Parallel Match Next (afterFirst one) (afterSecond other)) :
    Parallel Match Next (first >>= afterFirst) (second >>= afterSecond) := by
  intro left right parallel
  apply (steps left right parallel).bind
  intro one other leftRest rightRest _ _ values rest
  exact follows one other values leftRest rightRest rest

theorem parallel_pure {Value : α → β → Prop} {first : α} {second : β}
    (values : Value first second) : Parallel Match Value (pure first) (pure second) :=
  fun _ _ parallel => .ok values parallel

theorem parallel_fail {Value : α → β → Prop} {first second : Token} (fault : Fault)
    (same : Match first second) : Parallel Match Value (fail fault first) (fail fault second) :=
  fun _ _ parallel => .error same parallel

/-! ### Elementary steps -/

theorem parallel_expectAny (faithful : Token.Faithful Match) (kinds : List Token.Kind) :
    Parallel Match Match (expectAny kinds) (expectAny kinds) := by
  rintro ⟨leftAhead, leftStop⟩ ⟨rightAhead, rightStop⟩ ⟨ahead, stop⟩
  cases ahead with
  | nil => exact .error stop ⟨.nil, stop⟩
  | cons same rest =>
      rw [expectAny, expectAny]
      dsimp only
      rw [faithful.kind same]
      split
      · exact .ok same ⟨rest, stop⟩
      · exact .error same ⟨.cons same rest, stop⟩

theorem parallel_expect (faithful : Token.Faithful Match) (kind : Token.Kind) :
    Parallel Match Match (expect kind) (expect kind) :=
  parallel_expectAny faithful [kind]

theorem parallel_takeMap {Value : α → β → Prop} {makeFirst : Token → Option α}
    {makeSecond : Token → Option β}
    (made : ∀ first second, Match first second →
      Option.Rel Value (makeFirst first) (makeSecond second)) :
    Parallel Match (Option.Rel Value) (takeMap makeFirst) (takeMap makeSecond) := by
  rintro ⟨leftAhead, leftStop⟩ ⟨rightAhead, rightStop⟩ ⟨ahead, stop⟩
  cases ahead with
  | nil => exact .ok .none ⟨.nil, stop⟩
  | @cons first second _ _ same rest =>
      have values := made first second same
      rw [takeMap, takeMap]
      dsimp only
      generalize makeFirst first = leftMade at values
      generalize makeSecond second = rightMade at values
      cases values with
      | none => exact .ok .none ⟨.cons same rest, stop⟩
      | some value => exact .ok (.some value) ⟨rest, stop⟩

theorem parallel_takeIf {condition : Token → Bool}
    (decided : ∀ first second, Match first second → condition first = condition second) :
    Parallel Match (Option.Rel Match) (takeIf condition) (takeIf condition) := by
  apply parallel_takeMap
  intro first second same
  rw [Option.guard, Option.guard, decided first second same]
  cases condition second with
  | false => exact .none
  | true => exact .some same

/-! ### Lists -/

variable {close : Token.Kind} {item : Parse α}

/-- One round of the loop, as a sequence of steps. -/
theorem separated_eq_bind (keeps : item.NeverRewinds) (stream : Stream) :
    separated close item keeps stream =
      (item >>= fun first => expectAny [.comma, close] >>= fun mark =>
        if mark.kind = close then pure [first]
        else separated close item keeps >>= fun others => pure (first :: others)) stream := by
  rw [separated]
  split
  · rename_i itemRead
    rw [bind_of_error itemRead]
  · rename_i first afterItem itemRead
    rw [bind_of_ok itemRead]
    split
    · rename_i markRead
      rw [bind_of_error markRead]
    · rename_i mark rest markRead
      rw [bind_of_ok markRead]
      dsimp only
      by_cases closed : mark.kind = close
      · rw [if_pos closed, if_pos closed]
        rfl
      · rw [if_neg closed, if_neg closed]
        cases othersRead : separated close item keeps rest with
        | error diagnostic stopped => rw [bind_of_error othersRead]
        | ok others final =>
            rw [bind_of_ok othersRead]
            rfl

theorem parallel_separated (faithful : Token.Faithful Match) (keeps : item.NeverRewinds)
    (items : Parallel Match Eq item item) :
    Parallel Match Eq (separated close item keeps) (separated close item keeps) := by
  intro left right parallel
  -- Each round ends behind a comma, so fewer tokens are left on the left side.
  induction amount : left.remaining using Nat.strongRecOn generalizing left right with
  | ind bound shorter =>
    rw [separated_eq_bind, separated_eq_bind]
    apply (items left right parallel).bind
    rintro first _ leftItem rightItem leftRead _ rfl afterItem
    apply (parallel_expectAny faithful [.comma, close] leftItem rightItem afterItem).bind
    intro mark otherMark leftRest rightRest markRead _ same afterMark
    have fewer : leftRest.remaining < bound := by
      have atMark := advances_expectAny _ _ _ _ markRead
      have atItem := keeps _ _ _ leftRead
      omega
    rw [faithful.kind same]
    by_cases closed : otherMark.kind = close
    · rw [if_pos closed]
      exact parallel_pure rfl leftRest rightRest afterMark
    · rw [if_neg closed]
      apply (shorter _ fewer leftRest rightRest afterMark rfl).bind
      rintro others _ leftFinal rightFinal _ _ rfl afterOthers
      exact parallel_pure rfl leftFinal rightFinal afterOthers

theorem parallel_delimited (faithful : Token.Faithful Match) (opening close : Token.Kind)
    (keeps : item.NeverRewinds) (items : Parallel Match Eq item item) :
    Parallel Match Eq (delimited opening close item keeps)
      (delimited opening close item keeps) := by
  apply (parallel_expect faithful opening).bind
  intro _ _ _
  have closes : ∀ first second, Match first second →
      (first.kind == close) = (second.kind == close) := by
    intro first second same
    rw [faithful.kind same]
  apply (parallel_takeIf closes).bind
  intro first? second? taken
  cases taken with
  | none => exact parallel_separated faithful keeps items
  | some _ => exact parallel_pure rfl

end Parse
end AudioMarkup
