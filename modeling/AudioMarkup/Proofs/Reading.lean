import AudioMarkup.Stream

/-!
What the elementary steps of reading do to a stream. `after.unread tokens` is the stream from which
reading `tokens` leads to `after`; every statement about a step that succeeds has this form, so that
the tokens a step has consumed are always at hand.

A list is described by the tokens of its items: `Parse.ListSpelling` has the items with commas
between them and the closing token, `Parse.DelimitedSpelling` has the opening token as well.
-/

namespace AudioMarkup

instance Parse.decidableEqResult {ε σ α : Type} [DecidableEq ε] [DecidableEq σ] [DecidableEq α] :
    DecidableEq (EStateM.Result ε σ α)
  | .ok first after, .ok second other =>
    decidable_of_iff (first = second ∧ after = other) (by rw [EStateM.Result.ok.injEq])
  | .error first after, .error second other =>
    decidable_of_iff (first = second ∧ after = other) (by rw [EStateM.Result.error.injEq])
  | .ok _ _, .error _ _ => isFalse nofun
  | .error _ _, .ok _ _ => isFalse nofun

def Stream.unread (stream : Stream) (tokens : List Token) : Stream :=
  { stream with ahead := tokens ++ stream.ahead }

namespace Stream

@[simp] theorem unread_ahead (stream : Stream) (tokens : List Token) :
    (stream.unread tokens).ahead = tokens ++ stream.ahead := rfl

@[simp] theorem unread_stop (stream : Stream) (tokens : List Token) :
    (stream.unread tokens).stop = stream.stop := rfl

@[simp] theorem unread_nil (stream : Stream) : stream.unread [] = stream := rfl

@[simp] theorem unread_unread (stream : Stream) (earlier later : List Token) :
    (stream.unread later).unread earlier = stream.unread (earlier ++ later) := by
  simp only [unread, List.append_assoc]

@[simp] theorem peek?_unread_cons (stream : Stream) (token : Token) (tokens : List Token) :
    (stream.unread (token :: tokens)).peek? = some token := rfl

def skip (stream : Stream) (count : Nat) : Stream :=
  { stream with ahead := stream.ahead.drop count }

theorem skip_unread (stream : Stream) (tokens : List Token) :
    (stream.unread tokens).skip tokens.length = stream := by
  simp only [skip, unread, List.drop_left]

theorem unread_skip (stream : Stream) (count : Nat) :
    (stream.skip count).unread (stream.ahead.take count) = stream := by
  simp only [skip, unread, List.take_append_drop]

theorem peek?_skip (stream : Stream) (count : Nat) :
    (stream.skip count).peek? = stream.ahead[count]? :=
  List.head?_drop

theorem skip_inj {stream : Stream} {count other : Nat} (within : count ≤ stream.remaining)
    (otherWithin : other ≤ stream.remaining) (same : stream.skip count = stream.skip other) :
    count = other := by
  have left : stream.remaining - count = stream.remaining - other := by
    have lengths := congrArg remaining same
    simpa only [remaining, skip, List.length_drop] using lengths
  omega

theorem eq_unread_of_ahead {stream : Stream} {token : Token} {rest : List Token}
    (ahead : stream.ahead = token :: rest) :
    stream = Stream.unread { stream with ahead := rest } [token] := by
  cases stream
  cases ahead
  rfl

end Stream

namespace Parse

/-! ### Elementary steps -/

theorem bind_of_ok {α β : Type} {step : Parse α} {next : α → Parse β} {before between : Stream}
    {middle : α} (stepped : step before = .ok middle between) :
    (step >>= next) before = next middle between := by
  show EStateM.bind step next before = _
  simp only [EStateM.bind, stepped]

theorem bind_of_error {α β : Type} {step : Parse α} {next : α → Parse β}
    {before stopped : Stream} {diagnostic : Diagnostic}
    (failed : step before = .error diagnostic stopped) :
    (step >>= next) before = .error diagnostic stopped := by
  show EStateM.bind step next before = _
  simp only [EStateM.bind, failed]

theorem pure_eq_ok_iff {α : Type} {value result : α} {before after : Stream} :
    (pure value : Parse α) before = .ok result after ↔ value = result ∧ before = after := by
  show EStateM.Result.ok value before = .ok result after ↔ _
  rw [EStateM.Result.ok.injEq]

theorem fail_ne_ok {α : Type} {fault : Fault} {token : Token} {before after : Stream} {value : α} :
    (fail fault token : Parse α) before ≠ .ok value after := by
  intro impossible
  cases impossible

theorem expectAny_unread {kinds : List Token.Kind} {token : Token} (after : Stream)
    (member : token.kind ∈ kinds) :
    expectAny kinds (after.unread [token]) = .ok token after := by
  have listed : kinds.contains token.kind = true := List.contains_iff_mem.mpr member
  simp only [expectAny, Stream.unread_ahead, List.cons_append, List.nil_append, listed, if_true]
  rfl

theorem expectAny_unread_error {kinds : List Token.Kind} {token : Token} (after : Stream)
    (other : token.kind ∉ kinds) :
    expectAny kinds (after.unread [token]) =
      .error ⟨.unexpectedToken, token⟩ (after.unread [token]) := by
  have unlisted : kinds.contains token.kind = false := by
    rw [← Bool.not_eq_true, List.contains_iff_mem]
    exact other
  simp only [expectAny, Stream.unread_ahead, List.cons_append, List.nil_append, unlisted,
    Bool.false_eq_true, if_false]

theorem expectAny_eq_ok_iff {kinds : List Token.Kind} {before after : Stream} {token : Token} :
    expectAny kinds before = .ok token after ↔
      token.kind ∈ kinds ∧ before = after.unread [token] := by
  constructor
  · intro success
    unfold expectAny at success
    split at success
    · cases success
    · rename_i head rest ahead
      split at success
      · rename_i listed
        cases success
        exact ⟨List.contains_iff_mem.mp listed, Stream.eq_unread_of_ahead ahead⟩
      · cases success
  · rintro ⟨member, rfl⟩
    exact expectAny_unread after member

theorem expect_unread {kind : Token.Kind} {token : Token} (after : Stream)
    (same : token.kind = kind) : expect kind (after.unread [token]) = .ok token after :=
  expectAny_unread after (List.mem_singleton.mpr same)

theorem expect_eq_ok_iff {kind : Token.Kind} {before after : Stream} {token : Token} :
    expect kind before = .ok token after ↔ token.kind = kind ∧ before = after.unread [token] := by
  rw [expect, expectAny_eq_ok_iff, List.mem_singleton]

theorem takeMap_eq_none_iff {α : Type} {make : Token → Option α} {before after : Stream} :
    takeMap make before = .ok none after ↔
      before = after ∧ ∀ token, before.peek? = some token → make token = none := by
  constructor
  · intro success
    unfold takeMap at success
    split at success
    · rename_i ahead
      cases success
      refine ⟨rfl, fun token found => ?_⟩
      rw [Stream.peek?, ahead] at found
      cases found
    · rename_i head rest ahead
      split at success
      · cases success
      · rename_i unmade
        cases success
        refine ⟨rfl, fun token found => ?_⟩
        rw [Stream.peek?, ahead] at found
        cases found
        exact unmade
  · rintro ⟨rfl, unmade⟩
    cases ahead : before.ahead with
    | nil => simp only [takeMap, ahead]
    | cons token rest =>
        have nothing : make token = none := unmade token (by rw [Stream.peek?, ahead]; rfl)
        simp only [takeMap, ahead, nothing]

theorem takeMap_eq_some_iff {α : Type} {make : Token → Option α} {before after : Stream}
    {value : α} :
    takeMap make before = .ok (some value) after ↔
      ∃ token, make token = some value ∧ before = after.unread [token] := by
  constructor
  · intro success
    unfold takeMap at success
    split at success
    · cases success
    · rename_i head rest ahead
      split at success
      · rename_i made
        cases success
        exact ⟨head, made, Stream.eq_unread_of_ahead ahead⟩
      · cases success
  · rintro ⟨token, made, rfl⟩
    simp only [takeMap, Stream.unread_ahead, List.cons_append, List.nil_append, made]
    rfl

theorem takeIf_eq_none_iff {condition : Token → Bool} {before after : Stream} :
    takeIf condition before = .ok none after ↔
      before = after ∧ ∀ token, before.peek? = some token → condition token = false := by
  rw [takeIf, takeMap_eq_none_iff]
  simp only [Option.guard_eq_none_iff]

theorem takeIf_eq_some_iff {condition : Token → Bool} {before after : Stream} {token : Token} :
    takeIf condition before = .ok (some token) after ↔
      condition token = true ∧ before = after.unread [token] := by
  rw [takeIf, takeMap_eq_some_iff]
  constructor
  · rintro ⟨taken, guarded, stream⟩
    obtain ⟨rfl, holds⟩ := Option.guard_eq_some_iff.mp guarded
    exact ⟨holds, stream⟩
  · rintro ⟨holds, stream⟩
    exact ⟨token, Option.guard_eq_some_iff.mpr ⟨rfl, holds⟩, stream⟩

/-! ### Lists -/

/-- A step that succeeds has consumed tokens that spell its value. -/
def Sound {α : Type} (step : Parse α) (Spelling : List Token → α → Prop) : Prop :=
  ∀ before value after, step before = .ok value after →
    ∃ tokens, before = after.unread tokens ∧ Spelling tokens value

/-- A step takes the tokens that spell a value whenever the stream behind them is a proper end. -/
def Complete {α : Type} (step : Parse α) (Spelling : List Token → α → Prop)
    (Ends : Stream → Prop) : Prop :=
  ∀ tokens value after, Spelling tokens value → Ends after →
    step (after.unread tokens) = .ok value after

inductive ListSpelling {α : Type} (close : Token.Kind) (Item : List Token → α → Prop) :
    List Token → List α → Prop where
  | last {tokens : List Token} {item : α} {mark : Token} :
      Item tokens item → mark.kind = close → ListSpelling close Item (tokens ++ [mark]) [item]
  | more {tokens rest : List Token} {item : α} {items : List α} {mark : Token} :
      Item tokens item → mark.kind = .comma → ListSpelling close Item rest items →
      ListSpelling close Item (tokens ++ mark :: rest) (item :: items)

inductive DelimitedSpelling {α : Type} (opening close : Token.Kind)
    (Item : List Token → α → Prop) : List Token → List α → Prop where
  | empty {first last : Token} :
      first.kind = opening → last.kind = close →
      DelimitedSpelling opening close Item [first, last] []
  | items {first : Token} {tokens : List Token} {items : List α} :
      first.kind = opening → ListSpelling close Item tokens items →
      DelimitedSpelling opening close Item (first :: tokens) items

section Lists

variable {α : Type} {close : Token.Kind} {item : Parse α} {keeps : item.NeverRewinds}
variable {Item : List Token → α → Prop}

theorem sound_separated (sound : item.Sound Item) :
    Sound (separated close item keeps) (ListSpelling close Item) := by
  intro before values after success
  fun_induction separated close item keeps before generalizing values after with
  | case1 => cases success
  | case2 => cases success
  | case3 stream first afterItem itemRead mark rest markRead _ closed =>
      cases success
      obtain ⟨tokens, rfl, spelled⟩ := sound _ _ _ itemRead
      obtain ⟨_, rfl⟩ := expectAny_eq_ok_iff.mp markRead
      exact ⟨tokens ++ [mark], Stream.unread_unread _ _ _, .last spelled closed⟩
  | case4 => cases success
  | case5 stream first afterItem itemRead mark rest markRead _ open_ others final othersRead ih =>
      cases success
      obtain ⟨tokens, rfl, spelled⟩ := sound _ _ _ itemRead
      obtain ⟨listed, rfl⟩ := expectAny_eq_ok_iff.mp markRead
      obtain ⟨otherTokens, rfl, othersSpelled⟩ := ih _ _ othersRead
      have comma : mark.kind = .comma := by
        simpa only [List.mem_cons, List.not_mem_nil, or_false, open_] using listed
      refine ⟨tokens ++ mark :: otherTokens, ?_, .more spelled comma othersSpelled⟩
      simp only [Stream.unread_unread, List.cons_append, List.nil_append]

/-! How the loop goes on after an item, one statement for each way. -/

theorem separated_of_item_error (keeps : item.NeverRewinds) {stream stopped : Stream}
    {diagnostic : Diagnostic}
    (failed : item stream = .error diagnostic stopped) :
    separated close item keeps stream = .error diagnostic stopped := by
  rw [separated]
  split
  · rename_i itemRead
    rw [failed] at itemRead
    cases itemRead
    rfl
  · rename_i itemRead
    rw [failed] at itemRead
    cases itemRead

private theorem separated_of_item (keeps : item.NeverRewinds) {stream afterItem : Stream}
    {first : α}
    (itemRead : item stream = .ok first afterItem) :
    separated close item keeps stream =
      match expectAny [.comma, close] afterItem with
      | .error diagnostic stopped => .error diagnostic stopped
      | .ok mark rest =>
        if mark.kind = close then .ok [first] rest
        else
          match separated close item keeps rest with
          | .error diagnostic stopped => .error diagnostic stopped
          | .ok others final => .ok (first :: others) final := by
  rw [separated]
  split
  · rename_i failed
    rw [itemRead] at failed
    cases failed
  · rename_i again
    rw [itemRead] at again
    cases again
    split
    · rename_i markRead
      rw [markRead]
    · rename_i markRead
      dsimp only
      rewrite [markRead]
      rfl

theorem separated_of_last (keeps : item.NeverRewinds) {stream rest : Stream} {first : α}
    {mark : Token}
    (itemRead : item stream = .ok first (rest.unread [mark])) (closed : mark.kind = close) :
    separated close item keeps stream = .ok [first] rest := by
  have markRead : expectAny [.comma, close] (rest.unread [mark]) = .ok mark rest :=
    expectAny_unread rest (by simp [closed])
  rw [separated_of_item keeps itemRead, markRead]
  exact if_pos closed

theorem separated_of_comma (keeps : item.NeverRewinds) {stream rest : Stream} {first : α}
    {mark : Token}
    (itemRead : item stream = .ok first (rest.unread [mark])) (comma : mark.kind = .comma)
    (different : close ≠ .comma) :
    separated close item keeps stream =
      match separated close item keeps rest with
      | .error diagnostic stopped => .error diagnostic stopped
      | .ok others final => .ok (first :: others) final := by
  have markRead : expectAny [.comma, close] (rest.unread [mark]) = .ok mark rest :=
    expectAny_unread rest (by simp [comma])
  have continued : mark.kind ≠ close := by
    rw [comma]
    exact different.symm
  rw [separated_of_item keeps itemRead, markRead]
  exact if_neg continued

theorem separated_of_mark_error (keeps : item.NeverRewinds) {stream rest : Stream} {first : α}
    {mark : Token}
    (itemRead : item stream = .ok first (rest.unread [mark]))
    (other : mark.kind ∉ [.comma, close]) :
    separated close item keeps stream = .error ⟨.unexpectedToken, mark⟩ (rest.unread [mark]) := by
  rw [separated_of_item keeps itemRead, expectAny_unread_error rest other]

theorem complete_separated {Ends : Stream → Prop} (complete : item.Complete Item Ends)
    (different : close ≠ .comma)
    (ends : ∀ (mark : Token) (after : Stream), mark.kind ∈ [.comma, close] →
      Ends (after.unread [mark])) :
    Complete (separated close item keeps) (ListSpelling close Item) fun _ => True := by
  intro tokens values after spelled _
  induction spelled with
  | @last tokens value mark spelled closed =>
      have itemRead := complete tokens value _ spelled (ends mark after (by simp [closed]))
      rw [Stream.unread_unread] at itemRead
      exact separated_of_last keeps itemRead closed
  | @more tokens rest value values mark spelled comma _ ih =>
      have itemRead :=
        complete tokens value _ spelled (ends mark (after.unread rest) (by simp [comma]))
      have more := separated_of_comma keeps itemRead comma different
      rw [ih, Stream.unread_unread, Stream.unread_unread, List.append_assoc] at more
      exact more

theorem sound_delimited (opening : Token.Kind) (sound : item.Sound Item) :
    Sound (delimited opening close item keeps) (DelimitedSpelling opening close Item) := by
  intro before values after success
  obtain ⟨first, afterFirst, firstRead, body⟩ := bind_eq_ok.mp success
  obtain ⟨last?, afterLast, lastRead, items⟩ := bind_eq_ok.mp body
  obtain ⟨opened, rfl⟩ := expect_eq_ok_iff.mp firstRead
  cases last? with
  | none =>
      obtain ⟨rfl, _⟩ := takeIf_eq_none_iff.mp lastRead
      obtain ⟨tokens, rfl, spelled⟩ := sound_separated sound _ _ _ items
      exact ⟨first :: tokens, Stream.unread_unread _ _ _, .items opened spelled⟩
  | some last =>
      obtain ⟨closed, rfl⟩ := takeIf_eq_some_iff.mp lastRead
      obtain ⟨rfl, rfl⟩ := pure_eq_ok_iff.mp items
      exact ⟨[first, last], Stream.unread_unread _ _ _, .empty opened (eq_of_beq closed)⟩

/-- A list can be told from an empty one by its first token. -/
theorem complete_delimited (opening : Token.Kind) {Ends : Stream → Prop}
    (complete : item.Complete Item Ends) (different : close ≠ .comma)
    (ends : ∀ (mark : Token) (after : Stream), mark.kind ∈ [.comma, close] →
      Ends (after.unread [mark]))
    (starts : ∀ tokens value, Item tokens value →
      ∃ first rest, tokens = first :: rest ∧ first.kind ≠ close) :
    Complete (delimited opening close item keeps) (DelimitedSpelling opening close Item)
      fun _ => True := by
  intro tokens values after spelled _
  cases spelled with
  | @empty first last opened closed =>
      have firstRead :
          expect opening (after.unread [first, last]) = .ok first (after.unread [last]) :=
        expect_unread (after.unread [last]) opened
      have lastRead : takeIf (·.kind == close) (after.unread [last]) = .ok (some last) after :=
        takeIf_eq_some_iff.mpr ⟨beq_iff_eq.mpr closed, rfl⟩
      exact (bind_of_ok firstRead).trans (bind_of_ok lastRead)
  | @items first tokens _ opened spelled =>
      have firstRead : expect opening (after.unread (first :: tokens)) =
          .ok first (after.unread tokens) :=
        expect_unread (after.unread tokens) opened
      obtain ⟨head, rest, rfl, headOpen⟩ :
          ∃ head rest, tokens = head :: rest ∧ head.kind ≠ close := by
        cases spelled with
        | last spelled _ =>
            obtain ⟨head, rest, rfl, headOpen⟩ := starts _ _ spelled
            exact ⟨head, _, rfl, headOpen⟩
        | more spelled _ _ =>
            obtain ⟨head, rest, rfl, headOpen⟩ := starts _ _ spelled
            exact ⟨head, _, rfl, headOpen⟩
      have nothingTaken : takeIf (·.kind == close) (after.unread (head :: rest)) =
          .ok none (after.unread (head :: rest)) := by
        refine takeIf_eq_none_iff.mpr ⟨rfl, fun token found => ?_⟩
        cases found
        exact beq_eq_false_iff_ne.mpr headOpen
      exact ((bind_of_ok firstRead).trans (bind_of_ok nothingTaken)).trans
        (complete_separated complete different ends _ _ _ spelled trivial)

/-! A condition on the items can be stated apart from their tokens. -/

theorem listSpelling_and_iff {Good : α → Prop} {tokens : List Token} {values : List α} :
    ListSpelling close (fun tokens value => Item tokens value ∧ Good value) tokens values ↔
      ListSpelling close Item tokens values ∧ ∀ value ∈ values, Good value := by
  constructor
  · intro spelled
    induction spelled with
    | last item closed => exact ⟨.last item.1 closed, by simpa using item.2⟩
    | more item comma _ ih => exact ⟨.more item.1 comma ih.1, by simpa using ⟨item.2, ih.2⟩⟩
  · rintro ⟨spelled, good⟩
    induction spelled with
    | last item closed => exact .last ⟨item, good _ (by simp)⟩ closed
    | more item comma _ ih =>
        refine .more ⟨item, good _ (by simp)⟩ comma (ih fun value member => ?_)
        exact good value (by simp [member])

theorem delimitedSpelling_and_iff {opening : Token.Kind} {Good : α → Prop} {tokens : List Token}
    {values : List α} :
    DelimitedSpelling opening close (fun tokens value => Item tokens value ∧ Good value)
        tokens values ↔
      DelimitedSpelling opening close Item tokens values ∧ ∀ value ∈ values, Good value := by
  constructor
  · intro spelled
    cases spelled with
    | empty opened closed => exact ⟨.empty opened closed, by simp⟩
    | items opened spelled =>
        obtain ⟨plain, good⟩ := listSpelling_and_iff.mp spelled
        exact ⟨.items opened plain, good⟩
  · rintro ⟨spelled, good⟩
    cases spelled with
    | empty opened closed => exact .empty opened closed
    | items opened spelled => exact .items opened (listSpelling_and_iff.mpr ⟨spelled, good⟩)

/-! Items can be described in two steps: what their tokens are, and what these are read as. -/

theorem listSpelling_iff_exists_read {β : Type} {Form : List Token → β → Prop}
    {read : β → Option α}
    (item : ∀ tokens value, Item tokens value ↔
      ∃ form, Form tokens form ∧ read form = some value)
    {tokens : List Token} {values : List α} :
    ListSpelling close Item tokens values ↔
      ∃ forms, ListSpelling close Form tokens forms ∧ forms.map read = values.map some := by
  constructor
  · intro spelled
    induction spelled with
    | last own closed =>
        obtain ⟨form, formed, reads⟩ := (item _ _).mp own
        exact ⟨[form], .last formed closed, by simp [reads]⟩
    | more own comma _ ih =>
        obtain ⟨form, formed, reads⟩ := (item _ _).mp own
        obtain ⟨forms, others, othersRead⟩ := ih
        exact ⟨form :: forms, .more formed comma others, by simp [reads, othersRead]⟩
  · rintro ⟨forms, spelled, reads⟩
    induction spelled generalizing values with
    | last formed closed =>
        obtain ⟨value, rfl, ownRead⟩ := List.map_eq_singleton_iff.mp reads.symm
        exact .last ((item _ _).mpr ⟨_, formed, ownRead.symm⟩) closed
    | more formed comma _ ih =>
        obtain ⟨value, others, rfl, ownRead, othersRead⟩ := List.map_eq_cons_iff.mp reads.symm
        exact .more ((item _ _).mpr ⟨_, formed, ownRead.symm⟩) comma (ih othersRead.symm)

theorem delimitedSpelling_iff_exists_read {β : Type} {opening : Token.Kind}
    {Form : List Token → β → Prop} {read : β → Option α}
    (item : ∀ tokens value, Item tokens value ↔
      ∃ form, Form tokens form ∧ read form = some value)
    {tokens : List Token} {values : List α} :
    DelimitedSpelling opening close Item tokens values ↔
      ∃ forms, DelimitedSpelling opening close Form tokens forms ∧
        forms.map read = values.map some := by
  constructor
  · intro spelled
    cases spelled with
    | empty opened closed => exact ⟨[], .empty opened closed, rfl⟩
    | items opened spelled =>
        obtain ⟨forms, formed, reads⟩ := (listSpelling_iff_exists_read item).mp spelled
        exact ⟨forms, .items opened formed, reads⟩
  · rintro ⟨forms, spelled, reads⟩
    cases spelled with
    | empty opened closed =>
        rw [List.map_eq_nil_iff.mp reads.symm]
        exact .empty opened closed
    | items opened spelled =>
        exact .items opened ((listSpelling_iff_exists_read item).mpr ⟨forms, spelled, reads⟩)

/-- Each item is spelled by some of the tokens. -/
theorem ListSpelling.exists_item {tokens : List Token} {values : List α}
    (spelled : ListSpelling close Item tokens values) {value : α} (member : value ∈ values) :
    ∃ itemTokens, itemTokens ⊆ tokens ∧ Item itemTokens value := by
  induction spelled with
  | last own _ =>
      rw [List.mem_singleton.mp member]
      exact ⟨_, List.subset_append_left _ _, own⟩
  | more own _ _ ih =>
      rcases List.mem_cons.mp member with rfl | later
      · exact ⟨_, List.subset_append_left _ _, own⟩
      · obtain ⟨itemTokens, included, itemSpelled⟩ := ih later
        exact ⟨itemTokens,
          List.subset_append_of_subset_right _ (List.subset_cons_of_subset _ included), itemSpelled⟩

theorem DelimitedSpelling.exists_item {opening : Token.Kind} {tokens : List Token} {values : List α}
    (spelled : DelimitedSpelling opening close Item tokens values) {value : α}
    (member : value ∈ values) : ∃ itemTokens, itemTokens ⊆ tokens ∧ Item itemTokens value := by
  cases spelled with
  | empty _ _ => cases member
  | items _ listed =>
      obtain ⟨itemTokens, included, itemSpelled⟩ := listed.exists_item member
      exact ⟨itemTokens, List.subset_cons_of_subset _ included, itemSpelled⟩

end Lists

end Parse
end AudioMarkup
