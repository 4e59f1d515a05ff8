import AudioMarkup.Proofs.Program.Grammar
import AudioMarkup.Proofs.Program.Layout
import AudioMarkup.Proofs.Series.Truncation

/-!
Programs that are cut short. What is there of an accepted program is accepted as well or called
exhausted, wherever it is cut, with one exception: a list that is left open is read again as a
range, so the first token that no range has in its place is refused.
-/

namespace AudioMarkup

open Parse

private theorem Series.passes {kinds : List Token.Kind} (plain : Token.Kind.leftBracket ∉ kinds) :
    ∀ token : Token, token.kind ∈ kinds → Series.account.Passed [token] := by
  intro token listed
  apply closed_singleton
  intro bracket
  exact plain (bracket ▸ listed)

variable {scope : Scope}

theorem PropertyValue.curtails_parse (noIndex : scope.index? = none) (shape : Shape) :
    Curtails Series.account (fun _ => True) (PropertyValue.parse scope shape) := by
  cases shape with
  | text =>
      apply curtails_expectAny_bind (Series.passes (by decide))
      intro token _
      exact curtails_pure _
  | expression =>
      apply (Expr.curtails_parseWithin (Series.passes (by decide)) scope nestingLimit).bind
      · intro expr
        exact curtails_pure _
      · intro expr _
        exact quiet_pure trivial
  | series =>
      apply (Series.curtails_parse noIndex).bind
      · intro series
        exact curtails_pure _
      · intro series _
        exact quiet_pure trivial

namespace Definition

private theorem curtails_parseProperty (nodeClass : NodeClass) :
    Curtails Series.account (fun _ => False) (parseProperty nodeClass) := by
  apply curtails_expectAny_bind (Series.passes (by decide))
  intro token _
  split
  · exact curtails_fail _ token
  · exact curtails_expectAny_bind (Series.passes (by decide)) fun _ _ => curtails_pure _

private theorem curtails_parseSettings (nodeClass : NodeClass) (noIndex : scope.index? = none) :
    Curtails Series.account (fun _ => False) (parseSettings nodeClass scope) := by
  have settings : Curtails Series.account (fun _ => True) (parseSetting nodeClass scope) := by
    apply (curtails_parseProperty nodeClass).bind
    · intro property
      apply (PropertyValue.curtails_parse noIndex property.shape).bind
      · intro value
        exact curtails_pure _
      · intro value _
        exact quiet_pure trivial
    · intro property impossible
      exact impossible.elim
  have quiet : Quiet (fun _ => True) (parseSetting nodeClass scope) := by
    have property : Quiet (fun _ => False) (parseProperty nodeClass) := quiet_expectAny_bind _ _
    exact property.bind fun _ impossible => impossible.elim
  exact curtails_delimited _ settings quiet (Series.passes (by decide))

private theorem curtails_parseClass : Curtails Series.account (fun _ => False) parseClass := by
  apply curtails_expectAny_bind (Series.passes (by decide))
  intro token _
  split
  · exact curtails_fail _ token
  · exact curtails_pure _

private theorem curtails_parseName (context : String) (defined : List String) :
    Curtails Series.account (fun _ => True) (parseName context defined) := by
  have passes : ∀ token : Token, (token.kind == .name || token.kind == .className) = true →
      Series.account.Passed [token] := by
    intro token named
    have listed : token.kind ∈ [.name, .className] := by simpa using named
    exact Series.passes (by decide) token listed
  apply (curtails_takeIf passes).bind
  · intro token?
    cases token? with
    | none => exact curtails_pure none
    | some token =>
        dsimp only
        split
        · exact curtails_fail _ token
        · split
          · exact curtails_fail _ token
          · exact curtails_pure _
  · intro token? nothing
    rw [nothing]
    exact quiet_pure trivial

private theorem curtails_parseExport (classToken : Token) (name? : Option String) :
    Curtails Series.account (fun _ => True) (parseExport classToken name?) := by
  intro rest full short cut
  cases ahead : short.ahead with
  | nil =>
      have shortRead : parseExport classToken name? short = .ok false short := by
        simp only [parseExport, Stream.peek?, ahead, List.head?_nil]
      rw [shortRead]
      refine .spent ?_ (.ended trivial ahead)
      rw [ahead]
      exact Series.account.spent_nil
  | cons token tokens =>
      have fullAhead : full.ahead = token :: (tokens ++ rest) := by
        rw [cut, ahead, List.cons_append]
      simp only [parseExport, Stream.peek?, ahead, fullAhead, List.head?_cons, List.tail_cons]
      split
      · rename_i keyword
        split
        · exact .fault
        · refine .same (Stream.eq_unread_of_ahead ahead) ?_ rfl
          apply Series.closed_singleton
          rw [Series.name_of_isKeyword keyword]
          decide
      · exact .same (Stream.unread_nil short).symm Series.account.passed_nil cut

private theorem curtails_parse (context : String) (defined : List String) :
    Curtails Series.account (fun _ => True) (parse context defined) := by
  apply curtails_parseClass.bind
  · intro (classToken, nodeClass)
    apply (curtails_parseName context defined).bind
    · intro name?
      apply (curtails_parseSettings nodeClass rfl).bind
      · intro settings
        apply (curtails_parseExport classToken name?).bind
        · intro exported
          exact curtails_pure _
        · intro exported _
          exact quiet_pure trivial
      · intro settings impossible
        exact impossible.elim
    · intro name? _
      exact (quiet_delimited _ _).bind fun _ impossible => impossible.elim
  · intro pair impossible
    exact impossible.elim

end Definition

namespace Program

private theorem parseDefinitions_at_end {stream : Stream} (context : String)
    (defined : List String) (finished : stream.ahead = []) :
    parseDefinitions context defined stream = .ok [] stream := by
  rw [parseDefinitions_eq_bind, Stream.hasNext, finished]
  rfl

private theorem curtails_parseDefinitions (context : String) (defined : List String) :
    Curtails Series.account (fun _ => True) (parseDefinitions context defined) := by
  intro rest full short cut
  -- Each definition that is read leaves fewer tokens of the whole stream.
  induction amount : full.remaining using Nat.strongRecOn generalizing full short defined with
  | ind bound shorter =>
    cases ahead : short.ahead with
    | nil =>
        rw [parseDefinitions_at_end context defined ahead]
        refine .spent ?_ (.ended trivial ahead)
        rw [ahead]
        exact Series.account.spent_nil
    | cons token tokens =>
        have shortNext : short.hasNext = true := by
          rw [Stream.hasNext, ahead]
          rfl
        have fullNext : full.hasNext = true := by
          rw [Stream.hasNext, cut, ahead]
          rfl
        rw [parseDefinitions_eq_bind, parseDefinitions_eq_bind, if_pos shortNext, if_pos fullNext]
        apply (Definition.curtails_parse context defined rest full short cut).bind
        · intro definition after left read _ leftCut
          have fewer : after.remaining < bound := by
            have advanced := Definition.advances_parse _ _ _ _ _ read
            omega
          apply (shorter _ fewer _ after left leftCut rfl).bind
          · intro others afterOthers leftOthers _ _ othersCut
            exact curtails_pure _ rest afterOthers leftOthers othersCut
          · intro others _
            exact quiet_pure trivial
        · intro definition _ stream finished
          rw [bind_of_ok (parseDefinitions_at_end context _ finished)]
          exact .ended trivial finished

/-- Either no list is misread and what is there is not refused, or the token that is refused is the
only one misread. -/
private theorem cut_cases {context : String} {cut rest : List Token} {program : Program}
    (accepted : ofTokens context (cut ++ rest) = .ok program) :
    ((∀ token, ¬ Series.Misread cut token) ∧
      ((∃ shorter, ofTokens context cut = .ok shorter) ∨
        ∃ token, ofTokens context cut = .error ⟨.exhaustedInput, token⟩)) ∨
    ∃ refused, ofTokens context cut = .error ⟨.unexpectedToken, refused⟩ ∧
      ∀ token, Series.Misread cut token ↔ token = refused := by
  obtain ⟨definitions, after, read⟩ : ∃ definitions after,
      parseDefinitions context [] (.ofTokens (cut ++ rest)) = .ok definitions after := by
    rw [ofTokens_eq] at accepted
    split at accepted
    · exact ⟨_, _, ‹_›⟩
    · cases accepted
  obtain ⟨finished, _⟩ := parseDefinitions_eq_ok read
  have outcome := curtails_parseDefinitions context [] rest (.ofTokens (cut ++ rest))
    (.ofTokens cut) rfl
  rw [read] at outcome
  rw [ofTokens_eq]
  generalize parseDefinitions context [] (.ofTokens cut) = result at outcome ⊢
  cases outcome with
  | @same _ tokens _ left split closed behind =>
      have whole : cut = tokens := by
        rw [finished] at behind
        have ahead : cut = tokens ++ left.ahead := congrArg Stream.ahead split
        rwa [(List.append_eq_nil_iff.mp behind.symm).1, List.append_nil] at ahead
      have fine (token : Token) : ¬ Series.Misread cut token := by
        intro ⟨inner, isOpen, _⟩
        rw [whole] at isOpen
        exact closed inner isOpen
      exact .inl ⟨fine, .inl ⟨_, rfl⟩⟩
  | spent fine atEnd =>
      cases atEnd with
      | ended => exact .inl ⟨fine, .inl ⟨_, rfl⟩⟩
      | exhausted => exact .inl ⟨fine, .inr ⟨_, rfl⟩⟩
  | @misled _ refused stopped misled => exact .inr ⟨refused, rfl, misled⟩

/-- What is there of an accepted program is refused at a token if and only if a list is left open
and the token is the first of it that no range has in its place. Otherwise it is accepted or called
exhausted. -/
theorem ofTokens_of_cut {context : String} {cut rest : List Token} {program : Program}
    (accepted : ofTokens context (cut ++ rest) = .ok program) :
    (∀ token, ofTokens context cut = .error ⟨.unexpectedToken, token⟩ ↔
      Series.Misread cut token) ∧
    ((∀ token, ¬ Series.Misread cut token) →
      (∃ shorter, ofTokens context cut = .ok shorter) ∨
        ∃ token, ofTokens context cut = .error ⟨.exhaustedInput, token⟩) := by
  rcases cut_cases accepted with ⟨fine, ended⟩ | ⟨refused, answer, misled⟩
  · refine ⟨fun token => iff_of_false ?_ (fine token), fun _ => ended⟩
    rcases ended with ⟨shorter, answer⟩ | ⟨stop, answer⟩
    · simp [answer]
    · simp [answer]
  · constructor
    · intro token
      rw [answer, misled token]
      simp [eq_comm]
    · intro fine
      exact absurd ((misled refused).mpr rfl) (fine refused)

/-- A list of names is cut behind its second item and the comma there, and a range behind its lower
bound. Only in the list a token is refused. -/
theorem ofTokens_of_cut_behind_second_item :
    ∃ tokens program,
      Token.scan "Constant a\x7b\x7d PeriodicWave \x7bimg:[k,a to 3,k],real:[a,a,1]\x7d" = tokens ∧
      ofTokens "audioCtx" tokens = .ok program ∧
      Series.Misread (tokens.take 25) ⟨1, 54, ",", .comma⟩ ∧
      ∀ token, ¬ Series.Misread (tokens.take 12) token := by
  have accepted : ofTokens "audioCtx" (Token.scan
      "Constant a\x7b\x7d PeriodicWave \x7bimg:[k,a to 3,k],real:[a,a,1]\x7d") =
      .ok { definitions := [
        { name? := some "a", exported := false, node := .constant (.number ⟨0⟩) },
        { name? := none, exported := false, node := .periodicWave {
            real := .list [.reference "a", .reference "a", .number ⟨0x3ff0000000000000⟩]
            imaginary := .range "k" (.reference "a") (.number ⟨0x4008000000000000⟩)
              (.reference "k") } }] } := by
    decide +kernel
  have refused : ofTokens "audioCtx" ((Token.scan
      "Constant a\x7b\x7d PeriodicWave \x7bimg:[k,a to 3,k],real:[a,a,1]\x7d").take 25) =
      .error ⟨.unexpectedToken, ⟨1, 54, ",", .comma⟩⟩ := by
    decide +kernel
  have exhausted : ofTokens "audioCtx" ((Token.scan
      "Constant a\x7b\x7d PeriodicWave \x7bimg:[k,a to 3,k],real:[a,a,1]\x7d").take 12) =
      .error ⟨.exhaustedInput, ⟨1, 35, "", .endOfInput⟩⟩ := by
    decide +kernel
  have cutAt (count : Nat) := (List.take_append_drop count (Token.scan _)).symm ▸ accepted
  refine ⟨_, _, rfl, accepted, ((ofTokens_of_cut (cutAt 25)).1 _).mp refused, ?_⟩
  intro token misread
  have impossible := ((ofTokens_of_cut (cutAt 12)).1 token).mpr misread
  rw [exhausted] at impossible
  cases impossible

/-- A list that is accepted. Cut behind its first item, it is refused there and not called
exhausted. -/
theorem refusal_of_cut_list :
    ∃ tokens program,
      Token.scan "PeriodicWave \x7b real: [1, 2] \x7d" = tokens ∧
      Token.scan "PeriodicWave \x7b real: [1" = tokens.take 6 ∧ tokens.take 6 ≠ tokens ∧
      ofTokens "audioCtx" tokens = .ok program ∧
      ofTokens "audioCtx" (tokens.take 6) =
        .error ⟨.unexpectedToken, ⟨1, 23, "1", .number⟩⟩ ∧
      ¬ ((∃ shorter, ofTokens "audioCtx" (tokens.take 6) = .ok shorter) ∨
        ∃ token, ofTokens "audioCtx" (tokens.take 6) = .error ⟨.exhaustedInput, token⟩) := by
  have accepted : ofTokens "audioCtx" (Token.scan "PeriodicWave \x7b real: [1, 2] \x7d") =
      .ok { definitions := [
        { name? := none, exported := false, node := .periodicWave {
            real := .list [.number ⟨0x3ff0000000000000⟩, .number ⟨0x4000000000000000⟩]
            imaginary := .list [] } }] } := by
    decide +kernel
  have refused : ofTokens "audioCtx"
      ((Token.scan "PeriodicWave \x7b real: [1, 2] \x7d").take 6) =
      .error ⟨.unexpectedToken, ⟨1, 23, "1", .number⟩⟩ := by
    decide +kernel
  refine ⟨_, _, rfl, by decide +kernel, by decide +kernel, accepted, refused, ?_⟩
  rw [refused]
  rintro (⟨_, impossible⟩ | ⟨_, impossible⟩)
  · cases impossible
  · cases impossible

end Program
end AudioMarkup
