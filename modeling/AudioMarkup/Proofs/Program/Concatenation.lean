import AudioMarkup.Proofs.Program.Canonical
import AudioMarkup.Proofs.Program.Layout
import AudioMarkup.Proofs.Token.Concatenation

/-!
Programs one below the other. The second program is read where the names of the first are defined
as well. Names that are added to a scope take nothing from what was accepted without them, as long
as none of them is defined again; so the definitions of both programs follow one another.

That the two texts do not grow together is seen from the last token of the first: a program ends
with a closing brace or with the export mark, never with a string that was left open.
-/

namespace AudioMarkup

open Parse

/-! ### Larger scopes -/

def Scope.Includes (wider scope : Scope) : Prop :=
  scope.index? = wider.index? ∧ ∀ name ∈ scope.names, name ∈ wider.names

namespace Scope.Includes

variable {scope wider : Scope}

theorem resolves (includes : wider.Includes scope) {name : String}
    (resolved : scope.resolves name = true) : wider.resolves name = true := by
  simp only [Scope.resolves, Bool.or_eq_true, beq_iff_eq, List.contains_iff_mem] at resolved ⊢
  rcases resolved with index | defined
  · exact .inl (includes.1 ▸ index)
  · exact .inr (includes.2 name defined)

theorem withIndex (includes : wider.Includes scope) (index : String) :
    (wider.withIndex index).Includes (scope.withIndex index) :=
  ⟨rfl, includes.2⟩

end Scope.Includes

private theorem Expr.Fits.widen {scope wider : Scope} {levels : Nat} {expr : Expr}
    (fits : expr.Fits scope levels) (includes : wider.Includes scope) : expr.Fits wider levels :=
  ⟨fits.leansRight, fits.depth_le, fun name used => includes.resolves (fits.resolves name used)⟩

private theorem PropertyValue.Fits.widen {scope wider : Scope} {value : PropertyValue}
    (fits : value.Fits scope) (includes : wider.Includes scope) : value.Fits wider := by
  cases value with
  | text content => trivial
  | expression expr => exact Expr.Fits.widen fits includes
  | series values =>
      cases values with
      | list items =>
          intro item member
          exact (fits item member).widen includes
      | range index lower upper body =>
          intro part member
          exact (fits part member).widen (includes.withIndex index)

namespace Program

variable {context : String} {defined : List String} {tokens : List Token}
  {definitions : List Definition}

theorem Spelling.widen (spelled : Spelling context defined tokens definitions)
    {wider : List String} (included : ∀ name ∈ defined, name ∈ wider)
    (fresh : ∀ name ∈ definitions.filterMap Definition.name?, name ∉ wider) :
    Spelling context wider tokens definitions := by
  induction spelled generalizing wider with
  | nil => exact .nil
  | @cons defined _ _ settings definition others spelled admitted othersSpelled ih =>
      have includes : (Scope.ofNames wider).Includes (.ofNames defined) := ⟨rfl, included⟩
      refine .cons spelled ⟨admitted.unreserved, ?_, ?_, admitted.named⟩ (ih ?_ ?_)
      · intro name own
        exact fresh name (List.mem_filterMap.mpr ⟨definition, List.mem_cons_self .., own⟩)
      · intro setting member
        exact (admitted.fits setting member).widen includes
      · intro name known
        rcases List.mem_append.mp known with own | earlier
        · exact List.mem_append_left _ own
        · exact List.mem_append_right _ (included name earlier)
      · intro name later known
        -- A later name differs from the name of this definition, as it did before.
        rcases List.mem_append.mp known with own | earlier
        · exact othersSpelled.distinct.2 name later (List.mem_append_left _ own)
        · obtain ⟨other, member, named⟩ := List.mem_filterMap.mp later
          exact fresh name (List.mem_filterMap.mpr ⟨other, List.mem_cons_of_mem _ member, named⟩)
            earlier

theorem Spelling.append {otherTokens : List Token} {others : List Definition}
    (first : Spelling context defined tokens definitions)
    (second : Spelling context [] otherTokens others)
    (apart : ∀ name ∈ others.filterMap Definition.name?,
      name ∉ defined ∧ name ∉ definitions.filterMap Definition.name?) :
    Spelling context defined (tokens ++ otherTokens) (definitions ++ others) := by
  induction first with
  | nil =>
      apply second.widen
      · intro name impossible
        cases impossible
      · intro name later
        exact (apart name later).1
  | @cons defined tokens rest settings definition between spelled admitted _ ih =>
      rw [List.append_assoc, List.cons_append]
      refine .cons spelled admitted (ih fun name later => ?_)
      obtain ⟨new, different⟩ := apart name later
      cases named : definition.name? with
      | none =>
          rw [List.filterMap_cons_none named] at different
          exact ⟨new, different⟩
      | some own =>
          rw [List.filterMap_cons_some named, List.mem_cons, not_or] at different
          refine ⟨fun known => ?_, different.2⟩
          rcases List.mem_cons.mp known with same | earlier
          · exact different.1 same
          · exact new earlier

end Program

/-! ### The end of a program -/

private theorem Parse.ListSpelling.getLast? {α : Type} {close : Token.Kind}
    {Item : List Token → α → Prop} {tokens : List Token} {values : List α}
    (spelled : ListSpelling close Item tokens values) :
    ∃ token, tokens.getLast? = some token ∧ token.kind = close := by
  induction spelled with
  | @last _ _ mark _ closed => exact ⟨mark, List.getLast?_concat, closed⟩
  | @more tokens rest _ _ mark _ _ _ ih =>
      obtain ⟨token, last, closed⟩ := ih
      refine ⟨token, ?_, closed⟩
      rw [List.getLast?_append, List.getLast?_cons, last]
      rfl

private theorem Parse.DelimitedSpelling.getLast? {α : Type} {opening close : Token.Kind}
    {Item : List Token → α → Prop} {tokens : List Token} {values : List α}
    (spelled : DelimitedSpelling opening close Item tokens values) :
    ∃ token, tokens.getLast? = some token ∧ token.kind = close := by
  cases spelled with
  | @empty first last _ closed => exact ⟨last, rfl, closed⟩
  | @items first tokens _ _ listed =>
      obtain ⟨token, last, closed⟩ := listed.getLast?
      refine ⟨token, ?_, closed⟩
      rw [List.getLast?_cons, last]
      rfl

private theorem Definition.Spelling.getLast? {tokens : List Token}
    {settings : List (Property × PropertyValue)} {definition : Definition}
    (spelled : Definition.Spelling tokens settings definition) :
    ∃ token, tokens.getLast? = some token ∧ token.kind ≠ .string := by
  cases spelled with
  | @intro classToken nameTokens settingTokens exportTokens _ _ _ _ _ _ _ settingsSpelled exported =>
      obtain ⟨brace, last, closed⟩ := settingsSpelled.getLast?
      cases exported with
      | kept =>
          refine ⟨brace, ?_, by rw [closed]; decide⟩
          rw [List.append_nil, List.getLast?_cons, List.getLast?_append, last]
          rfl
      | @exported token keyword =>
          simp only [Token.isKeyword, Bool.and_eq_true, beq_iff_eq] at keyword
          refine ⟨token, ?_, by rw [keyword.1]; decide⟩
          rw [List.getLast?_cons, List.getLast?_append, List.getLast?_append]
          rfl

namespace Program

private theorem Spelling.getLast?_ne_string {context : String} {defined : List String}
    {tokens : List Token} {definitions : List Definition}
    (spelled : Spelling context defined tokens definitions) {token : Token}
    (last : tokens.getLast? = some token) : token.kind ≠ .string := by
  induction spelled with
  | nil => cases last
  | @cons _ own rest _ _ _ definition _ _ ih =>
      rw [List.getLast?_append] at last
      cases later : rest.getLast? with
      | some found =>
          rw [later] at last
          exact ih (later.trans last)
      | none =>
          obtain ⟨final, ownLast, kind⟩ := definition.getLast?
          rw [later, ownLast] at last
          cases last
          exact kind

/-! ### Texts one below the other -/

theorem ofTokens_of_same_words (context : String) {left right : List Token} {program : Program}
    (alike : left.map Token.word = right.map Token.word)
    (read : ofTokens context right = .ok program) : ofTokens context left = .ok program := by
  have reading := sameReading_ofTokens context alike
  rw [read] at reading
  generalize ofTokens context left = leftRead at reading ⊢
  cases reading with
  | read => rfl

/-- The program of a text below another one has the definitions of both. -/
theorem ofText_append (context first second : String) (above beneath : Program)
    (firstRead : ofText context first = .ok above)
    (secondRead : ofText context second = .ok beneath)
    (disjoint : ∀ name, name ∈ above.names → name ∉ beneath.names) :
    ofText context (first ++ "\n" ++ second) =
      .ok { definitions := above.definitions ++ beneath.definitions } := by
  have firstSpelled := ofTokens_eq_ok_iff.mp firstRead
  have secondSpelled := ofTokens_eq_ok_iff.mp secondRead
  obtain ⟨lines, tokens⟩ := Token.exists_scan_append second fun token last =>
    firstSpelled.getLast?_ne_string last
  have alike : (Token.scan (first ++ "\n" ++ second)).map Token.word =
      (Token.scan first ++ Token.scan second).map Token.word := by
    rw [tokens, List.map_append, List.map_append, List.map_map]
    rfl
  apply ofTokens_of_same_words context alike
  apply ofTokens_eq_ok_iff.mpr
  apply firstSpelled.append secondSpelled
  intro name later
  exact ⟨List.not_mem_nil, fun earlier => disjoint name earlier later⟩

/-- The index and the keyword of the range are a defined name of the text above, so that its words
are read further as items of a list before this fails. -/
theorem ofText_append_of_range_below_its_keyword :
    ∃ above beneath : Program,
      ofText "audioCtx" "Constant to\x7bvalue:1\x7d" = .ok above ∧
      ofText "audioCtx" "PeriodicWave export\x7bimg:[to,0 to 2,to*3]\x7dexport" = .ok beneath ∧
      above.names = ["to"] ∧ beneath.names = ["export"] ∧
      ofText "audioCtx" ("Constant to\x7bvalue:1\x7d" ++ "\n" ++
        "PeriodicWave export\x7bimg:[to,0 to 2,to*3]\x7dexport") =
          .ok { definitions := above.definitions ++ beneath.definitions } := by
  have firstRead : ofText "audioCtx" "Constant to\x7bvalue:1\x7d" =
      .ok { definitions := [
        { name? := some "to", exported := false,
          node := .constant (.number ⟨0x3ff0000000000000⟩) }] } := by
    decide +kernel
  have secondRead :
      ofText "audioCtx" "PeriodicWave export\x7bimg:[to,0 to 2,to*3]\x7dexport" =
        .ok { definitions := [
          { name? := some "export", exported := true, node := .periodicWave {
              real := .list []
              imaginary := .range "to" (.number ⟨0⟩) (.number ⟨0x4000000000000000⟩)
                (.operation .mul (.reference "to") (.number ⟨0x4008000000000000⟩)) } }] } := by
    decide +kernel
  exact ⟨_, _, firstRead, secondRead, rfl, rfl,
    ofText_append "audioCtx" _ _ _ _ firstRead secondRead (by decide +kernel)⟩

end Program
end AudioMarkup
