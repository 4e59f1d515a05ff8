import AudioMarkup.Expr.Parse
import AudioMarkup.Series.Basic

/-!
Reading series. Both forms stand in brackets, and a range can begin like a list of items. So a
series is read as a list of items first, and as a range if that fails; the diagnostic is then that
of the range. An expression nested too deeply is reported at once.
-/

namespace AudioMarkup.Series

open Parse

theorem neverRewinds_item (scope : Scope) : (Expr.parse scope).NeverRewinds :=
  (Expr.advances_parse scope).neverRewinds

def parseItems (scope : Scope) : Parse Series := do
  let items ← delimited .leftBracket .rightBracket (Expr.parse scope) (neverRewinds_item scope)
  pure (.list items)

def rangeKeyword : String := "to"

def expectRangeKeyword : Parse Unit := do
  let token ← expect .name
  if token.isKeyword rangeKeyword then pure () else fail .unexpectedToken token

def parseRange (scope : Scope) : Parse Series := do
  let _ ← expect .leftBracket
  let index ← expect .name
  let _ ← expect .comma
  let inner := scope.withIndex index.text
  let lower ← Expr.parse inner
  expectRangeKeyword
  let upper ← Expr.parse inner
  let _ ← expect .comma
  let body ← Expr.parse inner
  let _ ← expect .rightBracket
  pure (.range index.text lower upper body)

def parse (scope : Scope) : Parse Series := fun stream =>
  match parseItems scope stream with
  | .ok series rest => .ok series rest
  | .error diagnostic stopped =>
    if diagnostic.fault.isNestingTooDeep then .error diagnostic stopped
    else parseRange scope stream

/-- The diagnostic that makes a series be read again as a range, if it is. -/
def retry? (scope : Scope) (stream : Stream) : Option Diagnostic :=
  match parseItems scope stream with
  | .ok _ _ => none
  | .error diagnostic _ => if diagnostic.fault.isNestingTooDeep then none else some diagnostic

/-! ### Progress -/

theorem advances_parseRange (scope : Scope) : (parseRange scope).Advances := by
  refine (advances_expect _).bind fun _ => ?_
  refine (advances_expect _).neverRewinds.bind fun index => ?_
  refine (advances_expect _).neverRewinds.bind fun _ => ?_
  refine (neverRewinds_item _).bind fun lower => ?_
  refine NeverRewinds.bind ?_ fun _ => ?_
  · refine (advances_expect _).neverRewinds.bind fun token => ?_
    split
    · exact neverRewinds_pure _
    · exact (advances_fail _ _).neverRewinds
  refine (neverRewinds_item _).bind fun upper => ?_
  refine (advances_expect _).neverRewinds.bind fun _ => ?_
  refine (neverRewinds_item _).bind fun body => ?_
  exact (advances_expect _).neverRewinds.bind fun _ => neverRewinds_pure _

theorem advances_parseItems (scope : Scope) : (parseItems scope).Advances :=
  (advances_delimited _ _ _ (neverRewinds_item scope)).bind fun _ => neverRewinds_pure _

/-- The second attempt starts where the first has started, so it has to come past the start too. -/
theorem advances_parse (scope : Scope) : (parse scope).Advances := by
  intro before series after success
  unfold parse at success
  split at success
  · rename_i read
    cases success
    exact advances_parseItems scope _ _ _ read
  · split at success
    · cases success
    · exact advances_parseRange scope _ _ _ success

end AudioMarkup.Series
