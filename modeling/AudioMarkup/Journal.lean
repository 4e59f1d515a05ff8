import AudioMarkup.Log
import AudioMarkup.Program.Parse

/-!
The journal of a reading: an event for each definition that was read, and one for each series that
was read again as a range. Readers keep no log; the journal is found from the tokens, so that
nothing about a program depends on it.

A text that spells no program has the journal of its beginning.
-/

namespace AudioMarkup

open Parse

def Diagnostic.retryEvent (diagnostic : Diagnostic) : Log.Event where
  level := .trace
  message := "not an array literal, retrying as comprehension"
  fields := [("line", .bare (toString diagnostic.line)), ("col", .bare (toString diagnostic.column))]

def Definition.readEvent (definition : Definition) : Log.Event where
  level := .debug
  message := "parsed definition"
  fields :=
    [("class", .bare definition.node.nodeClass.name),
     ("name", .quoted (definition.name?.getD "<anonymous>")),
     ("exported", .bare (if definition.exported then "true" else "false"))]

namespace Definition

def valueRetry? (scope : Scope) (property : Property) (stream : Stream) : Option Diagnostic :=
  if property.shape = .series then Series.retry? scope stream else none

def settingRetries (nodeClass : NodeClass) (scope : Scope) (stream : Stream) : List Diagnostic :=
  match settingRead : parseSetting nodeClass scope stream with
  | .error _ _ => firstRetry.toList
  | .ok _ afterSetting =>
    match markRead : expectAny [.comma, .rightBrace] afterSetting with
    | .error _ _ => firstRetry.toList
    | .ok mark rest =>
      have : rest.remaining < stream.remaining :=
        Nat.lt_of_lt_of_le (advances_expectAny _ _ _ _ markRead)
          (neverRewinds_parseSetting _ _ _ _ _ settingRead)
      if mark.kind = .rightBrace then firstRetry.toList
      else firstRetry.toList ++ settingRetries nodeClass scope rest
termination_by stream.remaining
where
  /-- The retry of the first value ahead. -/
  firstRetry : Option Diagnostic :=
    match parseProperty nodeClass stream with
    | .error _ _ => none
    | .ok property atValue => valueRetry? scope property atValue

/-- What stands before the settings of a definition. The class is given if there are settings. -/
def parseHead (context : String) (defined : List String) : Parse (Option NodeClass) := do
  let (_, nodeClass) ← parseClass
  let _ ← parseName context defined
  let _ ← expect .leftBrace
  match ← takeIf (·.kind == .rightBrace) with
  | some _ => pure none
  | none => pure (some nodeClass)

def retries (context : String) (defined : List String) (stream : Stream) : List Diagnostic :=
  match parseHead context defined stream with
  | .ok (some nodeClass) rest => settingRetries nodeClass (.ofNames defined) rest
  | _ => []

end Definition

namespace Program

def journalFrom (context : String) (defined : List String) (stream : Stream) : List Log.Event :=
  if stream.hasNext then
    (Definition.retries context defined stream).map Diagnostic.retryEvent ++
      match definitionRead : Definition.parse context defined stream with
      | .error _ _ => []
      | .ok definition rest =>
        have : rest.remaining < stream.remaining :=
          Definition.advances_parse _ _ _ _ _ definitionRead
        definition.readEvent :: journalFrom context (definition.name?.toList ++ defined) rest
  else []
termination_by stream.remaining

def journal (context : String) (tokens : List Token) : List Log.Event :=
  journalFrom context [] (.ofTokens tokens)

end Program
end AudioMarkup
