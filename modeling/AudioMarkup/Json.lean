import AudioMarkup.Binary64.Text
import AudioMarkup.Text.Basic

/-!
JSON values and their two texts: compact, without any blank, and pretty, with one element or field
on a line. The fields of an object keep their order.
-/

namespace AudioMarkup

inductive Json where
  | null
  | bool (value : Bool)
  | natural (value : Nat)
  | number (value : Binary64)
  | text (value : String)
  | list (items : List Json)
  | object (fields : List (String × Json))
  deriving Repr, Inhabited

namespace Json

def tagged (tag : String) (value : Json) : Json := .object [(tag, value)]

def optional : Option Json → Json
  | none => .null
  | some value => value

def atom : Json → String
  | .null => "null"
  | .bool value => if value then "true" else "false"
  | .natural value => toString value
  | .number value => value.treeText
  | .text value => Text.quote value
  | .list _ => "[]"
  | .object _ => "\x7b\x7d"

mutual

def compactPieces : Json → List String
  | .list (item :: rest) => "[" :: item.compactPieces ++ compactItems rest ++ ["]"]
  | .object ((key, value) :: rest) =>
    "\x7b" :: Text.quote key :: ":" :: value.compactPieces ++ compactFields rest ++ ["\x7d"]
  | value => [value.atom]

def compactItems : List Json → List String
  | [] => []
  | item :: rest => "," :: item.compactPieces ++ compactItems rest

def compactFields : List (String × Json) → List String
  | [] => []
  | (key, value) :: rest =>
    "," :: Text.quote key :: ":" :: value.compactPieces ++ compactFields rest

end

def compact (value : Json) : String := String.join value.compactPieces

def lineBreak (level : Nat) : String := String.ofList ('\n' :: List.replicate (2 * level) ' ')

mutual

/-- The pretty text of a value that starts on a line of the given level, in pieces. -/
def prettyPieces (level : Nat) : Json → List String
  | .list (item :: rest) =>
    "[" :: lineBreak (level + 1) :: item.prettyPieces (level + 1) ++ prettyItems (level + 1) rest ++
      [lineBreak level, "]"]
  | .object ((key, value) :: rest) =>
    "\x7b" :: lineBreak (level + 1) :: Text.quote key :: ": " :: value.prettyPieces (level + 1) ++
      prettyFields (level + 1) rest ++ [lineBreak level, "\x7d"]
  | value => [value.atom]

def prettyItems (level : Nat) : List Json → List String
  | [] => []
  | item :: rest => "," :: lineBreak level :: item.prettyPieces level ++ prettyItems level rest

def prettyFields (level : Nat) : List (String × Json) → List String
  | [] => []
  | (key, value) :: rest =>
    "," :: lineBreak level :: Text.quote key :: ": " :: value.prettyPieces level ++
      prettyFields level rest

end

def pretty (value : Json) : String := String.join (value.prettyPieces 0)

end Json
end AudioMarkup
