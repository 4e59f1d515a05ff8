/-!
Files and folders. A disk is a value: writing gives a new one. Paths are texts with slashes, from
the folder in which the program runs.
-/

namespace AudioMarkup

attribute [local instance (high)] ByteArray.instDecidableEq

inductive Disk.Entry where
  | file (content : ByteArray)
  | folder
  deriving DecidableEq, Inhabited

/-- The files and folders by the names on the way to them. A folder on the way to an entry exists
without an entry of its own. -/
structure Disk where
  entries : List (List String × Disk.Entry)
  deriving Inhabited

inductive Disk.Fault where
  | notFound
  | isFolder
  | notFolder
  | notText
  | nameTooLong
  | nullInPath
  deriving DecidableEq, Repr, Inhabited

namespace Disk

def Fault.label : Fault → String
  | .notFound => "NotFound"
  | .isFolder => "IsADirectory"
  | .notFolder => "NotADirectory"
  | .notText => "InvalidData"
  | .nameTooLong => "InvalidFilename"
  | .nullInPath => "InvalidInput"

def Fault.message : Fault → String
  | .notFound => "No such file or directory (os error 2)"
  | .isFolder => "Is a directory (os error 21)"
  | .notFolder => "Not a directory (os error 20)"
  | .notText => "stream did not contain valid UTF-8"
  | .nameTooLong => "File name too long (os error 36)"
  | .nullInPath => "file name contained an unexpected NUL byte"

/-! ### Paths -/

def parts (path : String) : List String :=
  ((path.toList.splitBy fun left right => left != '/' && right != '/').map String.ofList).filter
    (· != "/")

/-- The names at which a path starts: a path from the root has the root as first name. -/
def origin (path : String) : List String :=
  if path.toList.head? == some '/' then ["/"] else []

/-- Follows one more part of a path. A dot stays, and two dots lead back, if there is a name to go
back from. -/
def follow (names : List String) (part : String) : List String :=
  if part == "." then names
  else if part != ".." then names ++ [part]
  else
    match names.getLast? with
    | none | some ".." => names ++ [".."]
    | some "/" => names
    | some _ => names.dropLast

def names (path : String) : List String := (parts path).foldl follow (origin path)

def waypoints (path : String) : List (List String) :=
  (List.range ((parts path).length + 1)).map fun count =>
    ((parts path).take count).foldl follow (origin path)

def endsInSlash (path : String) : Bool := path.toList.getLast? == some '/'

def checkPath (path : String) : Except Fault Unit :=
  if path.toList.contains '\x00' then throw .nullInPath
  else if path.isEmpty then throw .notFound
  else if 4096 ≤ path.utf8ByteSize then throw .nameTooLong
  else pure ()

/-! ### Reading and writing -/

/-- What is at the end of some names, wherever they lead through. The folder of the run, those
around it and the root always exist. -/
def entryAt? (disk : Disk) (names : List String) : Option Entry :=
  match disk.entries.lookup names with
  | some entry => some entry
  | none =>
    if names.all (· == "..") || names == ["/"] ||
        disk.entries.any fun (key, _) => names.isPrefixOf key then
      some .folder
    else none

/-- Follows one more part of a path, which only a folder allows. A name has at most 255 bytes. -/
def enter (disk : Disk) (names : List String) (part : String) : Except Fault (List String) :=
  match disk.entryAt? names with
  | none => throw .notFound
  | some (.file _) => throw .notFolder
  | some .folder => if 255 < part.utf8ByteSize then throw .nameTooLong else pure (follow names part)

def find (disk : Disk) (path : String) : Except Fault Entry := do
  checkPath path
  let names ← (parts path).foldlM disk.enter (origin path)
  match disk.entryAt? names with
  | none => throw .notFound
  | some (.file content) =>
    if endsInSlash path then throw .notFolder else pure (.file content)
  | some .folder => pure .folder

def contains (disk : Disk) (path : String) : Bool := (disk.find path).isOk

def decodeText (content : ByteArray) : Except Fault String :=
  match String.fromUTF8? content with
  | some text => pure text
  | none => throw .notText

def readText (disk : Disk) (path : String) : Except Fault String := do
  match ← disk.find path with
  | .folder => throw .isFolder
  | .file content => decodeText content

/-- The last part of the path leads to a folder, whatever the folder before it holds. -/
def endsInFolder (path : String) : Bool :=
  endsInSlash path || match (parts path).getLast? with
    | none | some "." | some ".." => true
    | some _ => false

def target (disk : Disk) (path : String) : Except Fault (List String) := do
  checkPath path
  let folder ← (parts path).dropLast.foldlM disk.enter (origin path)
  let last := (parts path).getLast?.getD "."
  if endsInFolder path then
    let _ ← disk.enter folder "."
    throw .isFolder
  let names ← disk.enter folder last
  if disk.entryAt? names == some .folder then throw .isFolder
  pure names

def writeText (disk : Disk) (path text : String) : Except Fault Disk := do
  let names ← disk.target path
  pure { entries := (names, .file text.toUTF8) :: disk.entries.filter (·.1 != names) }

end Disk
end AudioMarkup
