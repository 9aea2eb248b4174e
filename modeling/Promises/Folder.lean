namespace Promises

/-- Why a file cannot be read as text. -/
inductive ReadError
  | notFound
  | denied
  /-- A file stands where the path goes on. -/
  | notFolder
  /-- The path ends in a folder. -/
  | isFolder
  | nameTooLong
  | notText
deriving DecidableEq

def ReadError.message : ReadError → String
  | notFound => "No such file or directory (os error 2)"
  | denied => "Permission denied (os error 13)"
  | notFolder => "Not a directory (os error 20)"
  | isFolder => "Is a directory (os error 21)"
  | nameTooLong => "File name too long (os error 36)"
  | notText => "stream did not contain valid UTF-8"

/-- The text in a file. -/
def textOf (content : Except ReadError ByteArray) : Except ReadError String := do
  match String.fromUTF8? (← content) with
  | some text => .ok text
  | none => .error .notText

/-- The names of a path, which have slashes between them. -/
def pathNames : List Char → List (List Char)
  | [] => [[]]
  | '/' :: rest => [] :: pathNames rest
  | c :: rest =>
    match pathNames rest with
    | name :: more => (c :: name) :: more
    | [] => [[c]]

/-- A folder that holds files only. -/
structure Folder where
  /-- What the file of a name holds. -/
  file? : String → Option ByteArray

namespace Folder

/-- Where a path may lead. -/
inductive Place
  | inside
  /-- A folder around this one, of which nothing is known. -/
  | outside
  | file (content : ByteArray)

/-- The most bytes that a name takes. -/
def maxNameSize : Nat := 255

/-- How many bytes are too many for a path. -/
def pathSizeLimit : Nat := 4096

/-- Where a name leads from a place. No name leads on from a file, not even the empty one after a
slash at the end. -/
def enter (folder : Folder) (place : Place) (name : String) : Except ReadError Place :=
  match place with
  | .file _ => .error .notFolder
  | place =>
    if name = "" ∨ name = "." then .ok place
    else if name = ".." then .ok .outside
    else if maxNameSize < name.utf8ByteSize then .error .nameTooLong
    else
      match place, folder.file? name with
      | .inside, some content => .ok (.file content)
      | _, _ => .error .notFound

/-- Where a path leads. The empty path leads to the folder itself. -/
def follow (folder : Folder) (path : String) : Except ReadError Place :=
  if pathSizeLimit ≤ path.utf8ByteSize then .error .nameTooLong
  else ((pathNames path.toList).map String.ofList).foldlM folder.enter .inside

/-- What the file at a path holds. -/
def read (folder : Folder) (path : String) : Except ReadError ByteArray := do
  match ← folder.follow path with
  | .file content => .ok content
  | _ => .error .isFolder

end Folder

end Promises
