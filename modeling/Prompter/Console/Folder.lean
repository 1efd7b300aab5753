import Prompter.Table
import Prompter.Text.Cut

/-!
# Prompter.Console.Folder

What the console program finds under a path, and why it cannot read what it finds.

A path is a sequence of names with slashes between them. It is followed name by name from the folder
that the program runs in, or from the root if it starts with a slash; an empty name and `.` stay,
and `..` goes up. Only a folder has names in it, so a slash after the name of a file leads nowhere.
Of the folders above nothing is known but that they are folders.
-/

namespace Prompter.Console

inductive ReadFailure
  | missing
  | denied
  /-- A file stands where a path needs a folder. -/
  | notFolder
  | isFolder
  | nameTooLong
  /-- The content is not UTF-8. -/
  | notText
  | other (reason : String)
deriving DecidableEq

def ReadFailure.message : ReadFailure → String
  | missing => "No such file or directory (os error 2)"
  | denied => "Permission denied (os error 13)"
  | notFolder => "Not a directory (os error 20)"
  | isFolder => "Is a directory (os error 21)"
  | nameTooLong => "File name too long (os error 36)"
  | notText => "stream did not contain valid UTF-8"
  | other reason => reason

/-- What a path leads to. -/
inductive Place
  /-- A folder: the program's own, or one on the way up from it. -/
  | folder (own : Bool)
  | file (text : String)
deriving DecidableEq

/-- The folder that the program runs in: the texts of its files by name. -/
structure Folder where
  files : Table String := .empty
deriving DecidableEq

namespace Folder

/-- The most bytes in a name. -/
def longestName : Nat := 255

/-- The most bytes in a path. -/
def longestPath : Nat := 4095

/-- The place that a name leads to from a place. -/
def follow (f : Folder) (p : Place) (name : String) : Except ReadFailure Place :=
  match p with
  | .file _ => .error .notFolder
  | .folder own =>
    if name = "" || name = "." then .ok (.folder own)
    else if name = ".." then .ok (.folder false)
    else if longestName < name.utf8ByteSize then .error .nameTooLong
    else
      match own, f.files.find? name with
      | true, some text => .ok (.file text)
      | _, _ => .error .missing

/-- The place that names lead to, one after the other. -/
def followAll (f : Folder) (p : Place) : List String → Except ReadFailure Place
  | [] => .ok p
  | name :: names =>
    match f.follow p name with
    | .error e => .error e
    | .ok p => f.followAll p names

def names (path : String) : List String :=
  (Text.segments (· == '/') path.toList).map String.ofList

/-- The text of the file at a path, or why there is none. -/
def read (f : Folder) (path : String) : Except ReadFailure String :=
  if path = "" then .error .missing
  else if longestPath < path.utf8ByteSize then .error .nameTooLong
  else
    match f.followAll (.folder (path.toList.head? ≠ some '/')) (names path) with
    | .error e => .error e
    | .ok (.folder _) => .error .isFolder
    | .ok (.file text) => .ok text

end Folder

end Prompter.Console
