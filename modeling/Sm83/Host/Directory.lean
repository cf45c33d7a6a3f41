/-!
# Reading files

An image is the content of a file. Reading one may fail in the ways that a file system knows. A
`Directory` is a file system of which no more is known than the files in the current directory.
Every directory has a parent, the root being its own, so a path that only climbs always arrives at
a directory; a path that names anything outside the current directory arrives nowhere.

## Main definitions

* `ReadError`: why a file cannot be read
* `Directory`: files by name
* `Directory.outside`: where a path leads from a directory other than the current one
* `Directory.follow`: where a path leads from the current directory
* `Directory.read`: the content of the file at a path
-/

namespace Sm83

/-- Why a file cannot be read. -/
inductive ReadError where
  | notFound
  | isDirectory
  | notDirectory
  /-- The path, or one of its components, is too long. -/
  | nameTooLong
  /-- The path has a zero character, which no path may have. -/
  | zeroInPath
  /-- Any other failure, with the text and the number that the system gives it. -/
  | other (text : String) (code : Nat)
  deriving DecidableEq

/-- The failure with the number and the text that the system gives it. -/
def ReadError.ofCode (code : Nat) (text : String) : ReadError :=
  match code with
  | 2 => notFound
  | 20 => notDirectory
  | 21 => isDirectory
  | 36 => nameTooLong
  | _ => other text code

/-- The text of a failure and its number, as the system gives them. A zero character is found
before the system is asked, so that failure has no number. -/
def ReadError.message : ReadError → String
  | notFound => "No such file or directory (os error 2)"
  | isDirectory => "Is a directory (os error 21)"
  | notDirectory => "Not a directory (os error 20)"
  | nameTooLong => "File name too long (os error 36)"
  | zeroInPath => "file name contained an unexpected NUL byte"
  | other text code => text ++ " (os error " ++ toString code ++ ")"

/-- The most bytes of one component of a path. -/
def maxNameBytes : Nat := 255

/-- The most bytes of a path. -/
def maxPathBytes : Nat := 4095

/-- The files of one directory, by name. -/
structure Directory where
  files : List (String × List UInt8)

namespace Directory

/-- The failure of a path that goes on from a directory outside. Such a directory can be left
upwards, but nothing that it holds is known. -/
def outside : List String → ReadError
  | [] => .isDirectory
  | name :: rest =>
    if name ∈ ["", ".", ".."] then outside rest
    else if maxNameBytes < name.utf8ByteSize then .nameTooLong
    else .notFound

/-- Follows the components of a path from the directory itself. Empty components and single dots
stay where they are; a file has no components below it. -/
def follow (d : Directory) : List String → Except ReadError (List UInt8)
  | [] => .error .isDirectory
  | name :: rest =>
    if name ∈ ["", "."] then d.follow rest
    else if name = ".." then .error (outside rest)
    else if maxNameBytes < name.utf8ByteSize then .error .nameTooLong
    else
      match d.files.lookup name with
      | none => .error .notFound
      -- Even an empty component below a file asks for a directory.
      | some content => if rest = [] then .ok content else .error .notDirectory

/-- The content of the file at a path. A path that starts with a slash starts at the root. -/
def read (d : Directory) (path : String) : Except ReadError (List UInt8) :=
  if path.any (· = '\x00') then .error .zeroInPath
  else if maxPathBytes < path.utf8ByteSize then .error .nameTooLong
  else if path = "" then .error .notFound
  else if path.startsWith "/" then .error (outside (path.splitOn "/"))
  else d.follow (path.splitOn "/")

end Directory

end Sm83
