/-! # Files that a command can read

A path is followed name by name, starting in a directory that holds files and nothing else. What
lies outside that directory is not known, so nothing is found there. A path that does not lead to a
file ends in a fault, and every fault says whether opening or reading failed.
-/

namespace ScopeScript.CommandLine

/-- Why a path does not lead to the bytes of a file. -/
inductive FileFault where
  /-- A name on the path does not exist. -/
  | missing
  /-- The path goes on behind a file. -/
  | notDirectory
  /-- The path, or a name on it, is longer than names may be. -/
  | tooLong
  /-- The path leads to a directory. -/
  | directory
  /-- Anything else, in the words of whoever noticed it. -/
  | other (cause : String)
  deriving DecidableEq

namespace FileFault

/-- What failed. Directories can be opened but not read. -/
def action : FileFault → String
  | .directory => "map"
  | _ => "open"

/-- Why it failed. -/
def cause : FileFault → String
  | .missing => "No such file or directory (os error 2)"
  | .notDirectory => "Not a directory (os error 20)"
  | .tooLong => "File name too long (os error 36)"
  | .directory => "No such device (os error 19)"
  | .other cause => cause

end FileFault

/-- The files of a directory. -/
structure Directory where
  files : List (String × List UInt8)

/-- Where following a path has led. -/
inductive Place where
  /-- To the directory where paths start. -/
  | inside
  /-- To a directory of which nothing is known. -/
  | outside
  /-- To a file. -/
  | file (content : List UInt8)

namespace Directory

/-- The longest that a name on a path may be, in bytes. -/
def maxName : Nat := 255

/-- The longest that a path may be, in bytes. -/
def maxPath : Nat := 4095

/-- Follow one name. An empty name, as between two slashes, stays where it is. -/
def follow (directory : Directory) (place : Place) (name : String) : Except FileFault Place :=
  match place with
  | .file _ => .error .notDirectory
  | place =>
    if name = "" ∨ name = "." then .ok place
    else if name = ".." then .ok .outside
    else if maxName < name.utf8ByteSize then .error .tooLong
    else
      match place, directory.files.lookup name with
      | .inside, some content => .ok (.file content)
      | _, _ => .error .missing

/-- Follow names in turn. -/
def followAll (directory : Directory) (place : Place) : List String → Except FileFault Place
  | [] => .ok place
  | name :: rest =>
    match directory.follow place name with
    | .error fault => .error fault
    | .ok place => directory.followAll place rest

/-- The bytes of the file that a path leads to. -/
def read (directory : Directory) (path : String) : Except FileFault (List UInt8) :=
  if maxPath < path.utf8ByteSize then .error .tooLong
  else
    let start := if path.startsWith "/" then Place.outside else .inside
    match directory.followAll start (path.splitOn "/") with
    | .error fault => .error fault
    | .ok (.file content) => .ok content
    | .ok _ => .error .directory

end Directory

end ScopeScript.CommandLine
