/-!
# Local copies

A local copy is a new file in a directory, with a name that starts with a given text. It can be
created if the directory of the resulting path exists; the text may itself contain separators.

* `Directories`: the directories that exist; `Directories.walk` follows a path.
* `Scratch.canCreate`: whether a copy with a name can be created.
* `Scratch.path`: the path of a copy.
-/

namespace ObjectFeed

/-- The directories that exist, as names from the root. -/
structure Directories where
  known : List (List String)
  /-- Where relative paths start. -/
  working : List String
  /-- Where copies are created if nothing else is set. -/
  default : String

namespace Directories

/-- The names between the separators of a path. -/
def names : List Char → List String
  | [] => [""]
  | c :: cs =>
    if c = '/' then "" :: names cs
    else
      match names cs with
      | [] => [String.singleton c]
      | n :: ns => (String.singleton c ++ n) :: ns

/-- The directory that names lead to from another one, if all on the way exist. -/
def walk (d : Directories) : (start : List String) → List String → Option (List String)
  | start, [] => some start
  | start, n :: ns =>
    if n = "" ∨ n = "." then walk d start ns
    else if n = ".." then walk d start.dropLast ns
    else if start ++ [n] ∈ d.known then walk d (start ++ [n]) ns
    else none

/-- A path that starts at the root. -/
def isAbsolute (path : String) : Bool := path.toList.head? == some '/'

/-- The directory at a path. -/
def find? (d : Directories) (path : String) : Option (List String) :=
  d.walk (if isAbsolute path then [] else d.working) (names path.toList)

/-- The path of a name in a directory; a name that starts at the root is a path already. -/
def join (directory name : String) : String :=
  if isAbsolute name ∨ directory = "" then name
  else if directory.toList.getLast? = some '/' then directory ++ name
  else directory ++ "/" ++ name

/-- The path of the directory where relative paths start. -/
def workingPath (d : Directories) : String := "/" ++ "/".intercalate d.working

/-- The longest name of a file, in bytes. -/
def maxName : Nat := 255

/-- The text can be a path of a new file as far as its names go. -/
def isPath (path : String) : Bool :=
  !path.toList.contains '\x00' && (names path.toList).all fun n => n.utf8ByteSize ≤ maxName

end Directories

/-- Where local copies are created. -/
structure Scratch where
  directory : Option String
  directories : Directories

namespace Scratch

/-- A name of a copy: a text that is given, a random one, and the ending. -/
def fileName (start random : String) : String := start ++ random ++ ".parquet"

/-- The random texts have this form. -/
def sampleRandom : String := "xxxxxx"

/-- A copy whose name starts with a text can be created. -/
def canCreate (s : Scratch) (start : String) : Bool :=
  let file := fileName start sampleRandom
  let inside :=
    if Directories.isAbsolute file then some []
    else s.directories.find? (s.directory.getD s.directories.default)
  let target := inside.bind fun d =>
    s.directories.walk d (Directories.names file.toList).dropLast
  Directories.isPath file && target.isSome

/-- The path of a copy from the root, with an asterisk for the random part of its name. -/
def path (s : Scratch) (start : String) : String :=
  let path := Directories.join (s.directory.getD s.directories.default) (fileName start "*")
  if Directories.isAbsolute path then path else Directories.join s.directories.workingPath path

end Scratch

end ObjectFeed
