import ActionItems.FileTree
import ActionItems.IgnoreRule

/-! # Rules of directories

A directory may hold three files of ignore rules. Rules are about the entries below their directory,
and the path that they are matched with starts there. Of two files of the same name the nearer one
decides, and a file of a higher rank decides before all files of a lower one. -/

namespace ActionItems

open FileTree

/-! ### Spelling -/

/-- A path without a lone dot in front. -/
def dropDot (path : Bytes) : Bytes := ([0x2E, slash].isPrefixOf? path).getD path

/-- A path without a slash in front. -/
def dropSlash (path : Bytes) : Bytes := ([slash].isPrefixOf? path).getD path

/-- A path without a directory in front. -/
def dropDirectory (dir path : Bytes) : Bytes :=
  match (dropDot dir).isPrefixOf? path with
  | some r => dropSlash r
  | none => path

/-- Whether a path is a spelling of the current directory that starts with a dot. -/
def isDot (path : Bytes) : Bool :=
  match pieces path with
  | [] => false
  | p :: ps => p == [0x2E] && ps.all isIdle

/-- The path of an entry of a directory. -/
def joinName (dir : Bytes) (name : Name) : Bytes :=
  if dir = [] ∨ dir.getLast? = some slash then dir ++ name else dir ++ slash :: name

/-- The path that the rules of a directory are matched with. -/
def pathBelow (dir path : Bytes) : Bytes :=
  let path := dropDot path
  if isDot (dropDot dir) || !path.contains slash then path else dropDirectory dir path

/-! ### Files of rules -/

/-- The rules in the files of a directory, by falling rank. -/
structure DirectoryRules where
  /-- The spelling of the directory. -/
  dir : Bytes
  /-- Whether the directory lies above the root of the walk. -/
  isAbove : Bool
  general : List IgnoreRule
  shared : List IgnoreRule
  personal : List IgnoreRule

namespace DirectoryRules

/-- The rules in a file of a directory, none if it cannot be read. -/
def fileRules (t : FileTree) (l : Location) (names : List String) : List IgnoreRule :=
  match t.read (fullPath (l ++ names.map fun n => Utf8.encode n.toList)) with
  | .ok content => IgnoreRule.ofFile content
  | .error _ => []

/-- The rules in the files of the directory at a location. -/
def load (t : FileTree) (dir : Bytes) (isAbove : Bool) (l : Location) : DirectoryRules where
  dir := dir
  isAbove := isAbove
  general := fileRules t l [".ignore"]
  shared := fileRules t l [".gitignore"]
  personal := fileRules t l [".git", "info", "exclude"]

/-- The rules of the directories above a location, the nearest first. -/
def above (t : FileTree) (l : Location) : List DirectoryRules :=
  (List.range l.length).reverse.map fun n => load t (fullPath (l.take n)) true (l.take n)

/-- What the rules of one rank say about a path; `full` is its full path. -/
def verdictOf (rank : DirectoryRules → List IgnoreRule) (rules : List DirectoryRules)
    (path full : Bytes)
    (isDirectory : Bool) : Option Verdict :=
  rules.findSome? fun d =>
    IgnoreRule.verdict (rank d) (pathBelow d.dir (if d.isAbove then full else path)) isDirectory

/-- What the rules say about a path, nearest directory first. -/
def verdict (rules : List DirectoryRules) (path full : Bytes) (isDirectory : Bool) :
    Option Verdict :=
  (verdictOf general rules path full isDirectory).or
    ((verdictOf shared rules path full isDirectory).or
      (verdictOf personal rules path full isDirectory))

end DirectoryRules

end ActionItems
