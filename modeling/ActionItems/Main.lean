import ActionItems.Program

/-! # The command

The command looks at the files that its command line is about, runs the program on them, and then
prints and writes what the program leaves behind. -/

namespace ActionItems.Command

/-- The location of a full path. -/
def locationOf (path : String) : Location :=
  (FileTree.pieces (Utf8.encode path.toList)).filter (!FileTree.isIdle ·)

/-- The full path of an entry of a directory. -/
def pathIn (dir name : String) : String :=
  if dir.endsWith "/" then dir ++ name else dir ++ "/" ++ name

/-- The path that stands for that of a link which leads nowhere. -/
def nowhere : Bytes := [0, FileTree.slash, 0]

/-- The entry of a directory, if the system says what it is. -/
def entryOf (e : IO.FS.DirEntry) : IO (Option Entry) := do
  try
    match (← e.path.symlinkMetadata).type with
    | .dir => return some .directory
    | .file =>
      try return some (.file (← IO.FS.readBinFile e.path).toList)
      catch _ => return some .locked
    | .symlink =>
      try return some (.link (Utf8.encode (← IO.FS.realPath e.path).toString.toList))
      catch _ => return some (.link nowhere)
    | .other => return none
  catch _ => return none

/-- The directories on the way down to one, with the directory itself. -/
def directoriesTo (l : Location) : List (Location × Entry) :=
  (List.range l.length).map fun n => (l.take (n + 1), .directory)

/-- The entries on the way of a full path. Each of them is found in the directory that the path has
led to so far, whatever links were on the way. -/
def along (path : String) : IO (List (Location × Entry)) := do
  let mut dir := "/"
  let mut found := []
  for name in path.splitOn "/" do
    let e : IO.FS.DirEntry := ⟨dir, name⟩
    found := found ++ directoriesTo (locationOf dir)
    if FileTree.IsName (Utf8.encode name.toList) then
      match ← entryOf e with
      | some entry => found := found ++ [(locationOf dir ++ [Utf8.encode name.toList], entry)]
      | none => return found
    if ← e.path.isDir then dir := (← IO.FS.realPath e.path).toString else return found
  return found

/-- The entries below a directory, given by its full path without links. -/
partial def below (dir : String) : IO (List (Location × Entry)) := do
  let e : IO.FS.DirEntry := ⟨dir, "."⟩
  let inside ← try e.path.readDir catch _ => pure #[]
  let found ← inside.toList.mapM fun e => do
    match ← entryOf e with
    | none => return []
    | some entry =>
      let l := locationOf dir ++ [Utf8.encode e.fileName.toList]
      let inner ← if entry = .directory then below (pathIn dir e.fileName) else pure []
      return (l, entry) :: inner
  return found.flatten

/-- The full paths that links among entries lead to. -/
def targets (entries : List (Location × Entry)) : List String :=
  entries.filterMap fun (_, e) =>
    match e with
    | .link target =>
      if target = nowhere then none else some (String.ofList (Utf8.decodeLossy target))
    | _ => none

/-- The entries along full paths and below them, and where links are followed also those that the
links lead to. -/
partial def around (followLinks : Bool) (seen : List String) :
    List String → IO (List (Location × Entry))
  | [] => return []
  | path :: rest => do
    if seen.contains path then around followLinks seen rest
    else
      let found := (← along path) ++ (← below path)
      let more := if followLinks then targets found else []
      return found ++ (← around followLinks (path :: seen) (rest ++ more))

/-- The files of rules of a directory and of those above it. -/
def rulesAbove (dir : String) : IO (List (Location × Entry)) := do
  let names := dir.splitOn "/"
  let found ← (List.range names.length).mapM fun n => do
    let above := "/".intercalate (names.take (n + 1))
    [".ignore", ".gitignore", ".git/info/exclude"].mapM fun name => along (pathIn above name)
  return found.flatten.flatten

/-- The files that arguments are about. -/
def readTree (a : Arguments) : IO FileTree := do
  let current := (← IO.currentDir).toString
  let full (path : Path) : String :=
    let s := String.ofList path
    if s.startsWith "/" then s else pathIn current s
  let root := full a.settings.root
  let inside ← try
      let dir := (← IO.FS.realPath root).toString
      pure ((← around a.followLinks [] [dir]) ++ (← rulesAbove dir))
    catch _ => pure []
  let entries :=
    (← along (pathIn current ".")) ++ (← along root) ++ (← along (full a.out)) ++ inside
  return entries.foldl (fun t (l, e) => t.put l e) (FileTree.empty.enter (locationOf current))

end ActionItems.Command

open ActionItems

/-- Runs the program on the files that its command line is about. -/
def main (words : List String) : IO UInt32 := do
  let words := words.map String.toList
  let rootVariable := (← IO.getEnv "COMMENT_TODO_ROOT").map String.toList
  let t ← match Arguments.parse rootVariable words with
    | .ok a => Command.readTree a
    | .error _ => pure FileTree.empty
  let r := Program.run t rootVariable words
  IO.print (String.ofList r.output)
  for (path, content) in t.changes r.tree do
    IO.FS.writeBinFile (String.ofList (Utf8.decodeLossy path)) ⟨content.toArray⟩
  for e in r.errors do
    IO.eprintln (String.ofList e)
  return r.exit.toUInt32
