import ActionItems.DirectoryRules
import ActionItems.Fault
import ActionItems.Settings

/-! # The walk through a directory

A walk visits the entries below a root. It leaves out what a pattern of the settings or an ignore
file excludes, and hidden entries that no ignore file keeps; nothing below a directory that is left
out is visited. A link is followed only if the settings say so, and never back to a directory on the
way to it.

The files that a scan reads are those of the walk that have one of the extensions, each once, in the
order of their components. A fault below the root costs one entry; a fault of the root itself ends
the walk. -/

namespace ActionItems

open FileTree

/-! ### What a walk visits -/

/-- What a walk takes an entry for. -/
inductive EntryKind where
  | file
  | directory
  /-- A link that is not followed. -/
  | link
  /-- Anything else: a pipe, a socket, a device or the standard input. -/
  | other
  deriving DecidableEq

/-- An entry that a walk visits. -/
structure WalkEntry where
  path : Bytes
  kind : EntryKind
  deriving DecidableEq

/-- One result of a walk. -/
abbrev WalkResult := Except WalkFault WalkEntry

/-- A walk that is ready to start. -/
structure Walk where
  root : Path
  /-- The extensions of the files to find. -/
  extensions : List Text
  /-- The rules of what is left out. -/
  excludes : List IgnoreRule
  followLinks : Bool
  respectIgnoreFiles : Bool

namespace Walk

/-! ### Patterns of the settings -/

/-- The line of a pattern in messages and for the reader of rules. -/
def excludeLine (glob : Text) : Text := '!' :: glob

/-- The rule of a pattern. -/
def excludeRule (glob : Text) : Except SettingsFault (Option IgnoreRule) :=
  match IgnoreRule.parse false (excludeLine glob) with
  | .ok r => .ok r
  | .error e =>
    .error (.invalidGlob glob ("error parsing glob '".toList ++
      IgnoreRule.trimLine (excludeLine glob) ++
      "': ".toList ++ e.message))

/-- The rules of patterns; the first that cannot be read is told. -/
def excludeRules : List Text → Except SettingsFault (List IgnoreRule)
  | [] => .ok []
  | g :: gs => do
    let r ← excludeRule g
    let rs ← excludeRules gs
    .ok (r.toList ++ rs)

/-- The rules of patterns that make a set. If each of them can be read but together they make no
set, all of them are told. -/
def excludeSet (globs : List Text) : Except SettingsFault (List IgnoreRule) :=
  match excludeRules globs with
  | .error f => .error f
  | .ok rules =>
    match Glob.setFault? (rules.map (·.pattern)) with
    | some reason => .error (.invalidGlob (Text.join [','] globs) reason)
    | none => .ok rules

/-- The walk that settings ask for. -/
def ofSettings (s : Settings) : Except SettingsFault Walk :=
  (excludeSet s.ignore).map fun excludes =>
    { root := s.root, extensions := s.wantedExtensions, excludes, followLinks := s.followLinks,
      respectIgnoreFiles := s.respectIgnoreFiles }

/-! ### Choice of entries -/

/-- Whether an entry is hidden. -/
def isHidden (name : Name) : Bool := name.head? == some 0x2E

/-- Whether a pattern of the settings excludes a path. -/
def excluded (w : Walk) (path : Bytes) (isDirectory : Bool) : Bool :=
  w.excludes.any fun r => r.applies (pathBelow (Utf8.encode w.root) path) isDirectory

/-- A directory on the way of a walk. -/
structure Place where
  path : Bytes
  /-- The number of steps from the root. -/
  depth : Nat
  /-- The locations of the directories on the way, this one first. -/
  way : List Location
  /-- The rules of this directory and of those above it, the nearest first. -/
  rules : List DirectoryRules
  /-- The full path of the root. -/
  base : Bytes

/-- The full path of an entry. -/
def fullPath (w : Walk) (p : Place) (path : Bytes) : Bytes :=
  let root := Utf8.encode w.root
  joinName p.base (if isDot root then path else dropDirectory root path)

/-- Whether an entry is left out. -/
def skips (w : Walk) (p : Place) (name : Name) (isDirectory : Bool) : Bool :=
  let path := dropDot (joinName p.path name)
  w.excluded path isDirectory ||
    match DirectoryRules.verdict p.rules path (w.fullPath p path) isDirectory with
    | some .ignore => true
    | some .keep => false
    | none => isHidden name

/-! ### Visiting -/

/-- The fault of an entry that the system refuses to look at. -/
def refusal (path : Bytes) (depth : Nat) (e : SystemError) : WalkFault :=
  let p := Utf8.decodeLossy path
  .atDepth depth (.atPath p
    (.system ("IO error for operation on ".toList ++ p ++ ": ".toList ++ e.message)))

/-- What the walk takes the entry of a directory for. -/
def kindOf (w : Walk) (t : FileTree) (p : Place) (l : Location) (name : Name) :
    Except WalkFault EntryKind :=
  let path := joinName p.path name
  match t.find? (l ++ [name]) with
  | some .directory => .ok .directory
  | some (.link _) =>
    if w.followLinks then
      match t.open? path with
      | .error e => .error (refusal path (p.depth + 1) e)
      | .ok (target, .directory) =>
        if target ∈ p.way then
          .error (.atDepth (p.depth + 1)
            (.loop (Utf8.decodeLossy path) (Utf8.decodeLossy (pathOf target))))
        else .ok .directory
      | .ok _ => .ok .file
    else .ok .link
  | _ => .ok .file

/-- The rules that hold in a directory at a location, given those from above. -/
def rulesIn (w : Walk) (t : FileTree) (path : Bytes) (l : Location) (above : List DirectoryRules) :
    List DirectoryRules :=
  if w.respectIgnoreFiles then DirectoryRules.load t path false l :: above else []

/-- The place of a directory in another. -/
def Place.enter (p : Place) (w : Walk) (t : FileTree) (name : Name) (l : Location) : Place :=
  let path := joinName p.path name
  { p with path, depth := p.depth + 1, way := l :: p.way, rules := w.rulesIn t path l p.rules }

/-- The results of a walk below a directory, at most as many steps down as the fuel says. -/
def descend (w : Walk) (t : FileTree) : Nat → Place → List WalkResult
  | 0, _ => []
  | fuel + 1, p =>
    match t.open? p.path with
    | .error e => [.error (refusal p.path (p.depth + 1) e)]
    | .ok (l, _) =>
      (t.names l).flatMap fun name =>
        match w.kindOf t p l name with
        | .error f => [.error f]
        | .ok kind =>
          if w.skips p name (kind == .directory) then []
          else
            .ok ⟨joinName p.path name, kind⟩ ::
              if kind = .directory then
                match t.open? (joinName p.path name) with
                | .error e => [.error (refusal (joinName p.path name) (p.depth + 2) e)]
                | .ok (l', _) => descend w t fuel (p.enter w t name l')
              else []

/-- A number of steps that no way down exceeds: between two links a way goes down through different
directories, and no two links on it lead to the same one. -/
def maxSteps (t : FileTree) : Nat := (t.entries.length + 1) * (t.entries.length + 2)

/-- Whether a root stands for the standard input, which holds no files. -/
def isStandardInput (root : Path) : Bool := Path.components root == [.name ['-']]

/-- The results of a walk. -/
def results (w : Walk) (t : FileTree) : List WalkResult :=
  let path := Utf8.encode w.root
  if isStandardInput w.root then []
  else
    match t.open? path with
    | .error e => [.error (refusal path 0 e)]
    | .ok (l, .directory) =>
      let above := if w.respectIgnoreFiles then DirectoryRules.above t l else []
      .ok ⟨path, .directory⟩ ::
        w.descend t (maxSteps t)
          { path, depth := 0, way := [l], rules := w.rulesIn t path l above,
            base := FileTree.fullPath l }
    | .ok _ => [.ok ⟨path, .file⟩]

/-! ### Collecting files -/

/-- Whether the file at a path has one of the extensions. -/
def hasExtension (extensions : List Text) (p : Path) : Bool :=
  match Path.extension? p with
  | some e => extensions.contains (Text.lower e)
  | none => false

/-- The path of an entry that is a file with one of the extensions and whose path is text. -/
def fileOf? (extensions : List Text) (e : WalkEntry) : Option Path :=
  if e.kind = .file then (Utf8.decode? e.path).filter (hasExtension extensions) else none

/-- The fault of the root among results, if one of them is. -/
def rootFault? : List WalkResult → Option WalkFault
  | [] => none
  | .error f :: rest => if f.isOfRoot then some f else rootFault? rest
  | .ok _ :: rest => rootFault? rest

/-- The entries among results. -/
def entriesOf : List WalkResult → List WalkEntry
  | [] => []
  | .error _ :: rest => entriesOf rest
  | .ok e :: rest => e :: entriesOf rest

/-- The paths without repetitions; of two spellings of the same path the first stays. -/
def distinct (ps : List Path) : List Path :=
  ps.eraseDupsBy fun p q => Path.components p == Path.components q

/-- The paths in the order of their components. -/
def sortPaths (ps : List Path) : List Path := ps.mergeSort fun p q => !Path.lt q p

/-- The files among the results of a walk, in order. -/
def collect (extensions : List Text) (rs : List WalkResult) : Except WalkFault (List Path) :=
  match rootFault? rs with
  | some f => .error f
  | none => .ok (sortPaths (distinct ((entriesOf rs).filterMap (fileOf? extensions))))

/-- The files that a walk finds. -/
def files (w : Walk) (t : FileTree) : Except WalkFault (List Path) :=
  collect w.extensions (w.results t)

end Walk

end ActionItems
