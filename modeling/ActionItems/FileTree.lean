import ActionItems.Text.Utf8

/-! # File trees

A file tree holds the files, directories and links below the top directory, and says which of its
directories is the current one. An entry has a location: the names on the way down to it from the
top. A path leads to a location step by step, from the top if it starts with a slash and from the
current directory otherwise; a link on the way is replaced by the path it holds, at most forty
times. -/

namespace ActionItems

open Text

/-- The name of an entry in its directory. -/
abbrev Name := Bytes

/-- The names on the way from the top down to an entry. -/
abbrev Location := List Name

/-- What is found at a location. -/
inductive Entry where
  | file (content : Bytes)
  /-- A file that may be neither read nor written. -/
  | locked
  | directory
  /-- A link and the path that it holds. -/
  | link (target : Bytes)
  deriving DecidableEq

/-- The reasons for which the system refuses an operation. -/
inductive SystemError where
  | notFound
  | accessDenied
  | notADirectory
  | isADirectory
  | nameTooLong
  | tooManyLinks
  /-- A path holds a zero byte. -/
  | zeroByte
  deriving DecidableEq

/-- The wording of a refusal. -/
def SystemError.message : SystemError → Text
  | .notFound => "No such file or directory (os error 2)".toList
  | .accessDenied => "Permission denied (os error 13)".toList
  | .notADirectory => "Not a directory (os error 20)".toList
  | .isADirectory => "Is a directory (os error 21)".toList
  | .nameTooLong => "File name too long (os error 36)".toList
  | .tooManyLinks => "Too many levels of symbolic links (os error 40)".toList
  | .zeroByte => "file name contained an unexpected NUL byte".toList

namespace FileTree

/-! ### Names -/

/-- The byte between the parts of a path. -/
def slash : UInt8 := 0x2F

/-- A part of a path that stays in the same directory. -/
def isIdle (piece : Bytes) : Bool := piece == [] || piece == [0x2E]

/-- A part of a path that leads to the directory above. -/
def isParent (piece : Bytes) : Bool := piece == [0x2E, 0x2E]

/-- A name that an entry of a directory can have. -/
def IsName (n : Name) : Prop := isIdle n = false ∧ isParent n = false ∧ slash ∉ n

instance (n : Name) : Decidable (IsName n) := inferInstanceAs (Decidable (_ ∧ _ ∧ _))

/-- Names that a way down from the top can have. -/
def IsWayDown (l : Location) : Prop := ∀ n ∈ l, IsName n

instance (l : Location) : Decidable (IsWayDown l) := inferInstanceAs (Decidable (∀ n ∈ l, _))

/-- A location that an entry can have. -/
def IsPlace (l : Location) : Prop := l ≠ [] ∧ IsWayDown l

instance (l : Location) : Decidable (IsPlace l) := inferInstanceAs (Decidable (_ ∧ _))

/-- Entries with their locations, each location once. -/
def IsListing (entries : List (Location × Entry)) : Prop :=
  entries.Pairwise (·.1 ≠ ·.1) ∧ ∀ x ∈ entries, IsPlace x.1

instance (entries : List (Location × Entry)) : Decidable (IsListing entries) :=
  inferInstanceAs (Decidable (_ ∧ _))

end FileTree

/-- Entries by their locations, and the location of the current directory. The top itself is not
listed. -/
@[ext]
structure FileTree where
  entries : List (Location × Entry)
  current : Location := []
  isListing : FileTree.IsListing entries := by decide
  isWayDown_current : FileTree.IsWayDown current := by decide
  deriving DecidableEq

namespace FileTree

/-- The tree without entries. -/
def empty : FileTree := { entries := [] }

/-- The tree with another current directory. -/
def enter (t : FileTree) (l : Location) : FileTree :=
  if hl : IsWayDown l then { t with current := l, isWayDown_current := hl } else t

/-- The entry at a location. -/
def find? (t : FileTree) (l : Location) : Option Entry :=
  if l = [] then some .directory else t.entries.lookup l

/-- The names of the entries of a directory. -/
def names (t : FileTree) (dir : Location) : List Name :=
  t.entries.filterMap fun (l, _) =>
    match l.getLast? with
    | some name => if l.dropLast = dir then some name else none
    | none => none

/-! ### Paths -/

/-- The pieces of a path between slashes. -/
def pieces : Bytes → List Bytes
  | [] => [[]]
  | b :: bs =>
    match pieces bs with
    | [] => [[b]]
    | p :: ps => if b = slash then [] :: p :: ps else (b :: p) :: ps

/-- Whether a path starts from the top. -/
def isAbsolute (path : Bytes) : Bool := path.head? == some slash

/-- What a path is followed for. -/
inductive Purpose where
  /-- The entry, after a link that the path may end with. -/
  | entry
  /-- The entry, or the link that the path ends with. -/
  | itself
  /-- A file that may be new. -/
  | creation
  deriving DecidableEq

/-- The location that pieces of a path lead to from a directory. At a link `jump` goes on, from the
directory and with the pieces that the link stands for. -/
def followWith (t : FileTree) (purpose : Purpose)
    (jump : Location → List Bytes → Except SystemError Location) (dir : Location) :
    List Bytes → Except SystemError Location
  | [] => .ok dir
  | p :: rest =>
    if isIdle p then t.followWith purpose jump dir rest
    else if isParent p then t.followWith purpose jump dir.dropLast rest
    else if 255 < p.length then .error .nameTooLong
    else
      match t.find? (dir ++ [p]) with
      | none =>
        if purpose = .creation ∧ rest = [] then .ok (dir ++ [p])
        else if purpose = .creation ∧ rest.all (· == []) then .error .isADirectory
        else .error .notFound
      | some .directory => t.followWith purpose jump (dir ++ [p]) rest
      | some (.link target) =>
        if rest = [] ∧ purpose = .itself then .ok (dir ++ [p])
        else jump (if isAbsolute target then [] else dir) (pieces target ++ rest)
      | some _ => if rest = [] then .ok (dir ++ [p]) else .error .notADirectory

/-- The location that pieces of a path lead to from a directory, with at most as many links on the
way as given. -/
def follow (t : FileTree) (purpose : Purpose) :
    Nat → Location → List Bytes → Except SystemError Location
  | 0 => t.followWith purpose fun _ _ => .error .tooManyLinks
  | n + 1 => t.followWith purpose (t.follow purpose n)

/-- The number of links on the way of a path. -/
def maxLinks : Nat := 40

/-- The length of the longest path, with its end. -/
def maxPath : Nat := 4096

/-- The pieces of a path from the top. -/
def fromTop (t : FileTree) (path : Bytes) : List Bytes :=
  if isAbsolute path then pieces path else t.current ++ pieces path

/-- The location that a path leads to. -/
def locate (t : FileTree) (purpose : Purpose) (path : Bytes) : Except SystemError Location :=
  if path.contains 0 then .error .zeroByte
  else if path = [] then .error .notFound
  else if maxPath ≤ path.length then .error .nameTooLong
  else t.follow purpose maxLinks [] (t.fromTop path)

/-- The location and the entry that a path leads to. -/
def open? (t : FileTree) (path : Bytes) : Except SystemError (Location × Entry) :=
  match t.locate .entry path with
  | .error e => .error e
  | .ok l =>
    match t.find? l with
    | some e => .ok (l, e)
    | none => .error .notFound

/-- Whether a path leads to an entry. -/
def pathExists (t : FileTree) (path : Bytes) : Bool := (t.open? path).isOk

/-- Whether a path leads to a directory. -/
def isDirectory (t : FileTree) (path : Bytes) : Bool :=
  match t.open? path with
  | .ok (_, .directory) => true
  | _ => false

/-- The content of the file that a path leads to. -/
def read (t : FileTree) (path : Bytes) : Except SystemError Bytes :=
  match t.open? path with
  | .ok (_, .file content) => .ok content
  | .ok (_, .locked) => .error .accessDenied
  | .ok _ => .error .isADirectory
  | .error e => .error e

/-! ### Changes -/

/-- The entry in place of the one at a location. -/
def replaceAt (l : Location) (e : Entry) (x : Location × Entry) : Location × Entry :=
  if x.1 == l then (l, e) else x

theorem fst_replaceAt (l : Location) (e : Entry) (x : Location × Entry) :
    (replaceAt l e x).1 = x.1 := by
  unfold replaceAt
  split
  · next hx => exact (beq_iff_eq.mp hx).symm
  · rfl

/-- The entries with one put at a location, in place of one that is there. -/
def putEntry (l : Location) (e : Entry) (entries : List (Location × Entry)) :
    List (Location × Entry) :=
  if entries.any (·.1 == l) then entries.map (replaceAt l e) else entries ++ [(l, e)]

theorem isListing_putEntry {l : Location} (hl : IsPlace l) (e : Entry)
    {entries : List (Location × Entry)} (h : IsListing entries) :
    IsListing (putEntry l e entries) := by
  obtain ⟨honce, hway⟩ := h
  unfold putEntry
  split
  · refine ⟨List.pairwise_map.mpr (honce.imp fun hxy => ?_), fun x hx => ?_⟩
    · rwa [fst_replaceAt, fst_replaceAt]
    · obtain ⟨y, hy, rfl⟩ := List.mem_map.mp hx
      rw [fst_replaceAt]
      exact hway y hy
  · next hnone =>
    refine ⟨List.pairwise_append.mpr ⟨honce, List.pairwise_singleton _ _, fun x hx y hy => ?_⟩,
      fun x hx => ?_⟩
    · rw [List.mem_singleton.mp hy]
      rintro rfl
      exact hnone (List.any_eq_true.mpr ⟨x, hx, beq_self_eq_true _⟩)
    · rcases List.mem_append.mp hx with hx | hx
      · exact hway x hx
      · rw [List.mem_singleton.mp hx]
        exact hl

/-- Puts an entry at a location that an entry can have, in place of one that is there. -/
def put (t : FileTree) (l : Location) (e : Entry) : FileTree :=
  if hl : IsPlace l then
    { t with
      entries := putEntry l e t.entries
      isListing := isListing_putEntry hl e t.isListing }
  else t

/-- Writes a file at a path; its directory has to be there. A write is taken to be all or nothing:
a file that could be made but not filled, as on a full disk, is not among the outcomes. -/
def write (t : FileTree) (path content : Bytes) : Except SystemError FileTree :=
  match t.locate .creation path with
  | .error e => .error e
  | .ok l =>
    match t.find? l with
    | some .directory => .error .isADirectory
    | some .locked => .error .accessDenied
    | _ => .ok (t.put l (.file content))

/-- The directory that names lead to; what is missing on the way is made. -/
def makeDirectory (t : FileTree) (dir : Location) : List Name → FileTree × Location
  | [] => (t, dir)
  | p :: rest =>
    if isIdle p then t.makeDirectory dir rest
    else if isParent p then t.makeDirectory dir.dropLast rest
    else
      match t.find? (dir ++ [p]) with
      | none => (t.put (dir ++ [p]) .directory).makeDirectory (dir ++ [p]) rest
      | some (.link _) =>
        t.makeDirectory ((t.follow .entry maxLinks dir [p]).toOption.getD (dir ++ [p])) rest
      | some _ => t.makeDirectory (dir ++ [p]) rest

/-- The directory that a path starts from. -/
def startOf (t : FileTree) (path : Bytes) : Location := if isAbsolute path then [] else t.current

/-- Makes the directory above a path and puts an entry there. -/
def place (t : FileTree) (path : Bytes) (e : Entry) : FileTree :=
  let ps := (pieces path).filter (!isIdle ·)
  match ps.getLast? with
  | none => t
  | some name =>
    let (t, dir) := t.makeDirectory (t.startOf path) ps.dropLast
    t.put (dir ++ [name]) e

/-- Writes a file at a path and makes its directory. -/
def store (t : FileTree) (path content : Bytes) : FileTree :=
  match t.write path content with
  | .ok t => t
  | .error _ => t.place path (.file content)

/-- Makes a directory and those above it. -/
def mkdir (t : FileTree) (path : Bytes) : FileTree :=
  (t.makeDirectory (t.startOf path) (pieces path)).1

/-- Makes a link. -/
def symlink (t : FileTree) (path target : Bytes) : FileTree := t.place path (.link target)

/-- Removes what a path leads to, with everything below it. -/
def remove (t : FileTree) (path : Bytes) : FileTree :=
  match t.locate .itself path with
  | .ok l =>
    { t with
      entries := t.entries.filter fun x => !l.isPrefixOf x.1
      isListing := ⟨t.isListing.1.filter _, fun x hx => t.isListing.2 x (List.mem_filter.mp hx).1⟩ }
  | .error _ => t

/-! ### Comparison -/

/-- The names of a location with slashes between them. -/
def pathOf : Location → Bytes
  | [] => []
  | [name] => name
  | name :: b :: r => name ++ slash :: pathOf (b :: r)

/-- The path of a location from the top. -/
def fullPath (l : Location) : Bytes := slash :: pathOf l

/-- The path of a location, from the current directory if it lies below that. -/
def shortPath (t : FileTree) (l : Location) : Bytes :=
  match t.current.isPrefixOf? l with
  | some r => pathOf r
  | none => fullPath l

/-- The files of a tree that another tree does not hold with the same content, by their paths. -/
def changes (t₁ t₂ : FileTree) : List (Bytes × Bytes) :=
  t₂.entries.filterMap fun (l, e) =>
    match e with
    | .file content =>
      if t₁.find? l = some (.file content) then none else some (t₂.shortPath l, content)
    | _ => none

end FileTree

end ActionItems
