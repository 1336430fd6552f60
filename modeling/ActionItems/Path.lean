import ActionItems.Text.Basic

/-! # Paths

A path is text whose parts are separated by slashes. Repeated slashes, and a lone dot anywhere but
in front, name nothing: they are no components. Two paths are compared, and a root is taken off a
path, component by component, while the text that stays keeps its spelling. -/

namespace ActionItems

/-- A path, as it is spelt. -/
abbrev Path := Text

namespace Path

/-! ### Components -/

/-- One step of a path. -/
inductive Component where
  /-- The slash in front of an absolute path. -/
  | root
  /-- A lone dot in front of a relative path. -/
  | current
  /-- Two dots. -/
  | parent
  /-- The name of a file or directory. -/
  | name (s : Text)
  deriving DecidableEq, Repr

/-- The pieces of a path between slashes, the first of them possibly a leading dot. -/
def ofPiece (leads : Bool) (piece : Text) : Option Component :=
  if piece = [] then none
  else if piece = ['.'] then if leads then some .current else none
  else if piece = ['.', '.'] then some .parent
  else some (.name piece)

/-- The pieces of a path between its slashes. -/
def pieces (p : Path) : List Text := Text.splitAll (· == '/') p

/-- The components of a path. -/
def components (p : Path) : List Component :=
  match p with
  | '/' :: r => .root :: (pieces r).filterMap (ofPiece false)
  | _ =>
    match pieces p with
    | [] => []
    | a :: r => (ofPiece true a).toList ++ r.filterMap (ofPiece false)

/-- The place of a component's kind in the order of components. -/
def Component.rank : Component → Nat
  | .root => 0
  | .current => 1
  | .parent => 2
  | .name _ => 3

/-- Components are ordered by kind, names among themselves as texts. -/
def Component.lt (a b : Component) : Bool :=
  match a, b with
  | .name s, .name t => decide (s < t)
  | _, _ => decide (a.rank < b.rank)

/-- The lexicographic order of component lists. -/
def ltComponents : List Component → List Component → Bool
  | _, [] => false
  | [], _ :: _ => true
  | a :: r, b :: s => a.lt b || (a == b && ltComponents r s)

/-- The component-wise order of paths. -/
def lt (p q : Path) : Bool := ltComponents (components p) (components q)

/-! ### Names and extensions -/

/-- The name that the path ends with. -/
def fileName? (p : Path) : Option Text :=
  match (components p).getLast? with
  | some (.name s) => some s
  | _ => none

/-- The text after the last dot of a name that has more than that dot's left side empty. -/
def extensionOfName (name : Text) : Option Text :=
  match Text.splitOnce (· == '.') name.reverse with
  | some (after, before) => if before = [] then none else some after.reverse
  | none => none

/-- The extension of the file that a path names. -/
def extension? (p : Path) : Option Text := (fileName? p).bind extensionOfName

/-! ### Joining and taking off a root -/

/-- The path of an entry of a directory. -/
def join (dir : Path) (name : Text) : Path :=
  match dir.getLast? with
  | none => name
  | some '/' => dir ++ name
  | some _ => dir ++ '/' :: name

/-- The path without the slashes and lone dots in front of its first component, read as the rest of
a longer path. -/
def dropIdle : Path → Path
  | [] => []
  | '/' :: p => dropIdle p
  | '.' :: '/' :: p => dropIdle p
  | ['.'] => []
  | c :: p => c :: p

/-- A reversed path without the slashes and lone dots before its first component. -/
def dropIdleEnd : Path → Path
  | '/' :: p => dropIdleEnd p
  | '.' :: '/' :: p => dropIdleEnd p
  | p => p

/-- The path without trailing slashes and trailing lone dots; an absolute path keeps its first
slash. -/
def trimEnd (p : Path) : Path :=
  match p with
  | '/' :: r => '/' :: (dropIdleEnd ('/' :: r).reverse).reverse.drop 1
  | _ => (dropIdleEnd p.reverse).reverse

/-- The text after the components, which the rest of a longer path has to start with. -/
def dropComponents : List Component → Path → Option Path
  | [], p => some p
  | c :: cs, p =>
    let q := dropIdle p
    if ofPiece false (q.takeWhile (· != '/')) = some c then
      dropComponents cs (q.dropWhile (· != '/'))
    else none

/-- The text after the components, which a whole path has to start with. -/
def dropLeading (c : Component) (cs : List Component) (p : Path) : Option Path :=
  match p with
  | '/' :: r => if c = .root then dropComponents cs r else none
  | _ =>
    if ofPiece true (p.takeWhile (· != '/')) = some c then
      dropComponents cs (p.dropWhile (· != '/'))
    else none

/-- The part of a path below a root, if the components of the root are the first components of the
path. -/
def below? (root p : Path) : Option Path :=
  match components root with
  | [] => some (trimEnd p)
  | c :: cs => (dropLeading c cs p).map fun r => trimEnd (dropIdle r)

/-- The path as it is reported for a root: the part below the root, a dot for the root itself, and
the whole path outside the root. -/
def relative (root p : Path) : Path :=
  match below? root p with
  | some [] => ['.']
  | some r => r
  | none => p

end Path

end ActionItems
