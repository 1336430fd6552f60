import ActionItems.GlobSet

/-! # Ignore rules

A rule is a line with a pattern. An exclamation mark in front makes it a rule that keeps what it
matches, a slash at the end restricts it to directories, and a slash anywhere else ties it to the
directory that the rules belong to. The last rule that matches decides. -/

namespace ActionItems

open Text

/-- A rule. -/
structure IgnoreRule where
  pattern : List GlobToken
  /-- Whether the rule keeps what it matches. -/
  keeps : Bool
  onlyDirectories : Bool

/-- What rules say about a path. -/
inductive Verdict where
  | ignore
  | keep
  deriving DecidableEq

namespace IgnoreRule

/-! ### Reading -/

/-- The text of a line without the blanks at its end, unless the last one is escaped. -/
def trimLine (line : Text) : Text :=
  if (before? ['\\', ' '] line).isSome then line else trimEnd line

/-- The parts of a rule before its pattern is read. -/
structure Draft where
  text : Text
  keeps : Bool := false
  anchored : Bool := false
  onlyDirectories : Bool := false

/-- Takes off the marks in front of a rule. -/
def dropLead (line : Text) : Draft :=
  match line with
  | '\\' :: '!' :: r => { text := '!' :: r }
  | '\\' :: '#' :: r => { text := '#' :: r }
  | '!' :: '/' :: r => { text := r, keeps := true, anchored := true }
  | '!' :: r => { text := r, keeps := true }
  | '/' :: r => { text := r, anchored := true }
  | r => { text := r }

/-- Takes off the slash at the end of a rule. -/
def Draft.dropEnd (d : Draft) : Draft :=
  match before? ['/'] d.text with
  | none => d
  | some r => { d with text := (before? ['\\'] r).getD r, onlyDirectories := true }

/-- The text of the pattern: without a slash it may match anywhere below, and two stars at the end
do not match the directory itself. -/
def Draft.patternText (d : Draft) : Text :=
  let twoStars := ['*', '*']
  let anywhere := !d.anchored && !d.text.contains '/' &&
    !((after? ['*', '*', '/'] d.text).isSome || d.text == twoStars)
  let text := if anywhere then ['*', '*', '/'] ++ d.text else d.text
  if (before? ['/', '*', '*'] text).isSome then text ++ ['/', '*'] else text

/-- The rule of a line, if the line holds one. -/
def parse (allowUnclosed : Bool) (line : Text) : Except GlobError (Option IgnoreRule) :=
  if line.head? = some '#' then .ok none
  else
    match trimLine line with
    | [] => .ok none
    | line =>
      let d := (dropLead line).dropEnd
      (Glob.parse allowUnclosed d.patternText).map fun pattern =>
        some { pattern, keeps := d.keeps, onlyDirectories := d.onlyDirectories }

/-! ### Matching -/

/-- Whether a rule applies to a path. -/
def applies (r : IgnoreRule) (path : Bytes) (isDirectory : Bool) : Bool :=
  Glob.isMatch r.pattern path && (!r.onlyDirectories || isDirectory)

/-- What the last rule that applies says. -/
def verdict (rules : List IgnoreRule) (path : Bytes) (isDirectory : Bool) : Option Verdict :=
  (rules.reverse.find? fun r => r.applies path isDirectory).map fun r =>
    if r.keeps then .keep else .ignore

/-! ### Files of rules -/

/-- The lines of a file as far as they are text. -/
def textLines (content : Bytes) : List Text :=
  let rec go : List Bytes → List Text
    | [] => []
    | [last] => if last.isEmpty then [] else (Utf8.decode? last).toList
    | l :: m :: r =>
      match Utf8.decode? l with
      | some s => dropReturn s :: go (m :: r)
      | none => []
  go (splitLines content)
where
  /-- The pieces between line feeds. -/
  splitLines : Bytes → List Bytes
    | [] => [[]]
    | b :: s =>
      match splitLines s with
      | [] => [[b]]
      | l :: r => if b = 0x0A then [] :: l :: r else (b :: l) :: r

/-- The first line without a byte order mark. -/
def dropMark : List Text → List Text
  | [] => []
  | l :: r => l.dropWhile (fun c => c.toNat == 0xFEFF) :: r

/-- The rules in lines; those that cannot be read as rules do not count. -/
def ofLines (ls : List Text) : List IgnoreRule :=
  ls.filterMap fun line =>
    match parse true line with
    | .ok r => r
    | .error _ => none

/-- Whether the patterns of rules make a set. -/
def makeSet (rules : List IgnoreRule) : Bool := (Glob.setFault? (rules.map (·.pattern))).isNone

/-- The rules of a file, none if their patterns do not make a set. -/
def ofFile (content : Bytes) : List IgnoreRule :=
  let rules := ofLines (dropMark (textLines content))
  if makeSet rules then rules else []

end IgnoreRule

end ActionItems
