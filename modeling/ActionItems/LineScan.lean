import ActionItems.Annotation

/-! # Line scan

The line scan finds annotations in a text of unknown grammar. In each line it looks at the first tag
word that is a whole word, and takes it when the text before it looks like the opening of a
comment. -/

namespace ActionItems.LineScan

open Text

/-- The first whole tag word of a line: the text before it, the word, and the text after it. The
flag says that the character just before the text is a word character. -/
def firstTag : Bool → Text → Option (Text × Text × Text)
  | _, [] => none
  | inWord, c :: s =>
    match if inWord then none else Tag.readWhole (c :: s) with
    | some (word, rest) => some ([], word, rest)
    | none => (firstTag (isWordChar c) s).map fun (before, word, rest) => (c :: before, word, rest)

/-- The marks that open a line comment. -/
def commentMarks : List Text := [['#'], ['/', '/'], ['-', '-'], [';'], ['%']]

/-- Text before a tag looks like a comment when it ends with a comment mark, blanks aside, or has a
star in it. -/
def endsInComment (before : Text) : Bool :=
  commentMarks.any (fun m => (before? m (trim before)).isSome) || before.contains '*'

/-- The annotation of one line. -/
def annotationOf (line : Text) (index : Nat) : Option Annotation :=
  match firstTag false line with
  | some (before, word, rest) =>
    if endsInComment before then Annotation.of word (.ofIndex index) (trim line) rest else none
  | none => none

/-- The annotations of a text, line by line. -/
def scan (content : Text) : List Annotation :=
  (lines content).zipIdx.filterMap fun (line, index) => annotationOf line index

end ActionItems.LineScan
