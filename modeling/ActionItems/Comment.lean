import ActionItems.Annotation

/-! # Comments

A comment is cut out of its source by the span of its characters. Its delimiters are removed and
nothing else, so that the lines of its body are the lines of the source; the annotations of a
comment are then found line by line. -/

namespace ActionItems

open Text

/-- The body of a comment and the line it starts on. -/
structure Comment where
  text : Text
  startLine : LineNumber
  deriving DecidableEq

/-- The families of comment delimiters. -/
inductive CommentStyle where
  /-- Line comments open with two or more slashes. -/
  | slashes
  /-- Line comments open with two slashes or with a hash sign. -/
  | slashesOrHash
  deriving DecidableEq, Repr

/-- A range of characters of a source, from `start` up to `stop`. -/
structure Span where
  start : Nat
  stop : Nat
  deriving DecidableEq, Repr

namespace Span

/-- The characters of the span. -/
def slice (sp : Span) (source : Text) : Text := (source.take sp.stop).drop sp.start

/-- The row of the span's first character: the number of line feeds before it. -/
def row (sp : Span) (source : Text) : Nat := (source.take sp.start).count '\n'

end Span

namespace Comment

/-- The body of a block comment. -/
def blockBody? (raw : Text) : Option Text :=
  (after? ['/', '*'] raw).map fun body =>
    let body := (before? ['*', '/'] body).getD body
    (after? ['*'] body).getD body

/-- The body of a comment; a text without delimiters is its own body. -/
def strip (style : CommentStyle) (raw : Text) : Text :=
  match blockBody? raw, after? ['/', '/'] raw, style with
  | some body, _, _ => body
  | none, some body, .slashes => body.dropWhile (· == '/')
  | none, some body, .slashesOrHash => body
  | none, none, .slashes => raw
  | none, none, .slashesOrHash => (after? ['#'] raw).getD raw

/-- The comment in a span of a source. -/
def ofSpan (style : CommentStyle) (source : Text) (sp : Span) : Comment :=
  ⟨strip style (sp.slice source), .ofIndex (sp.row source)⟩

/-! ### Annotations -/

/-- The line of a comment after an optional run of stars and the blanks after that run. -/
def dropStars (line : Text) : Text :=
  match line with
  | '*' :: _ => trimStart (line.dropWhile (· == '*'))
  | _ => line

/-- The annotation of one line of a comment: after its stars it opens with a whole tag word. -/
def annotationOf (startLine : LineNumber) (line : Text) (index : Nat) : Option Annotation :=
  match Tag.readWhole (dropStars (trim line)) with
  | some (word, rest) => Annotation.of word (startLine.advance index) (trim line) rest
  | none => none

/-- The annotations of a comment, at most one for each line. -/
def annotations (c : Comment) : List Annotation :=
  (lines c.text).zipIdx.filterMap fun (line, index) => annotationOf c.startLine line index

end Comment

end ActionItems
