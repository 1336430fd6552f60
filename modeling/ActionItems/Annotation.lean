import ActionItems.Tag
import ActionItems.Metadata

/-! # Annotations

An annotation is one occurrence of a tag in a source: the tag, the line, the message and the
metadata after it, and the trimmed line it was found on. Line numbers start at one and stop at the
largest number that they can hold. -/

namespace ActionItems

/-- The number of a line. -/
abbrev LineNumber := UInt32

namespace LineNumber

/-- The greatest line number. -/
def greatest : Nat := 4294967295

/-- The line `n` lines further down, or the greatest number. -/
def advance (l : LineNumber) (n : Nat) : LineNumber := UInt32.ofNat (min (l.toNat + n) greatest)

/-- The number of the line with the given index, which counts from zero. -/
def ofIndex (i : Nat) : LineNumber := advance 1 i

end LineNumber

/-- One occurrence of a tag. -/
structure Annotation where
  tag : Tag
  line : Option LineNumber
  /-- The message after the tag. -/
  text : Text
  /-- The trimmed line that holds the tag. -/
  raw : Text
  metadata : Option Metadata
  deriving DecidableEq

/-- The annotation of a tag word, the line it stands in and the text after it; a word that no tag's
name is the upper-case form of gives none. -/
def Annotation.of (word : Text) (line : LineNumber) (raw rest : Text) : Option Annotation :=
  (Tag.ofWord? word).map fun tag =>
    let tail := Tail.parse (Tail.dropTagMarks rest)
    { tag, line := some line, text := tail.text, raw, metadata := tail.metadata }

end ActionItems
