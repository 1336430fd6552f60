import ActionItems.Annotation
import ActionItems.Path

/-! # Findings

A finding is an annotation together with the file it was found in. Findings are listed by file, then
by line; those of one line keep their order. -/

namespace ActionItems

/-- An annotation of a file. -/
structure Finding where
  tag : Tag
  /-- The path of the file, below the scanned directory. -/
  file : Path
  line : Option LineNumber
  text : Text
  raw : Text
  metadata : Option Metadata
  deriving DecidableEq

namespace Finding

/-- The finding of an annotation of a file. -/
def ofAnnotation (file : Path) (a : Annotation) : Finding :=
  { tag := a.tag, file, line := a.line, text := a.text, raw := a.raw, metadata := a.metadata }

/-- The value of the assignee among the metadata. -/
def assignee (f : Finding) : Option Text := f.metadata.bind (·.get? Metadata.assigneeKey)

/-- The file and, if it is known, the line. -/
def location (f : Finding) : Text :=
  match f.line with
  | some l => f.file ++ ':' :: Text.ofNat l.toNat
  | none => f.file

/-! ### Order -/

/-- The order of texts by code point. -/
def compareText (s t : Text) : Ordering := if s < t then .lt else if t < s then .gt else .eq

/-- Known lines ascend, and an unknown line comes after them. -/
def compareLine : Option LineNumber → Option LineNumber → Ordering
  | some a, some b => compare a.toNat b.toNat
  | some _, none => .lt
  | none, some _ => .gt
  | none, none => .eq

/-- Findings are ordered by file and then by line. -/
def compare (a b : Finding) : Ordering :=
  (compareText a.file b.file).then (compareLine a.line b.line)

/-- The findings in order; those of one line keep their order. -/
def sort (fs : List Finding) : List Finding := fs.mergeSort fun a b => (compare a b).isLE

end Finding

end ActionItems
