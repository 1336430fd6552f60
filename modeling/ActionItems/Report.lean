import ActionItems.Finding.Codec
import ActionItems.Json.Printer

/-! # Reports

Findings are reported as a Markdown check list, grouped by tag, or as a JSON array. -/

namespace ActionItems

open Text

/-- The formats of a report. -/
inductive Format where
  | markdown
  | json
  deriving DecidableEq, Repr

namespace Report

/-! ### Markdown -/

/-- The metadata of an item, in parentheses. -/
def metadataText (m : Metadata) : Text :=
  " (".toList ++ join ", ".toList (m.entries.map fun (k, v) => k ++ ": ".toList ++ v) ++ ")".toList

/-- The message of an item after a space, or nothing. -/
def messageText (text : Text) : Text := if text.isEmpty then [] else ' ' :: text

/-- The line of a finding, without its end. -/
def itemLine (f : Finding) : Text :=
  "- [ ] \x60".toList ++ f.location ++ "\x60".toList ++ messageText f.text ++
    (f.metadata.map metadataText).getD []

/-- The findings with a tag. -/
def tagged (t : Tag) (fs : List Finding) : List Finding := fs.filter (·.tag == t)

/-- The heading of a tag's section, without its end. -/
def heading (t : Tag) (count : Nat) : Text :=
  "## ".toList ++ t.name ++ " (".toList ++ ofNat count ++ ")".toList

/-- The lines of a tag's section, after an empty line; a tag without findings has none. -/
def sectionLines (t : Tag) (fs : List Finding) : List Text :=
  match tagged t fs with
  | [] => []
  | items => [[], heading t items.length, []] ++ items.map itemLine

/-- The line of the counts. -/
def summaryLine (fs : List Finding) : Text :=
  "Total: ".toList ++ ofNat fs.length ++ " (".toList ++
    join ", ".toList (Tag.all.map fun t => t.name ++ ": ".toList ++ ofNat (tagged t fs).length) ++
      ")".toList

/-- The lines of a report. -/
def markdownLines (fs : List Finding) : List Text :=
  match fs with
  | [] => ["# TODO".toList, [], "No TODO, FIXME or HACK comments found.".toList]
  | _ => ["# TODO".toList, [], summaryLine fs] ++ Tag.all.flatMap fun t => sectionLines t fs

/-- The report as a Markdown check list. -/
def markdown (fs : List Finding) : Text := (markdownLines fs).flatMap (· ++ ['\n'])

/-! ### JSON -/

/-- The report as a JSON array. -/
def json (fs : List Finding) : Text := (Json.arr (fs.map Finding.encode)).pretty 0 ++ ['\n']

/-- The report in a format. -/
def render : Format → List Finding → Text
  | .markdown => markdown
  | .json => json

end Report

end ActionItems
