import ActionItems.Finding
import ActionItems.Json.Decode

/-! # Findings as JSON

A finding is written as an object, without the line and the metadata if there are none. It is read
from an object, whose unknown members do not count, or from the array of its fields. -/

namespace ActionItems

/-- The name of a tag as a value. -/
def Tag.encode (t : Tag) : Json := .str t.name

/-- The tag with the given name. -/
def Tag.ofName (s : Text) : Decoded Tag :=
  match Tag.all.find? fun t => t.name == s with
  | some t => .ok t
  | none => .error (.unknownVariant s (Tag.all.map Tag.name))

/-- A tag is its name, or an object with its name as the only key and null as the value. -/
def Tag.decode : Json → Decoded Tag
  | .str s => Tag.ofName s
  | .obj ms =>
    match Json.members ms with
    | [(k, v)] =>
      match Tag.ofName k, v with
      | .ok t, .null => .ok t
      | .ok _, _ => .error (.wrongType v .unit)
      | .error e, _ => .error e
    | _ => .error (.wrongValue (.obj ms) .singleKey)
  | v => .error (.wrongType v .alternative)

/-- The metadata as an object. -/
def Metadata.encode (m : Metadata) : Json := .obj (m.entries.map fun (k, v) => (k, .str v))

/-- Metadata is an object of texts. -/
def Metadata.decode : Json → Decoded Metadata
  | .obj ms =>
    (Json.members ms).foldlM
      (fun m (k, v) => (Json.decodeText .string v).map (m.insert k)) Metadata.empty
  | v => .error (.wrongType v .map)

namespace Finding

/-! ### Writing -/

/-- The finding as an object. -/
def encode (f : Finding) : Json :=
  .obj <|
    [("tag".toList, f.tag.encode), ("file".toList, .str f.file)] ++
    (f.line.map fun l => ("line".toList, Json.ofNat l.toNat)).toList ++
    [("text".toList, .str f.text), ("raw".toList, .str f.raw)] ++
    (f.metadata.map fun m => ("meta".toList, m.encode)).toList

/-! ### Reading -/

/-- The fields of a finding that have been read. -/
structure Draft where
  tag : Option Tag := none
  file : Option Path := none
  line : Option LineNumber := none
  text : Option Text := none
  raw : Option Text := none
  metadata : Option Metadata := none

/-- Reads one member; an unknown one does not count. -/
def Draft.read (d : Draft) (key : Text) (v : Json) : Decoded Draft :=
  if key = "tag".toList then (Tag.decode v).map fun t => { d with tag := some t }
  else if key = "file".toList then (v.decodeText .path).map fun s => { d with file := some s }
  else if key = "line".toList then (v.decodeOption Json.decodeWord32).map fun l =>
    { d with line := l }
  else if key = "text".toList then (v.decodeText .string).map fun s => { d with text := some s }
  else if key = "raw".toList then (v.decodeText .string).map fun s => { d with raw := some s }
  else if key = "meta".toList then (v.decodeOption Metadata.decode).map fun m =>
    { d with metadata := m }
  else .ok d

/-- The finding of the fields; the first of those that have to be there and are not is the fault. -/
def Draft.finish (d : Draft) (fault : Text → Nat → DecodeError) : Decoded Finding :=
  match d.tag, d.file, d.text, d.raw with
  | none, _, _, _ => .error (fault "tag".toList 0)
  | _, none, _, _ => .error (fault "file".toList 1)
  | _, _, none, _ => .error (fault "text".toList 3)
  | _, _, _, none => .error (fault "raw".toList 4)
  | some tag, some file, some text, some raw =>
    .ok { tag, file, line := d.line, text, raw, metadata := d.metadata }

/-- The fields in the order in which an array holds them. -/
def fields : List Text :=
  ["tag".toList, "file".toList, "line".toList, "text".toList, "raw".toList, "meta".toList]

/-- The name of the record in messages. -/
def recordName : Text := "Finding".toList

/-- The finding of a value. -/
def decode : Json → Decoded Finding
  | .obj ms => do
    let d ← (Json.members ms).foldlM (fun d (k, v) => d.read k v) ({} : Draft)
    d.finish fun field _ => .missing field
  | .arr vs => do
    let d ← (fields.zip vs).foldlM (fun d (k, v) => d.read k v) ({} : Draft)
    let f ← d.finish fun _ index => .tooShort index recordName fields.length
    if fields.length < vs.length then .error (.tooLong vs.length) else .ok f
  | v => .error (.wrongType v (.record recordName))

/-- The findings of a value. -/
def decodeAll : Json → Decoded (List Finding) := Json.decodeList decode

end Finding

end ActionItems
