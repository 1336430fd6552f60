import ActionItems.Decimal.Shortest
import ActionItems.Json.Basic
import ActionItems.Text.Ascending
import ActionItems.Text.Quoted

/-! # Decoding values

A decoder turns a JSON value into a value of the library or says which fault it found. The members
of an object are taken in the order of their keys, and of two members with one key the later one
counts. -/

namespace ActionItems

open Text

/-- What a decoder expects. -/
inductive Expected where
  | path
  | string
  | sequence
  | boolean
  /-- A number of 32 bits. -/
  | word32
  /-- A number of 64 bits. -/
  | word64
  | map
  /-- Nothing but null. -/
  | unit
  /-- The name of an alternative, alone or as the only key of an object. -/
  | alternative
  /-- An object with exactly one member. -/
  | singleKey
  /-- The members of a record, in an object or an array. -/
  | record (name : Text)
  deriving DecidableEq

/-- The description of what is expected. -/
def Expected.describe : Expected → Text
  | .path => "a UTF-8 path string".toList
  | .string => "a string".toList
  | .sequence => "a sequence".toList
  | .boolean => "a boolean".toList
  | .word32 => "u32".toList
  | .word64 => "usize".toList
  | .map => "a map".toList
  | .unit => "unit".toList
  | .alternative => "string or map".toList
  | .singleKey => "map with a single key".toList
  | .record name => "struct ".toList ++ name

/-- The reasons for which a value cannot be decoded. -/
inductive DecodeError where
  /-- A value of another kind stands there. -/
  | wrongType (found : Json) (expected : Expected)
  /-- A value of the right kind cannot be used. -/
  | wrongValue (found : Json) (expected : Expected)
  /-- An object lacks a member. -/
  | missing (field : Text)
  /-- A name is none of the alternatives. -/
  | unknownVariant (found : Text) (alternatives : List Text)
  /-- An array of a record's fields ends too early. -/
  | tooShort (length : Nat) (record : Text) (fields : Nat)
  /-- An array of a record's fields has more elements than the record has fields. -/
  | tooLong (length : Nat)

namespace DecodeError

/-- Text between back quotes. -/
def ticked (s : Text) : Text := '\x60' :: s ++ ['\x60']

/-- The description of a value that was found. -/
def describe : Json → Text
  | .null => "null".toList
  | .bool b => "boolean ".toList ++ ticked (if b then "true".toList else "false".toList)
  | .int n => "integer ".toList ++ ticked (ofInt n)
  | .double bits => "floating point ".toList ++ ticked (Decimal.ofBits bits)
  | .str s => "string ".toList ++ quoted s
  | .arr _ => "sequence".toList
  | .obj _ => "map".toList

/-- The wording of a fault. -/
def message : DecodeError → Text
  | .wrongType v e => "invalid type: ".toList ++ describe v ++ ", expected ".toList ++ e.describe
  | .wrongValue v e => "invalid value: ".toList ++ describe v ++ ", expected ".toList ++ e.describe
  | .missing f => "missing field ".toList ++ ticked f
  | .unknownVariant s names =>
    "unknown variant ".toList ++ ticked s ++ ", expected one of ".toList ++
      join ", ".toList (names.map ticked)
  | .tooShort n record fields =>
    "invalid length ".toList ++ ofNat n ++ ", expected struct ".toList ++ record ++
      " with ".toList ++
      ofNat fields ++ " elements".toList
  | .tooLong n => "invalid length ".toList ++ ofNat n ++ ", expected fewer elements in array".toList

end DecodeError

/-- The outcome of decoding. -/
abbrev Decoded (α : Type) := Except DecodeError α

namespace Json

/-! ### Decoders -/

/-- A text. -/
def decodeText (expected : Expected) : Json → Decoded Text
  | .str s => .ok s
  | v => .error (.wrongType v expected)

/-- A truth value. -/
def decodeBool : Json → Decoded Bool
  | .bool b => .ok b
  | v => .error (.wrongType v .boolean)

/-- A number below a bound. -/
def decodeNat (bound : Nat) (expected : Expected) : Json → Decoded Nat
  | .int n => if 0 ≤ n ∧ n < bound then .ok n.toNat else .error (.wrongValue (.int n) expected)
  | v => .error (.wrongType v expected)

/-- A number of 32 bits. -/
def decodeWord32 (v : Json) : Decoded UInt32 := (decodeNat UInt32.size .word32 v).map UInt32.ofNat

/-- A number of 64 bits. -/
def decodeWord64 (v : Json) : Decoded UInt64 := (decodeNat UInt64.size .word64 v).map UInt64.ofNat

/-- Null or a value. -/
def decodeOption {α : Type} (decode : Json → Decoded α) : Json → Decoded (Option α)
  | .null => .ok none
  | v => (decode v).map some

/-- An array, element by element. -/
def decodeList {α : Type} (decode : Json → Decoded α) : Json → Decoded (List α)
  | .arr vs => vs.mapM decode
  | v => .error (.wrongType v .sequence)

/-- The members of an object in the order of their keys; of two with the same key the later
stays. -/
def members (ms : List (Text × Json)) : List (Text × Json) :=
  ms.foldl (fun r m => Text.place Prod.fst m r) []

end Json

end ActionItems
