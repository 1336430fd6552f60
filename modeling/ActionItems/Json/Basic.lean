import ActionItems.Text.Basic

/-! # JSON values

A number is kept as the integer or the double that it denotes; the members of an object keep their
order. -/

namespace ActionItems

/-- A JSON value. -/
inductive Json where
  | null
  | bool (b : Bool)
  | int (n : Int)
  /-- A number that is no 64-bit integer, by the bits of the nearest double. -/
  | double (bits : UInt64)
  | str (s : Text)
  | arr (vs : List Json)
  | obj (ms : List (Text × Json))

namespace Json

/-- The value of the first member with the given key. -/
def get? (key : Text) : Json → Option Json
  | obj ms => ms.lookup key
  | _ => none

/-- A text literal as a value. -/
def ofString (s : String) : Json := .str s.toList

/-- A natural number as a value. -/
def ofNat (n : Nat) : Json := .int n

/-- An object whose keys are given as literals. -/
def object (ms : List (String × Json)) : Json := .obj (ms.map fun (k, v) => (k.toList, v))

/-- The value inside, or null. -/
def ofOption {α : Type} (f : α → Json) : Option α → Json
  | some a => f a
  | none => .null

end Json

end ActionItems
