import ActionItems.Json.Basic
import ActionItems.Decimal.Shortest

/-! # Writing JSON

Two layouts are written: one line without blanks, and an indented one in which every element and
every member has its own line. Both escape the quotation mark, the backslash and the control
characters, and nothing else. -/

namespace ActionItems.Json

/-! ### Strings -/

/-- The hexadecimal digit of a number below sixteen. -/
def hexDigit (n : Nat) : Char := Nat.digitChar n

/-- A character inside a quoted string. -/
def escape (c : Char) : Text :=
  match c.toNat with
  | 0x22 => ['\\', '\x22']
  | 0x5C => ['\\', '\\']
  | 0x08 => ['\\', 'b']
  | 0x09 => ['\\', 't']
  | 0x0A => ['\\', 'n']
  | 0x0C => ['\\', 'f']
  | 0x0D => ['\\', 'r']
  | n => if n < 0x20 then ['\\', 'u', '0', '0', hexDigit (n / 16), hexDigit (n % 16)] else [c]

/-- A string between quotation marks. -/
def quote (s : Text) : Text := '\x22' :: s.flatMap escape ++ ['\x22']

/-! ### One line -/

mutual

/-- A value on one line. -/
def compact : Json → Text
  | .null => "null".toList
  | .bool true => "true".toList
  | .bool false => "false".toList
  | .int n => Text.ofInt n
  | .double bits => Decimal.ofBits bits
  | .str s => quote s
  | .arr vs => '[' :: compactElements vs ++ [']']
  | .obj ms => '\x7b' :: compactMembers ms ++ ['\x7d']

/-- The elements of an array with commas between them. -/
def compactElements : List Json → Text
  | [] => []
  | [v] => compact v
  | v :: w :: vs => compact v ++ ',' :: compactElements (w :: vs)

/-- The members of an object with commas between them. -/
def compactMembers : List (Text × Json) → Text
  | [] => []
  | [(k, v)] => quote k ++ ':' :: compact v
  | (k, v) :: m :: ms => quote k ++ ':' :: compact v ++ ',' :: compactMembers (m :: ms)

end

/-! ### Indented -/

/-- The start of a line at the given depth: two blanks for each level. -/
def newLine (depth : Nat) : Text := '\n' :: List.replicate (2 * depth) ' '

mutual

/-- A value whose inner lines are indented below the given depth; an empty array or object stays on
its line. -/
def pretty (depth : Nat) : Json → Text
  | .arr [] => ['[', ']']
  | .arr (v :: vs) => '[' :: prettyElements (depth + 1) (v :: vs) ++ newLine depth ++ [']']
  | .obj [] => ['\x7b', '\x7d']
  | .obj (m :: ms) => '\x7b' :: prettyMembers (depth + 1) (m :: ms) ++ newLine depth ++ ['\x7d']
  | .null => "null".toList
  | .bool true => "true".toList
  | .bool false => "false".toList
  | .int n => Text.ofInt n
  | .double bits => Decimal.ofBits bits
  | .str s => quote s

/-- The elements of an array, each on a line at the given depth. -/
def prettyElements (depth : Nat) : List Json → Text
  | [] => []
  | [v] => newLine depth ++ pretty depth v
  | v :: w :: vs => newLine depth ++ pretty depth v ++ ',' :: prettyElements depth (w :: vs)

/-- The members of an object, each on a line at the given depth. -/
def prettyMembers (depth : Nat) : List (Text × Json) → Text
  | [] => []
  | [(k, v)] => newLine depth ++ quote k ++ ':' :: ' ' :: pretty depth v
  | (k, v) :: m :: ms =>
    newLine depth ++ quote k ++ ':' :: ' ' :: pretty depth v ++ ',' :: prettyMembers depth (m :: ms)

end

end ActionItems.Json
