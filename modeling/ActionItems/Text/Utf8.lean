import ActionItems.Text.Basic

/-! # Bytes of text

Text is stored as bytes in UTF-8. Bytes that are no text are read by putting the replacement
character in the place of each longest run of bytes that begins a character and does not end it, and
of each byte that begins none. -/

namespace ActionItems

/-- A sequence of bytes. -/
abbrev Bytes := List UInt8

namespace Utf8

/-! ### Writing -/

/-- The bytes of a character. -/
def encodeChar (c : Char) : Bytes :=
  let n := c.toNat
  if n < 0x80 then [UInt8.ofNat n]
  else if n < 0x800 then [UInt8.ofNat (0xC0 + n / 64), UInt8.ofNat (0x80 + n % 64)]
  else if n < 0x10000 then
    [UInt8.ofNat (0xE0 + n / 4096), UInt8.ofNat (0x80 + n / 64 % 64), UInt8.ofNat (0x80 + n % 64)]
  else
    [UInt8.ofNat (0xF0 + n / 262144), UInt8.ofNat (0x80 + n / 4096 % 64),
      UInt8.ofNat (0x80 + n / 64 % 64), UInt8.ofNat (0x80 + n % 64)]

/-- The bytes of a text. -/
def encode (s : Text) : Bytes := s.flatMap encodeChar

/-! ### Reading -/

/-- The character that stands for bytes that are no text. -/
def replacement : Char := '�'

/-- A byte after the first of a character. -/
def isTail (b : UInt8) : Bool := 0x80 ≤ b && b ≤ 0xBF

/-- The second bytes that may follow a first byte of three or four. -/
def isSecond (a b : UInt8) : Bool :=
  if a = 0xE0 then 0xA0 ≤ b && b ≤ 0xBF
  else if a = 0xED then 0x80 ≤ b && b ≤ 0x9F
  else if a = 0xF0 then 0x90 ≤ b && b ≤ 0xBF
  else if a = 0xF4 then 0x80 ≤ b && b ≤ 0x8F
  else isTail b

/-- The six low bits of a byte. -/
def low (b : UInt8) : Nat := b.toNat % 64

/-- The character at the head of a first byte and the bytes after it, and the number of those after
the first that belong to it. -/
def head (a : UInt8) (r : Bytes) : Char × Nat :=
  if a < 0x80 then (Char.ofNat a.toNat, 0)
  else if 0xC2 ≤ a && a ≤ 0xDF then
    match r with
    | b :: _ => if isTail b then (Char.ofNat (a.toNat % 32 * 64 + low b), 1) else (replacement, 0)
    | [] => (replacement, 0)
  else if 0xE0 ≤ a && a ≤ 0xEF then
    match r with
    | b :: r =>
      if isSecond a b then
        match r with
        | c :: _ =>
          if isTail c then (Char.ofNat (a.toNat % 16 * 4096 + low b * 64 + low c), 2)
          else (replacement, 1)
        | [] => (replacement, 1)
      else (replacement, 0)
    | [] => (replacement, 0)
  else if 0xF0 ≤ a && a ≤ 0xF4 then
    match r with
    | b :: r =>
      if isSecond a b then
        match r with
        | c :: r =>
          if isTail c then
            match r with
            | d :: _ =>
              if isTail d then
                (Char.ofNat (a.toNat % 8 * 262144 + low b * 4096 + low c * 64 + low d), 3)
              else (replacement, 2)
            | [] => (replacement, 2)
          else (replacement, 1)
        | [] => (replacement, 1)
      else (replacement, 0)
    | [] => (replacement, 0)
  else (replacement, 0)

/-- The text of bytes after as many as given, which belong to a character before. -/
def decodeFrom : Nat → Bytes → Text
  | _, [] => []
  | n + 1, _ :: r => decodeFrom n r
  | 0, a :: r => (head a r).1 :: decodeFrom (head a r).2 r

/-- The text that bytes hold, with the replacement character for bytes that are no text. -/
def decodeLossy (bs : Bytes) : Text := decodeFrom 0 bs

/-- The text that bytes hold, if they hold text. -/
def decode? (bs : Bytes) : Option Text :=
  let s := decodeLossy bs
  if encode s = bs then some s else none

end Utf8

end ActionItems
