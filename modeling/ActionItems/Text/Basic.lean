/-! # Text

Text is a list of characters. This module holds the blanks and the ways in which the library cuts
text: trimming, lines, words between blanks, and the first occurrence of a character.

A blank is a character with the `White_Space` property. Text is compared by code point, which is
also the order of its encoded bytes. -/

namespace ActionItems

/-- Text as the sequence of its characters. -/
abbrev Text := List Char

namespace Text

/-! ### Blanks -/

/-- The characters with the `White_Space` property. -/
def isBlank (c : Char) : Bool :=
  let n := c.toNat
  (0x09 ≤ n && n ≤ 0x0D) || n == 0x20 || n == 0x85 || n == 0xA0 || n == 0x1680 ||
    (0x2000 ≤ n && n ≤ 0x200A) || n == 0x2028 || n == 0x2029 || n == 0x202F || n == 0x205F ||
      n == 0x3000

/-- Text without its leading blanks. -/
def trimStart (s : Text) : Text := s.dropWhile isBlank

/-- One step of the scan from the end: a blank is dropped while nothing after it was kept. -/
def trimEndStep (c : Char) (kept : Text) : Text :=
  if isBlank c && kept.isEmpty then [] else c :: kept

/-- Text without its trailing blanks. -/
def trimEnd (s : Text) : Text := s.foldr trimEndStep []

/-- Text without its leading and trailing blanks. -/
def trim (s : Text) : Text := trimEnd (trimStart s)

/-! ### Cutting -/

/-- The text before the first character that satisfies `p`, and the text after it. -/
def splitOnce (p : Char → Bool) : Text → Option (Text × Text)
  | [] => none
  | c :: s => if p c then some ([], s) else (splitOnce p s).map fun (a, b) => (c :: a, b)

/-- The pieces between the characters that satisfy `p`; there is always one piece. -/
def splitAll (p : Char → Bool) : Text → List Text
  | [] => [[]]
  | c :: s =>
    match splitAll p s with
    | [] => [[c]]
    | a :: r => if p c then [] :: a :: r else (c :: a) :: r

/-- The words between blanks. -/
def words (s : Text) : List Text := (splitAll isBlank s).filter (!·.isEmpty)

/-- A line that was ended by a line feed, without the carriage return that may stand before it. -/
def dropReturn (line : Text) : Text :=
  if line.getLast? = some '\r' then line.dropLast else line

/-- The lines of a text. A line feed ends a line, and a last line needs none; a carriage return just
before a line feed is part of the line's end. -/
def lines (s : Text) : List Text := ended (splitAll (· == '\n') s)
where
  /-- The pieces between line feeds as lines: all but the last were ended, and an empty last one is
  none. -/
  ended : List Text → List Text
    | [] => []
    | [last] => if last.isEmpty then [] else [last]
    | a :: b :: r => dropReturn a :: ended (b :: r)

/-- The text after `pre`, if it starts with it. -/
def after? (pre s : Text) : Option Text := pre.isPrefixOf? s

/-- The text before `post`, if it ends with it. -/
def before? (post s : Text) : Option Text := (post.reverse.isPrefixOf? s.reverse).map List.reverse

/-- The pieces with `sep` between them. -/
def join (sep : Text) : List Text → Text
  | [] => []
  | [a] => a
  | a :: b :: r => a ++ sep ++ join sep (b :: r)

/-! ### Letters -/

/-- Letters of the basic alphabet in lower case, all else unchanged. -/
def lower (s : Text) : Text := s.map Char.toLower

/-- The decimal digits of a number. -/
def ofNat (n : Nat) : Text := Nat.toDigits 10 n

/-- The decimal digits of a number after its sign. -/
def ofInt : Int → Text
  | .ofNat n => ofNat n
  | .negSucc n => '-' :: ofNat (n + 1)

end Text

end ActionItems
