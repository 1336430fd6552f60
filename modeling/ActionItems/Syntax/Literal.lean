import ActionItems.Syntax.Lexis

/-! # Parts of tokens

The scanners here take a text and say how many of its first characters belong to the part they look
for, or that the text does not start with one. -/

namespace ActionItems.Syntax

open Text

/-- The number of leading characters that satisfy `p`. -/
def countWhile (p : Char → Bool) (s : Text) : Nat := (s.takeWhile p).length

/-- The first alternative that finds something. -/
def firstOf (scanners : List (Text → Option Nat)) (s : Text) : Option Nat :=
  scanners.findSome? fun f => f s

/-- A hexadecimal digit. -/
def isHexDigit (c : Char) : Bool := c.isDigit || ('a' ≤ c && c ≤ 'f') || ('A' ≤ c && c ≤ 'F')

/-! ### Comments -/

/-- The text up to and including the end of a block comment. -/
def blockRest : Text → Option Nat
  | [] => none
  | '*' :: '/' :: _ => some 2
  | _ :: s => (blockRest s).map (· + 1)

/-- A block comment. -/
def blockComment : Text → Option Nat
  | '/' :: '*' :: s => (blockRest s).map (· + 2)
  | _ => none

/-! ### Text between tokens -/

/-- A piece of the text between tokens: its length, and whether it is a comment. -/
structure Piece where
  length : Nat
  isComment : Bool

/-- The pieces in front of a text, at most as many as the fuel says; `offset` characters stand
before them. -/
def skipPieces (piece : Text → Option Piece) : Nat → Nat → Text → Skipped
  | 0, offset, _ => { length := offset }
  | fuel + 1, offset, s =>
    match piece s with
    | some ⟨n + 1, isComment⟩ =>
      let later := skipPieces piece fuel (offset + (n + 1)) (s.drop (n + 1))
      if isComment then
        { later with comments := ⟨offset, offset + (n + 1)⟩ :: later.comments }
      else later
    | _ => { length := offset }

/-- All pieces in front of a text. -/
def skipAll (piece : Text → Option Piece) (s : Text) : Skipped :=
  skipPieces piece (s.length + 1) 0 s

/-! ### Numbers -/

/-- Digits with single low lines between them. -/
def digits (p : Char → Bool) : Text → Option Nat
  | [] => none
  | c :: s => if p c then some (1 + more s) else none
where
  /-- The digits after the first. -/
  more : Text → Nat
    | [] => 0
    | '_' :: d :: s => if p d then 2 + more s else 0
    | c :: s => if p c then 1 + more s else 0

/-- The sum of a length and an optional further length. -/
def plus (n : Nat) (m : Option Nat) : Nat := n + m.getD 0

/-- The exponent of a number. -/
def exponent : Text → Option Nat
  | e :: s =>
    if e == 'e' || e == 'E' then
      match s with
      | '+' :: r => (digits Char.isDigit r).map (· + 2)
      | '-' :: r => (digits Char.isDigit r).map (· + 2)
      | r => (digits Char.isDigit r).map (· + 1)
    else none
  | [] => none

/-- The digits after a number's point. -/
def fraction : Text → Option Nat
  | '.' :: s => some (plus 1 (digits Char.isDigit s))
  | _ => none

/-- A number with a point in front. -/
def pointNumber : Text → Option Nat
  | '.' :: s => (digits Char.isDigit s).map fun n => let m := n + 1; plus m (exponent (s.drop n))
  | _ => none

/-- A decimal number. -/
def decimalNumber (s : Text) : Option Nat :=
  (digits Char.isDigit s).map fun n =>
    let m := plus n (fraction (s.drop n))
    plus m (exponent (s.drop m))

/-- A number in another base after a letter. -/
def baseNumber (letter : Char) (p : Char → Bool) : Text → Option Nat
  | '0' :: c :: s => if c.toLower == letter then (digits p s).map (· + 2) else none
  | _ => none

/-- A number in any of the usual bases. -/
def number (s : Text) : Option Nat :=
  firstOf [baseNumber 'x' isHexDigit, baseNumber 'b' (fun c => c == '0' || c == '1'),
    baseNumber 'o' (fun c => '0' ≤ c && c ≤ '7'), decimalNumber, pointNumber] s

end ActionItems.Syntax
