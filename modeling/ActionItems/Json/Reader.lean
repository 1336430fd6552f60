import ActionItems.Json.Basic

/-! # Reading JSON

The reader follows the grammar of JSON. Each step returns the value and the text after it; the depth
of the recursion is bounded by the length of the text, since each step down consumes a character. -/

namespace ActionItems.Json

/-! ### Blanks and literals -/

/-- The blanks between the tokens of JSON. -/
def isJsonBlank (c : Char) : Bool := c == ' ' || c == '\t' || c == '\n' || c == '\r'

/-- The text from the next token on. -/
def skipBlanks (s : Text) : Text := s.dropWhile isJsonBlank

/-! ### Strings -/

/-- The value of a hexadecimal digit. -/
def hexValue (c : Char) : Option Nat :=
  if '0' ≤ c && c ≤ '9' then some (c.toNat - 48)
  else if 'a' ≤ c && c ≤ 'f' then some (c.toNat - 87)
  else if 'A' ≤ c && c ≤ 'F' then some (c.toNat - 55)
  else none

/-- The unit that four hexadecimal digits denote. -/
def hexUnit (a b c d : Char) : Option Nat := do
  let a ← hexValue a
  let b ← hexValue b
  let c ← hexValue c
  let d ← hexValue d
  return ((a * 16 + b) * 16 + c) * 16 + d

/-- The character of an escape of one letter. -/
def escaped (c : Char) : Option Char :=
  match c with
  | '\x22' => some '\x22'
  | '\\' => some '\\'
  | '/' => some '/'
  | 'b' => some (Char.ofNat 8)
  | 't' => some '\t'
  | 'n' => some '\n'
  | 'f' => some (Char.ofNat 12)
  | 'r' => some '\r'
  | _ => none

/-- The two units of a character outside the basic plane. -/
def isHighUnit (n : Nat) : Bool := 0xD800 ≤ n && n < 0xDC00

def isLowUnit (n : Nat) : Bool := 0xDC00 ≤ n && n < 0xE000

/-- Puts a character before the string read after it. -/
def before (c : Char) (r : Option (Text × Text)) : Option (Text × Text) :=
  r.map fun (s, rest) => (c :: s, rest)

/-- The string up to the closing quotation mark, and the text after the mark. -/
def readString : Text → Option (Text × Text)
  | '\x22' :: rest => some ([], rest)
  | '\\' :: 'u' :: a :: b :: c :: d :: rest =>
    match hexUnit a b c d with
    | none => none
    | some n =>
      if isHighUnit n then
        match rest with
        | '\\' :: 'u' :: a' :: b' :: c' :: d' :: rest' =>
          match hexUnit a' b' c' d' with
          | none => none
          | some m =>
            if isLowUnit m then
              before (Char.ofNat (0x10000 + (n - 0xD800) * 0x400 + (m - 0xDC00))) (readString rest')
            else none
        | _ => none
      else if isLowUnit n then none
      else before (Char.ofNat n) (readString rest)
  | '\\' :: c :: rest =>
    match escaped c with
    | some c => before c (readString rest)
    | none => none
  | c :: rest => if c == '\\' || c.toNat < 0x20 then none else before c (readString rest)
  | [] => none

/-! ### Numbers -/

/-- The value of a run of digits. -/
def digitsValue (ds : Text) : Nat := ds.foldl (fun n c => n * 10 + (c.toNat - 48)) 0

/-- The double nearest to `digits · 10 ^ exponent`. -/
def nearestDouble (negative : Bool) (digits : Nat) (exponent : Int) : UInt64 :=
  let x := if 0 ≤ exponent then Float.ofScientific digits false exponent.toNat
    else Float.ofScientific digits true (-exponent).toNat
  (if negative then -x else x).toBits

/-- A number without fraction and exponent is an integer if 64 bits can hold it; minus zero is a
double. -/
def wholeNumber (negative : Bool) (n : Nat) : Json :=
  if negative then
    if 0 < n && n ≤ UInt64.size / 2 then .int (-n) else .double (nearestDouble true n 0)
  else if n < UInt64.size then .int n else .double (nearestDouble false n 0)

/-- The digits after a point, if there is one. -/
def readFraction (s : Text) : Option (Text × Text) :=
  match s with
  | '.' :: r =>
    if (r.takeWhile Char.isDigit).isEmpty then none
    else some (r.takeWhile Char.isDigit, r.dropWhile Char.isDigit)
  | _ => some ([], s)

/-- The exponent, if there is one. -/
def readExponent (s : Text) : Option (Option Int × Text) :=
  match s with
  | c :: r =>
    if c == 'e' || c == 'E' then
      let (negative, r) := match r with
        | '-' :: r => (true, r)
        | '+' :: r => (false, r)
        | r => (false, r)
      let ds := r.takeWhile Char.isDigit
      if ds.isEmpty then none
      else
        let n : Int := digitsValue ds
        some (some (if negative then -n else n), r.dropWhile Char.isDigit)
    else some (none, s)
  | [] => some (none, s)

/-- A number and the text after it. -/
def readNumber (s : Text) : Option (Json × Text) :=
  let (negative, s) := match s with
    | '-' :: r => (true, r)
    | r => (false, r)
  let whole := s.takeWhile Char.isDigit
  if whole.isEmpty || (whole.head? == some '0' && 1 < whole.length) then none
  else
    match readFraction (s.dropWhile Char.isDigit) with
    | none => none
    | some (fraction, s) =>
      match readExponent s with
      | none => none
      | some (exponent, rest) =>
        if fraction.isEmpty && exponent.isNone then
          some (wholeNumber negative (digitsValue whole), rest)
        else
          some (.double (nearestDouble negative (digitsValue (whole ++ fraction))
            (exponent.getD 0 - fraction.length)), rest)

/-! ### Values -/

mutual

/-- A value and the text after it. -/
def readValue : Nat → Text → Option (Json × Text)
  | 0, _ => none
  | fuel + 1, s =>
    match skipBlanks s with
    | 'n' :: 'u' :: 'l' :: 'l' :: r => some (.null, r)
    | 't' :: 'r' :: 'u' :: 'e' :: r => some (.bool true, r)
    | 'f' :: 'a' :: 'l' :: 's' :: 'e' :: r => some (.bool false, r)
    | '\x22' :: r => (readString r).map fun (s, r) => (.str s, r)
    | '[' :: r =>
      match skipBlanks r with
      | ']' :: r => some (.arr [], r)
      | r => (readElements fuel r).map fun (vs, r) => (.arr vs, r)
    | '\x7b' :: r =>
      match skipBlanks r with
      | '\x7d' :: r => some (.obj [], r)
      | r => (readMembers fuel r).map fun (ms, r) => (.obj ms, r)
    | r => readNumber r

/-- The elements of an array up to its closing bracket. -/
def readElements : Nat → Text → Option (List Json × Text)
  | 0, _ => none
  | fuel + 1, s =>
    match readValue fuel s with
    | none => none
    | some (v, r) =>
      match skipBlanks r with
      | ']' :: r => some ([v], r)
      | ',' :: r => (readElements fuel r).map fun (vs, r) => (v :: vs, r)
      | _ => none

/-- The members of an object up to its closing brace. -/
def readMembers : Nat → Text → Option (List (Text × Json) × Text)
  | 0, _ => none
  | fuel + 1, s =>
    match skipBlanks s with
    | '\x22' :: r =>
      match readString r with
      | none => none
      | some (k, r) =>
        match skipBlanks r with
        | ':' :: r =>
          match readValue fuel r with
          | none => none
          | some (v, r) =>
            match skipBlanks r with
            | '\x7d' :: r => some ([(k, v)], r)
            | ',' :: r => (readMembers fuel r).map fun (ms, r) => ((k, v) :: ms, r)
            | _ => none
        | _ => none
    | _ => none

end

/-- The value that a whole text denotes. -/
def parse (s : Text) : Option Json :=
  match readValue (2 * s.length + 1) s with
  | some (v, rest) => if (skipBlanks rest).isEmpty then some v else none
  | none => none

end ActionItems.Json
