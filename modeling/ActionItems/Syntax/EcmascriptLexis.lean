import ActionItems.Syntax.Literal

/-! # Tokens of JavaScript and TypeScript

Both languages have the same tokens. They differ in where a line break stands for a semicolon. -/

namespace ActionItems.Syntax.Ecmascript

open Text

/-! ### Between tokens -/

/-- Blanks, and the invisible characters that count as blanks. -/
def isSpace (c : Char) : Bool :=
  isBlank c || c.toNat == 0xFEFF || c.toNat == 0x2060 || c.toNat == 0x200B

/-- The ends of lines. -/
def isLineEnd (c : Char) : Bool := c == '\n' || c == '\r' || c.toNat == 0x2028 || c.toNat == 0x2029

/-- A line comment. -/
def lineComment : Text → Option Nat
  | '/' :: '/' :: s => some (2 + countWhile (fun c => !isLineEnd c) s)
  | _ => none

/-- A comment. -/
def comment (s : Text) : Option Nat := firstOf [lineComment, blockComment] s

/-- The comment marks of pages make the rest of a line a comment. -/
def pageComment : Text → Option Nat
  | '<' :: '!' :: '-' :: '-' :: s => some (4 + countWhile (fun c => !isLineEnd c) s)
  | '-' :: '-' :: '>' :: s => some (3 + countWhile (fun c => !isLineEnd c) s)
  | _ => none

/-- A run of blanks, or a comment. -/
def piece (s : Text) : Option Piece :=
  match s with
  | [] => none
  | c :: _ => if isSpace c then some ⟨countWhile isSpace s, false⟩ else (comment s).map (⟨·, true⟩)

/-- A piece between tokens where the comment marks of pages count; a page comment holds no
annotations. -/
def pagePiece (s : Text) : Option Piece :=
  match pageComment s with
  | some n => some ⟨n, false⟩
  | none => piece s

/-! ### Names -/

/-- The marks that no name holds. -/
def marks : Text := ":;\x60\"'@#.,|^&<=>+-*/\\%?!~()[]\x7b\x7d".toList

/-- A character of a name that is not its first. -/
def isNamePart (c : Char) : Bool := !(c.toNat < 0x20 || isSpace c || marks.contains c)

/-- The first character of a name. -/
def isNameStart (c : Char) : Bool := isNamePart c && !c.isDigit

/-- A character of a name that is given by its code point. -/
def unicodeEscape : Text → Option Nat
  | '\\' :: 'u' :: '\x7b' :: s =>
    let n := countWhile isHexDigit s
    match s.drop n with
    | '\x7d' :: _ => if n == 0 then none else some (n + 4)
    | _ => none
  | '\\' :: 'u' :: s => if 4 ≤ countWhile isHexDigit s then some 6 else none
  | _ => none

/-- The length of the rest of a name, at most as many characters as the fuel says. -/
def nameRest : Nat → Text → Nat
  | 0, _ => 0
  | _, [] => 0
  | fuel + 1, c :: s =>
    if isNamePart c then 1 + nameRest fuel s
    else
      match unicodeEscape (c :: s) with
      | some n => n + nameRest fuel ((c :: s).drop n)
      | none => 0

/-- The length of the name in front of a text. -/
def nameLength (s : Text) : Nat :=
  match s with
  | [] => 0
  | c :: _ => if isNameStart c || (unicodeEscape s).isSome then nameRest (s.length + 1) s else 0

/-- A private name. -/
def privateName : Text → Option Nat
  | '#' :: s =>
    let n := nameLength s
    if n == 0 then none else some (n + 1)
  | _ => none

/-- A name with a dash in it, as in the tags of a page. -/
def dashedName (s : Text) : Option Nat :=
  let isPart := fun (c : Char) => c.isAlphanum || c == '_' || c == '$'
  let n := countWhile isPart s
  if n == 0 || s.head?.any Char.isDigit || (s.drop n).head? != some '-' then none
  else some (n + countWhile (fun c => isPart c || c == '-') (s.drop n))

/-! ### Literals -/

/-- A number, possibly with the letter of a big integer. -/
def numberToken (s : Text) : Option Nat :=
  (number s).map fun n =>
    match s.drop n with
    | 'n' :: _ => n + 1
    | _ => n

/-- An escape in a string or a template. -/
def escape : Text → Option Nat
  | '\\' :: 'x' :: a :: b :: _ => if isHexDigit a && isHexDigit b then some 4 else none
  | '\\' :: 'x' :: _ => none
  | '\\' :: 'u' :: s => unicodeEscape ('\\' :: 'u' :: s)
  | '\\' :: '\r' :: '\n' :: _ => some 3
  | '\\' :: _ :: _ => some 2
  | _ => none

/-- The text of a string up to and including the closing quote, at most as many characters as the
fuel says. -/
def stringRest (quote : Char) : Nat → Text → Option Nat
  | 0, _ => none
  | _, [] => none
  | fuel + 1, c :: s =>
    if c == quote then some 1
    else if c == '\n' || c == '\r' then none
    else if c == '\\' then
      match escape (c :: s) with
      | some n => (stringRest quote fuel ((c :: s).drop n)).map (· + n)
      | none => none
    else (stringRest quote fuel s).map (· + 1)

/-- A string. -/
def stringToken : Text → Option Nat
  | '\x22' :: s => (stringRest '\x22' (s.length + 1) s).map (· + 1)
  | '\x27' :: s => (stringRest '\x27' (s.length + 1) s).map (· + 1)
  | _ => none

/-- The text of a regular expression up to and including the closing slash; inside of brackets a
slash does not close it. -/
def regexRest (inClass : Bool) : Text → Option Nat
  | [] => none
  | '\n' :: _ => none
  | '\\' :: '\n' :: _ => none
  | '\\' :: _ :: s => (regexRest inClass s).map (· + 2)
  | '[' :: s => (regexRest true s).map (· + 1)
  | ']' :: s => (regexRest false s).map (· + 1)
  | '/' :: s => if inClass then (regexRest true s).map (· + 1) else some 1
  | _ :: s => (regexRest inClass s).map (· + 1)

/-- A regular expression with its flags. -/
def regexToken : Text → Option Nat
  | '/' :: '/' :: _ => none
  | '/' :: s => (regexRest false s).map fun n =>
    1 + n + countWhile (fun c => 'a' ≤ c && c ≤ 'z') (s.drop n)
  | _ => none

/-- The characters of a template up to its end or the next hole. -/
def templateChars : Nat → Text → Nat
  | 0, _ => 0
  | _, [] => 0
  | _, '\x60' :: _ => 0
  | _, '$' :: '\x7b' :: _ => 0
  | fuel + 1, '\\' :: s =>
    match escape ('\\' :: s) with
    | some n => n + templateChars fuel (('\\' :: s).drop n)
    | none => 0
  | fuel + 1, _ :: s => 1 + templateChars fuel s

/-! ### Tags of a page -/

/-- The text between tags, unless it consists of line breaks and the blanks around them. -/
def pageText (s : Text) : Option Nat :=
  let text := s.takeWhile fun c => !(c == '<' || c == '>' || c == '\x7b' || c == '\x7d' || c == '&')
  if sawText false text then some text.length else none
where
  /-- Whether there is more than line breaks and the blanks after them. -/
  sawText (afterBreak : Bool) : Text → Bool
    | [] => false
    | c :: s =>
      if c == '\n' then sawText true s
      else if afterBreak && isSpace c then sawText true s
      else true

/-- A quoted attribute. -/
def attributeText : Text → Option Nat
  | '\x22' :: s => closedBy '\x22' s
  | '\x27' :: s => closedBy '\x27' s
  | _ => none
where
  /-- The text up to and including the closing quote, after one character. -/
  closedBy (quote : Char) (s : Text) : Option Nat :=
    let n := countWhile (· != quote) s
    if n < s.length then some (n + 2) else none

/-- A character of a page given by its name or number. -/
def entity : Text → Option Nat
  | '&' :: s =>
    let n := countWhile (fun c => c.isAlphanum || c == '#') s
    match s.drop n with
    | ';' :: _ => if n == 0 then none else some (n + 2)
    | _ => none
  | _ => none

/-- The first line of a program that names its interpreter. -/
def hashBang : Text → Option Nat
  | '#' :: '!' :: s => some (2 + countWhile (· != '\n') s)
  | _ => none

/-! ### Semicolons -/

/-- What stands between a token and the next one: whether a line ends there, and whether one ends
inside of a block comment. -/
structure Gap where
  lineBreak : Bool := false
  commentBreak : Bool := false
  rest : Text

/-- The gap in front of a text, at most as many pieces as the fuel says. -/
def gap (isBreak : Char → Bool) : Nat → Gap → Gap
  | 0, g => g
  | fuel + 1, g =>
    match piece g.rest with
    | some ⟨n + 1, isComment⟩ =>
      let broken := (g.rest.take (n + 1)).any isBreak
      let rest := g.rest.drop (n + 1)
      gap isBreak fuel <|
        if isComment then { g with commentBreak := g.commentBreak || broken, rest }
        else { g with lineBreak := g.lineBreak || broken, rest }
    | _ => g

/-- Whether a text starts with the operator `in` or `instanceof`. -/
def startsInOperator : Text → Bool
  | 'i' :: 'n' :: s =>
    match s with
    | 's' :: 't' :: 'a' :: 'n' :: 'c' :: 'e' :: 'o' :: 'f' :: r => !(r.head?.any Char.isAlpha)
    | _ => !(s.head?.any Char.isAlpha)
  | _ => false

/-- Whether a line that starts like this goes on with the statement before it, in either
language. -/
def continues : Text → Bool
  | '+' :: s => s.head? != some '+'
  | '-' :: s => s.head? != some '-'
  | '!' :: s => s.head? == some '='
  | c :: s => "\x60,:;*%><=?^|&/".toList.contains c || startsInOperator (c :: s)
  | [] => false

/-- Where a semicolon may be left out in JavaScript. -/
def omitsSemicolon (afterOperand : Bool) (s : Text) : Bool :=
  let g := gap (fun c => c == '\n' || c.toNat == 0x2028 || c.toNat == 0x2029) (s.length + 1)
    { rest := s }
  match g.rest with
  | [] => true
  | '\x7d' :: _ => true
  | c :: r =>
    if g.lineBreak then
      if c == '.' then r.head?.any Char.isDigit
      else !(c == '[' || c == '(' || continues (c :: r))
    else g.commentBreak && !afterOperand && c != ',' && c != '='

/-- Where a semicolon may be left out in TypeScript. -/
def omitsSemicolonTyped (afterOperand signature : Bool) (s : Text) : Bool :=
  let g := gap (· == '\n') (s.length + 1) { rest := s }
  match g.rest with
  | [] => true
  | '\x7d' :: r =>
    if (r.dropWhile isSpace).head? == some ':' then afterOperand else true
  | c :: r =>
    g.lineBreak &&
      !(c == '.' || (afterOperand && (c == '(' || c == '[')) || (signature && c == '\x7b') ||
        continues (c :: r))

/-! ### The languages -/

/-- A scanner as the reading of a token. -/
def plain (scan : Text → Option Nat) (s : Text) : Option Lexeme :=
  (scan s).map fun n => { length := n }

/-- The token of a kind. -/
def token (kind : Text) : Text → Option Lexeme :=
  match String.ofList kind with
  | "private" => plain privateName
  | "number" => plain numberToken
  | "string" => plain stringToken
  | "regex" => plain regexToken
  | "chars" => plain fun s =>
    let n := templateChars (s.length + 1) s
    if n == 0 then none else some n
  | "dashed" => plain dashedName
  | "attribute" => plain attributeText
  | "text" => plain pageText
  | "entity" => plain entity
  | "hashbang" => plain hashBang
  | _ => fun _ => none

/-- The names of terminals in the notation. -/
def named (s : Text) : Option Terminal :=
  match String.ofList s with
  | "lb" => some (.sign ['\x7b'])
  | "rb" => some (.sign ['\x7d'])
  | "hole" => some (.sign ['$', '\x7b'])
  | "tick" => some (.sign ['\x60'])
  | "semi" => some (.guard s)
  | "semiop" => some (.guard s)
  | "semisig" => some (.guard s)
  | _ => if s.head?.any Char.isLower then some (.token s) else none

/-- The tokens, with the conditions for leaving out a semicolon. -/
def lexis (holds : Text → Text → Bool) : Lexis where
  tokenless := fun s =>
    let skipped := skipAll pagePiece s
    if skipped.length = s.length then some skipped.comments else none
  skip := skipAll piece
  skipPage := skipAll pagePiece
  pageBarriers := [.guard "semi".toList, .guard "semiop".toList, .guard "semisig".toList,
    .sign ['?'],
    .sign ['|', '|']]
  wordLength := nameLength
  foldsCase := false
  token := token
  rawKinds := ["chars".toList, "text".toList]
  holds := holds
  supplies := [.sign ['\x7d'], .sign [';']]

/-- The tokens of JavaScript. -/
def untyped : Lexis := lexis fun condition => omitsSemicolon (condition == "semiop".toList)

/-- The tokens of TypeScript. -/
def typed : Lexis :=
  lexis fun condition =>
    omitsSemicolonTyped (condition == "semiop".toList) (condition == "semisig".toList)

end ActionItems.Syntax.Ecmascript
