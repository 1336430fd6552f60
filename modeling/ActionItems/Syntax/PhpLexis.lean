import ActionItems.Syntax.Literal

/-! # Tokens of PHP

A source is a page of text with stretches of code between opening and closing tags. The text between
a closing tag and the next opening tag counts as blank. -/

namespace ActionItems.Syntax.Php

open Text

/-! ### Tags -/

/-- An opening tag. -/
def openTag : Text → Option Nat
  | '<' :: '?' :: '=' :: _ => some 3
  | '<' :: '?' :: a :: b :: c :: _ => if lower [a, b, c] = "php".toList then some 5 else some 2
  | '<' :: '?' :: _ => some 2
  | _ => none

/-- The length of the text before the next opening tag. -/
def pageLength : Text → Nat
  | [] => 0
  | '<' :: '?' :: _ => 0
  | _ :: s => 1 + pageLength s

/-- The text before the first opening tag. -/
def page (s : Text) : Option Nat :=
  let n := pageLength s
  if n == 0 then none else some n

/-- A closing tag, the text after it and the next opening tag. -/
def interlude : Text → Option Nat
  | '?' :: '>' :: s =>
    let n := pageLength s
    some (2 + n + (openTag (s.drop n)).getD 0)
  | _ => none

/-! ### Comments -/

/-- The length of the rest of a line comment. It ends before the end of the line or before a closing
tag; a question mark at the end of the line takes the line's end with it. -/
def lineRest : Text → Nat
  | [] => 0
  | '\n' :: _ => 0
  | '\r' :: _ => 0
  | '?' :: '>' :: _ => 0
  | '?' :: '\n' :: _ => 2
  | '?' :: '\r' :: '\n' :: _ => 3
  | '?' :: '\r' :: _ => 0
  | ['?'] => 0
  | '?' :: _ :: s => 2 + lineRest s
  | _ :: s => 1 + lineRest s

/-- A line comment. A hash sign before a bracket opens attributes instead. -/
def lineComment : Text → Option Nat
  | '/' :: '/' :: s => some (2 + lineRest s)
  | '#' :: '[' :: _ => none
  | '#' :: '?' :: _ => some 1
  | '#' :: s => some (1 + lineRest s)
  | _ => none

/-- A comment. -/
def comment (s : Text) : Option Nat := firstOf [lineComment, blockComment] s

/-! ### Between tokens -/

/-- Blanks, and the invisible characters that count as blanks. -/
def isSpace (c : Char) : Bool :=
  isBlank c || c.toNat == 0xFEFF || c.toNat == 0x2060 || c.toNat == 0x200B

/-- A run of blanks, a comment, or text between tags. -/
def piece (s : Text) : Option Piece :=
  match s with
  | [] => none
  | c :: _ =>
    if isSpace c then some ⟨countWhile isSpace s, false⟩
    else
      match comment s with
      | some n => some ⟨n, true⟩
      | none => (interlude s).map (⟨·, false⟩)

/-- A run of blanks or a comment. -/
def innerPiece (s : Text) : Option Piece :=
  match s with
  | [] => none
  | c :: _ => if isSpace c then some ⟨countWhile isSpace s, false⟩ else (comment s).map (⟨·, true⟩)

/-- Whether a closing tag comes next, which ends a statement like a semicolon. -/
def closes (s : Text) : Bool := "?>".toList.isPrefixOf (s.drop (skipAll innerPiece s).length)

/-! ### Names -/

/-- A character of a name that is not its first. -/
def isNamePart (c : Char) : Bool := c.isAlphanum || c == '_' || (0x80 ≤ c.toNat && !isSpace c)

/-- The length of the name in front of a text. -/
def nameLength (s : Text) : Nat :=
  match s with
  | [] => 0
  | c :: _ => if isNamePart c && !c.isDigit then countWhile isNamePart s else 0

/-- A variable. -/
def variable_ : Text → Option Nat
  | '$' :: s =>
    let n := nameLength s
    if n == 0 then none else some (n + 1)
  | _ => none

/-! ### Literals -/

/-- The text of a plain string up to and including the closing quote. -/
def stringRest : Text → Option Nat
  | [] => none
  | '\x27' :: _ => some 1
  | '\\' :: _ :: s => (stringRest s).map (· + 2)
  | _ :: s => (stringRest s).map (· + 1)

/-- A plain string. -/
def stringToken : Text → Option Nat
  | '\x27' :: s => (stringRest s).map (· + 1)
  | 'b' :: '\x27' :: s => (stringRest s).map (· + 2)
  | _ => none

/-- A place in a source after some text, with the comments in that text. -/
structure Reached where
  offset : Nat
  rest : Text
  comments : List Span := []

/-- The place some characters further on. -/
def Reached.skip (r : Reached) (n : Nat) : Reached :=
  { r with offset := r.offset + n, rest := r.rest.drop n }

/-- The place after a comment. -/
def Reached.pass (r : Reached) (n : Nat) : Reached :=
  { r.skip n with comments := r.comments ++ [⟨r.offset, r.offset + n⟩] }

mutual

/-- The place after the closing quote of a string that holds expressions in braces. -/
def quotedRest (quote : Char) : Nat → Reached → Option Reached
  | 0, _ => none
  | fuel + 1, r =>
    match r.rest with
    | [] => none
    | '\\' :: _ :: _ => quotedRest quote fuel (r.skip 2)
    | '\x7b' :: '$' :: _ =>
      match codeRest fuel 1 (r.skip 2) with
      | some r' => quotedRest quote fuel r'
      | none => none
    | '$' :: '\x7b' :: _ =>
      match codeRest fuel 1 (r.skip 2) with
      | some r' => quotedRest quote fuel r'
      | none => none
    | c :: _ => if c == quote then some (r.skip 1) else quotedRest quote fuel (r.skip 1)

/-- The place after the brace that closes an expression, with as many open braces as given. -/
def codeRest : Nat → Nat → Reached → Option Reached
  | 0, _, _ => none
  | fuel + 1, depth, r =>
    match r.rest with
    | [] => none
    | '\x7b' :: _ => codeRest fuel (depth + 1) (r.skip 1)
    | '\x7d' :: _ => if depth ≤ 1 then some (r.skip 1) else codeRest fuel (depth - 1) (r.skip 1)
    | '\x22' :: _ =>
      match quotedRest '\x22' fuel (r.skip 1) with
      | some r' => codeRest fuel depth r'
      | none => none
    | '\x27' :: s =>
      match stringRest s with
      | some n => codeRest fuel depth (r.skip (n + 1))
      | none => none
    | _ :: _ =>
      match comment r.rest with
      | some n => codeRest fuel depth (r.pass n)
      | none => codeRest fuel depth (r.skip 1)

end

/-- The lexeme that ends at a place. -/
def Reached.lexeme (r : Reached) : Lexeme := { length := r.offset, comments := r.comments }

/-- A string that holds expressions. -/
def quotedToken (quote : Char) (s : Text) : Option Lexeme :=
  match s with
  | [] => none
  | c :: r =>
    if c == quote then
      (quotedRest quote (s.length + 1) { offset := 1, rest := r }).map Reached.lexeme
    else none

/-! ### Documents -/

/-- The label of a document and the number of characters of its opening line before the line's end;
the flag tells that the document is taken as it is. -/
def documentLabel (s : Text) : Option (Text × Bool × Nat) :=
  let blanks := countWhile (fun c => c == ' ' || c == '\t') s
  let r := s.drop blanks
  match r with
  | '\x22' :: t =>
    let n := nameLength t
    if n != 0 && (t.drop n).head? == some '\x22' then
      some (t.take n, false, blanks + n + 2)
    else none
  | '\x27' :: t =>
    let n := nameLength t
    if n != 0 && (t.drop n).head? == some '\x27' then
      some (t.take n, true, blanks + n + 2)
    else none
  | t =>
    let n := nameLength t
    if n != 0 then some (t.take n, false, blanks + n) else none

/-- The length of a line's end in front of a text. -/
def lineEnd : Text → Option Nat
  | '\r' :: '\n' :: _ => some 2
  | '\n' :: _ => some 1
  | '\r' :: _ => some 1
  | _ => none

/-- The length of the closing label, with the blanks before it, in front of a line. -/
def closingLabel (label s : Text) : Option Nat :=
  let blanks := countWhile (fun c => c == ' ' || c == '\t') s
  let r := s.drop blanks
  if label.isPrefixOf r && !((r.drop label.length).head?.any isNamePart) then
    some (blanks + label.length)
  else none

/-- A comment in front of a line of a document, with the blanks before it. -/
def lineStartComment (r : Reached) : Option Reached :=
  let r := r.skip (countWhile isSpace r.rest)
  (comment r.rest).map r.pass

/-- The place after a document's closing label. `fresh` says that a line starts here, and `first`
that it is the first line; on later lines a comment may stand in front. -/
def documentRest (label : Text) (plain : Bool) : Nat → Bool → Bool → Reached → Option Reached
  | 0, _, _, _ => none
  | fuel + 1, fresh, first, r =>
    match if fresh then closingLabel label r.rest else none with
    | some n => some (r.skip n)
    | none =>
      match if fresh && !first && !plain then lineStartComment r else none with
      | some r' => documentRest label plain fuel false false r'
      | none =>
        match lineEnd r.rest with
        | some n => documentRest label plain fuel true false (r.skip n)
        | none =>
          match r.rest, plain with
          | [], _ => none
          | '\\' :: _ :: _, false => documentRest label plain fuel false first (r.skip 2)
          | '\x7b' :: '$' :: _, false =>
            match codeRest fuel 1 (r.skip 2) with
            | some r' => documentRest label plain fuel false first r'
            | none => none
          | _, _ => documentRest label plain fuel false first (r.skip 1)

/-- A document: the text between a line that opens it with a label and a line that starts with the
label. -/
def document : Text → Option Lexeme
  | '<' :: '<' :: '<' :: s => do
    let (label, plain, n) ← documentLabel s
    let m ← lineEnd (s.drop n)
    let r : Reached := { offset := 3 + n + m, rest := s.drop (n + m) }
    (documentRest label plain (2 * s.length + 2) true true r).map Reached.lexeme
  | _ => none

/-! ### The language -/

/-- A scanner as the reading of a token. -/
def plain (scan : Text → Option Nat) (s : Text) : Option Lexeme :=
  (scan s).map fun n => { length := n }

/-- The token of a kind. -/
def token (kind : Text) : Text → Option Lexeme :=
  match String.ofList kind with
  | "page" => plain page
  | "opentag" => plain openTag
  | "variable" => plain variable_
  | "number" => plain number
  | "string" => plain stringToken
  | "quoted" => quotedToken '\x22'
  | "shell" => quotedToken '\x60'
  | "document" => document
  | _ => fun _ => none

/-- The names of terminals in the notation. -/
def named (s : Text) : Option Terminal :=
  match String.ofList s with
  | "lb" => some (.sign ['\x7b'])
  | "rb" => some (.sign ['\x7d'])
  | "close" => some (.guard s)
  | _ => if s.head?.any Char.isLower then some (.token s) else none

/-- The tokens of PHP. -/
def lexis : Lexis where
  tokenless := fun s => if pageLength s = s.length then some [] else none
  skip := skipAll piece
  skipPage := skipAll piece
  pageBarriers := []
  wordLength := nameLength
  foldsCase := true
  token := token
  rawKinds := ["page".toList]
  holds := fun _ => closes
  supplies := [.sign [';'], .sign ['\x7d']]

end ActionItems.Syntax.Php
