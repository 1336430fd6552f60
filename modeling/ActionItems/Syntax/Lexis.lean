import ActionItems.Comment
import ActionItems.Syntax.Table

/-! # Tokens

Which token comes next depends on the terminals that the grammar wants: of those that match the
text, the longest ones are taken, and a keyword is preferred to a name. A keyword that is not wanted
is a name like any other. Blanks and comments between tokens do not count, except that some
terminals match the text before them. -/

namespace ActionItems.Syntax

open Text

/-- The text between two tokens: its length and the comments in it, counted from its first
character. -/
structure Skipped where
  length : Nat := 0
  comments : List Span := []

/-- The text of a token: its length and the comments inside of it. -/
structure Lexeme where
  length : Nat
  comments : List Span := []

/-- The words, tokens and comments of a language. -/
structure Lexis where
  /-- The comments of a source that has no tokens. -/
  tokenless : Text → Option (List Span)
  /-- The blanks and comments in front of a text. -/
  skip : Text → Skipped
  /-- The same where the comment marks of pages count as comments too. -/
  skipPage : Text → Skipped
  /-- The terminals that have to be unwanted for the comment marks of pages to count. -/
  pageBarriers : List Terminal
  /-- The length of the word in front of a text. -/
  wordLength : Text → Nat
  /-- Whether keywords are recognised in letters of either case. -/
  foldsCase : Bool
  /-- The token of a kind in front of a text. -/
  token : Text → Text → Option Lexeme
  /-- The kinds whose tokens start before blanks and comments. -/
  rawKinds : List Text
  /-- The conditions of terminals without text. -/
  holds : Text → Text → Bool
  /-- The terminals, in order of preference, that a statement cut off by the end of the source is
  completed with. -/
  supplies : List Terminal

/-- How a terminal is found in a text. -/
inductive Matcher where
  | sign (s : Text)
  | glued (s : Text)
  | word (s : Text)
  | name
  | raw (read : Text → Option Lexeme)
  | token (read : Text → Option Lexeme)
  | guard (holds : Text → Bool)

/-- The kind of names. -/
def nameKind : Text := "name".toList

/-- How a terminal of a language is found. -/
def Lexis.matcher (lex : Lexis) : Terminal → Matcher
  | .sign s => .sign s
  | .glued s => .glued s
  | .word s => .word s
  | .token kind =>
    if kind = nameKind then .name
    else if lex.rawKinds.contains kind then .raw (lex.token kind)
    else .token (lex.token kind)
  | .guard condition => .guard (lex.holds condition)

/-- A language: its grammar and its tokens. -/
structure Dialect where
  table : Table
  lexis : Lexis
  matchers : Array Matcher
  barriers : List Nat
  supplies : List Nat

namespace Dialect

/-- The dialect of a grammar and the tokens of a language. -/
def of (g : Grammar) (lexis : Lexis) : Dialect :=
  let table := Table.ofGrammar g
  { table, lexis, matchers := table.terminals.map lexis.matcher,
    barriers := lexis.pageBarriers.filterMap fun t => table.terminals.findIdx? (· == t),
    supplies := lexis.supplies.filterMap fun t => table.terminals.findIdx? (· == t) }

/-- How the terminal with a number is found. -/
def matcher (D : Dialect) (t : Nat) : Matcher := D.matchers.getD t (.sign [])

/-- Whether the terminal with a number has no text and its condition holds. -/
def passes (D : Dialect) (rest : Text) (t : Nat) : Bool :=
  match D.matcher t with
  | .guard holds => holds rest
  | _ => false

/-! ### The next token -/

/-- A terminal that matches, and its text. -/
structure Hit where
  terminal : Nat
  lexeme : Lexeme
  isName : Bool := false
  isWord : Bool := false

/-- The match of a terminal that starts before blanks and comments. -/
def rawHit (D : Dialect) (rest : Text) (t : Nat) : Option Hit :=
  match D.matcher t with
  | .raw read => (read rest).map fun l => ⟨t, l, false, false⟩
  | _ => none

/-- The match of a terminal after blanks and comments; `word` is the word there, and `tight` says
that nothing was skipped. -/
def hit (D : Dialect) (tight : Bool) (word rest : Text) (t : Nat) : Option Hit :=
  match D.matcher t with
  | .sign s => if s.isPrefixOf rest then some ⟨t, { length := s.length }, false, false⟩ else none
  | .glued s =>
    if tight && s.isPrefixOf rest then some ⟨t, { length := s.length }, false, false⟩ else none
  | .word s => if s == word then some ⟨t, { length := s.length }, false, true⟩ else none
  | .name => if word.isEmpty then none else some ⟨t, { length := word.length }, true, false⟩
  | .token read => (read rest).map fun l => ⟨t, l, false, false⟩
  | .raw _ => none
  | .guard _ => none

/-- The longest matches, without names if a keyword is among them. -/
def longest (hits : List Hit) : List Hit :=
  let length := hits.foldl (fun n h => max n h.lexeme.length) 0
  let hits := hits.filter fun h => h.lexeme.length == length && length != 0
  if hits.any (·.isWord) then hits.filter (!·.isName) else hits

/-- The next token of a source. -/
structure Token where
  /-- The text before the token. -/
  skipped : Skipped
  lexeme : Lexeme
  /-- The terminals that the token is. -/
  terminals : List Nat

/-- The text before the next token. -/
def skip (D : Dialect) (wanted : List Nat) (rest : Text) : Skipped :=
  if D.barriers.any wanted.contains then D.lexis.skip rest else D.lexis.skipPage rest

/-- The word in front of a text, as keywords are compared. -/
def wordOf (D : Dialect) (rest : Text) : Text :=
  let word := rest.take (D.lexis.wordLength rest)
  if D.lexis.foldsCase then lower word else word

/-- The token that the matches make. -/
def tokenOf (skipped : Skipped) : List Hit → Option Token
  | [] => none
  | h :: hs => some ⟨skipped, h.lexeme, (h :: hs).map (·.terminal)⟩

/-- The next token in front of a text that is one of the wanted terminals. -/
def next (D : Dialect) (wanted : List Nat) (rest : Text) : Option Token :=
  match longest (wanted.filterMap (D.rawHit rest)) with
  | h :: hs => tokenOf {} (h :: hs)
  | [] =>
    let skipped := D.skip wanted rest
    let rest := rest.drop skipped.length
    tokenOf skipped (longest (wanted.filterMap (D.hit (skipped.length == 0) (D.wordOf rest) rest)))

end Dialect

end ActionItems.Syntax
