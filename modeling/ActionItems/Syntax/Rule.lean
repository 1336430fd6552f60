import ActionItems.Text.Basic

/-! # Grammar rules

A grammar is a list of named rules over terminals. It is written in the usual notation: a rule is a
name, an equals sign and alternatives separated by bars; a star, a plus and a question mark after a
part say that it is repeated, that it is repeated at least once, and that it may be left out. A name
with a capital letter is that of a rule, any other name stands for a terminal of the language, and
text in quotes stands for itself. A tilde in front of quoted text says that the text follows the
token before it without a blank.

A rule starts at the beginning of a line and goes on over the indented lines after it. -/

namespace ActionItems.Syntax

open Text

/-- The smallest parts of a source, as a grammar speaks of them. -/
inductive Terminal where
  /-- A mark. -/
  | sign (s : Text)
  /-- A mark directly after the token before it. -/
  | glued (s : Text)
  /-- A keyword. -/
  | word (s : Text)
  /-- A class of tokens. -/
  | token (kind : Text)
  /-- The empty text, where a condition on the text that follows holds. -/
  | guard (condition : Text)
  deriving DecidableEq, Repr

/-- The right side of a rule. -/
inductive Rule where
  | terminal (t : Terminal)
  /-- The rule with a name. -/
  | call (name : Text)
  | seq (rs : List Rule)
  | alt (rs : List Rule)
  /-- Any number of times. -/
  | star (r : Rule)
  /-- At least once. -/
  | plus (r : Rule)
  /-- At most once. -/
  | opt (r : Rule)

/-- Named rules; the first is the one for a whole source. -/
abbrev Grammar := List (Text × Rule)

/-! ### Reading the notation -/

/-- A part of a rule as it is written. -/
inductive Mark where
  | leftParen
  | rightParen
  | bar
  | star
  | plus
  | opt
  | quoted (s : Text)
  /-- Quoted text after a tilde. -/
  | glued (s : Text)
  | name (s : Text)
  deriving DecidableEq

/-- A character of a name. -/
def isNameChar (c : Char) : Bool := c.isAlphanum || c == '_'

/-- The text before the next quote, and the text after it. -/
def untilQuote (s : Text) : Text × Text :=
  (s.takeWhile (· != '\x27'), (s.dropWhile (· != '\x27')).drop 1)

/-- The marks of a rule, at most as many as the fuel says. -/
def marks : Nat → Text → List Mark
  | 0, _ => []
  | _, [] => []
  | fuel + 1, '(' :: s => .leftParen :: marks fuel s
  | fuel + 1, ')' :: s => .rightParen :: marks fuel s
  | fuel + 1, '|' :: s => .bar :: marks fuel s
  | fuel + 1, '*' :: s => .star :: marks fuel s
  | fuel + 1, '+' :: s => .plus :: marks fuel s
  | fuel + 1, '?' :: s => .opt :: marks fuel s
  | fuel + 1, '\x27' :: s => .quoted (untilQuote s).1 :: marks fuel (untilQuote s).2
  | fuel + 1, '~' :: '\x27' :: s => .glued (untilQuote s).1 :: marks fuel (untilQuote s).2
  | fuel + 1, c :: s =>
    if isNameChar c then .name (c :: s.takeWhile isNameChar) :: marks fuel (s.dropWhile isNameChar)
    else marks fuel s

/-- Quoted text is a keyword if it consists of letters, and a mark otherwise. -/
def ofQuoted (s : Text) : Terminal := if s.all isNameChar then .word s else .sign s

/-- One alternative under construction and the finished ones, both in reverse. -/
structure Draft where
  alternatives : List Rule := []
  parts : List Rule := []

/-- Adds a part. -/
def Draft.push (d : Draft) (r : Rule) : Draft := { d with parts := r :: d.parts }

/-- Changes the last part. -/
def Draft.modify (d : Draft) (f : Rule → Rule) : Draft :=
  match d.parts with
  | [] => d
  | r :: rs => { d with parts := f r :: rs }

/-- A sequence of parts, a single part standing for itself. -/
def sequence : List Rule → Rule
  | [r] => r
  | rs => .seq rs

/-- Ends the alternative under construction. -/
def Draft.next (d : Draft) : Draft := ⟨sequence d.parts.reverse :: d.alternatives, []⟩

/-- The rule of a draft. -/
def Draft.finish (d : Draft) : Rule :=
  match d.next.alternatives with
  | [r] => r
  | rs => .alt rs.reverse

/-- Reads a mark into the innermost of the open drafts. -/
def readMark (named : Text → Option Terminal) (drafts : List Draft) (m : Mark) : List Draft :=
  match drafts, m with
  | [], _ => []
  | d :: ds, .leftParen => {} :: d :: ds
  | d :: e :: es, .rightParen => e.push d.finish :: es
  | [d], .rightParen => [d]
  | d :: ds, .bar => d.next :: ds
  | d :: ds, .star => d.modify .star :: ds
  | d :: ds, .plus => d.modify .plus :: ds
  | d :: ds, .opt => d.modify .opt :: ds
  | d :: ds, .quoted s => d.push (.terminal (ofQuoted s)) :: ds
  | d :: ds, .glued s => d.push (.terminal (.glued s)) :: ds
  | d :: ds, .name s => d.push (((named s).map Rule.terminal).getD (.call s)) :: ds

/-- The rule of marks in a row. -/
def readMarks (named : Text → Option Terminal) (ms : List Mark) : Rule :=
  ((ms.foldl (readMark named) [{}]).headD {}).finish

/-- The lines of a grammar joined to rules: an indented line belongs to the rule before it. -/
def ruleTexts : List Text → List Text
  | [] => []
  | l :: ls =>
    match ruleTexts ls with
    | [] => [l]
    | r :: rs => if r.head?.all isBlank then (l ++ r) :: rs else l :: r :: rs

/-- A rule from its name, the equals sign and the right side. -/
def readRule (named : Text → Option Terminal) (s : Text) : Option (Text × Rule) :=
  (splitOnce (· == '=') s).map fun (name, body) =>
    (trim name, readMarks named (marks body.length body))

/-- The grammar that a text in the notation describes. -/
def readGrammar (named : Text → Option Terminal) (s : String) : Grammar :=
  (ruleTexts (lines s.toList)).filterMap (readRule named)

end ActionItems.Syntax
