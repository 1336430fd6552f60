import ActionItems.Text.Word
import ActionItems.Text.Basic

/-! # Tags

A tag names the kind of an action item. Two readings of a word meet here: `Tag.read` recognises a
tag word at the head of a text letter by letter under simple case folding, and `Tag.ofWord?` accepts
a whole word whose upper-case form is the name of a tag. The first knows that the Kelvin sign folds
to `k`; the second knows that a dotless `i` and the ligatures have upper-case forms made of basic
letters. -/

namespace ActionItems

/-- The kinds of action items. -/
inductive Tag where
  /-- Work that still has to be done. -/
  | todo
  /-- Known breakage that needs fixing. -/
  | fixme
  /-- A workaround that should be replaced. -/
  | hack
  deriving DecidableEq, Repr

namespace Tag

/-- All tags, in the order of a report. -/
def all : List Tag := [.todo, .fixme, .hack]

/-- The name of a tag. -/
def name : Tag → Text
  | .todo => ['T', 'O', 'D', 'O']
  | .fixme => ['F', 'I', 'X', 'M', 'E']
  | .hack => ['H', 'A', 'C', 'K']

/-! ### Whole words -/

/-- The upper-case form of a character, for every character whose form consists of basic letters;
any other character stands for itself, and its own form could be no part of a tag's name either. -/
def upper (c : Char) : Text :=
  match c.toNat with
  | 0xDF => ['S', 'S']
  | 0x131 => ['I']
  | 0x17F => ['S']
  | 0xFB00 => ['F', 'F']
  | 0xFB01 => ['F', 'I']
  | 0xFB02 => ['F', 'L']
  | 0xFB03 => ['F', 'F', 'I']
  | 0xFB04 => ['F', 'F', 'L']
  | 0xFB05 => ['S', 'T']
  | 0xFB06 => ['S', 'T']
  | _ => [c.toUpper]

/-- The tag whose name is the upper-case form of the word. -/
def ofWord? (word : Text) : Option Tag := all.find? fun t => t.name == word.flatMap upper

/-! ### Words at the head of a text -/

/-- The upper-case letter that a character folds to. The Kelvin sign is the only character outside
the basic letters that folds to a letter of a tag. -/
def fold (c : Char) : Char := if c.toNat = 0x212A then 'K' else c.toUpper

/-- The tag word that the text starts with, as it is spelt there, and the text after it. -/
def read (s : Text) : Option (Text × Text) :=
  all.findSome? fun t =>
    let n := t.name.length
    if (s.take n).map fold == t.name then some (s.take n, s.drop n) else none

/-- A tag word at the head of the text that is not the beginning of a longer word. -/
def readWhole (s : Text) : Option (Text × Text) :=
  (read s).filter fun (_, rest) => Text.endsWord rest

end Tag

end ActionItems
