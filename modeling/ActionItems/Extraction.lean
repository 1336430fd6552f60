import ActionItems.Fault
import ActionItems.Syntax.Parse

/-! # Extraction by syntax

The annotations of a source are those of the comments in its tree, in the order of the source; a
source with an error has none, and the line of the first error is told instead. An extractor has a
slot for the parser of each language and makes a parser when it is asked for its language for the
first time. -/

namespace ActionItems

open Syntax

/-- The annotations of a tree of a source. -/
def Language.annotationsOf (l : Language) (source : Text) (t : Tree) :
    Except SyntaxFault (List Annotation) :=
  if t.hasError then .error (.error t.errorLine)
  else .ok (t.comments.flatMap fun sp => (Comment.ofSpan l.commentStyle source sp).annotations)

/-- The annotations of a source. -/
def Language.extract (l : Language) (source : Text) : Except SyntaxFault (List Annotation) :=
  l.annotationsOf source (l.parse source)

/-- A parser that was made for a language. -/
structure Parser where
  language : Language
  deriving DecidableEq

/-- The tree that a parser finds in a source. -/
def Parser.parse (p : Parser) (source : Text) : Tree := p.language.parse source

/-- The slot for the parser of a language. -/
def Language.slot : Language → Fin 4
  | .javascript => 0
  | .typescript => 1
  | .tsx => 2
  | .php => 3

theorem Language.all_slot (l : Language) : Language.all[l.slot.val]? = some l := by
  cases l <;> rfl

theorem Language.eq_of_slot_eq {l m : Language} (h : l.slot = m.slot) : l = m := by
  have hsome : some l = some m := by rw [← l.all_slot, h, m.all_slot]
  exact Option.some.inj hsome

/-- The parsers that have been made, each in the slot of its language. -/
structure Extractor where
  slots : Vector (Option Parser) 4
  placed : ∀ (i : Fin 4) (p : Parser), slots[i] = some p → p.language.slot = i
  deriving DecidableEq

namespace Extractor

/-- An extractor that has not been asked yet. -/
def fresh : Extractor where
  slots := Vector.replicate 4 none
  placed := by simp

/-- The extractor with a parser put into its slot. -/
def put (e : Extractor) (p : Parser) : Extractor where
  slots := e.slots.set p.language.slot (some p)
  placed := by
    intro i q h
    rw [Fin.getElem_fin, Vector.getElem_set] at h
    split at h
    · next heq =>
      cases h
      exact Fin.ext heq
    · exact e.placed i q h

/-- The parser in the slot of a language, if it has been made. -/
def parser? (e : Extractor) (l : Language) : Option Parser := e.slots[l.slot]

/-- The parser of a language, which is made if its slot is empty, and the extractor that holds
it. -/
def acquire (e : Extractor) (l : Language) : Extractor × Parser :=
  match e.parser? l with
  | some p => (e, p)
  | none => (e.put ⟨l⟩, ⟨l⟩)

/-- The extractor after it has been asked for a language. -/
def load (e : Extractor) (l : Language) : Extractor := (e.acquire l).1

/-- The number of parsers that have been made. -/
def size (e : Extractor) : Nat := e.slots.toList.countP Option.isSome

/-- The annotations of a source, and the extractor afterwards. The parser is kept even if the source
has an error. -/
def extract (e : Extractor) (l : Language) (source : Text) :
    Extractor × Except SyntaxFault (List Annotation) :=
  let (e, p) := e.acquire l
  (e, l.annotationsOf source (p.parse source))

theorem acquire_snd (e : Extractor) (l : Language) : (e.acquire l).2 = ⟨l⟩ := by
  unfold acquire
  split
  · next p h =>
    have hlanguage : p.language = l := Language.eq_of_slot_eq (e.placed l.slot p h)
    exact congrArg Parser.mk hlanguage
  · rfl

theorem extract_eq (e : Extractor) (l : Language) (source : Text) :
    e.extract l source = (e.load l, l.extract source) := by
  have hparser : (e.acquire l).2.parse source = l.parse source := by
    rw [acquire_snd]
    rfl
  show ((e.acquire l).1, l.annotationsOf source ((e.acquire l).2.parse source)) = _
  rw [hparser]
  rfl

/-- The extractor in a listing. -/
def describe (e : Extractor) : Text :=
  "CommentExtractor \x7b loaded_parsers: ".toList ++ Text.ofNat e.size ++ ", .. \x7d".toList

/-- All languages in a listing. -/
def describeLanguages : Text :=
  "Grammars \x7b grammars: [".toList ++ Text.join ", ".toList (Language.all.map Language.title) ++
    "], .. \x7d".toList

end Extractor

end ActionItems
