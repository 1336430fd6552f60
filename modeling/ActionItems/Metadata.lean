import ActionItems.Text.Ascending

/-! # Metadata of an action item

The text after a tag may open with metadata: `(@alice due:2025-09-01): message` in parentheses, or
`due:2025-09-01,prio:2 message` as one inline token. `Tail.parse` separates the two and reads the
metadata into a `Metadata`, a map kept in the order of its keys.

In parentheses, parts are separated by runs of `,` and `|` or by two or more blanks. Blanks around a
colon do not count. A part that consists of several words is read word by word when each word is a
handle or holds a colon; any other part is one word. A word `@name` and a word without a colon name
the assignee. -/

namespace ActionItems

/-- Keys with their values, in ascending order of the keys, each key once. -/
structure Metadata where
  entries : List (Text × Text)
  ascending : entries.Pairwise (fun a b => a.1 < b.1)
  deriving DecidableEq

namespace Metadata

/-- The map without entries. -/
def empty : Metadata := ⟨[], .nil⟩

/-- The map with the value of one key set; a later value replaces an earlier one. -/
def insert (k v : Text) (m : Metadata) : Metadata where
  entries := Text.place Prod.fst (k, v) m.entries
  ascending := Text.place_ascending (k, v) m.ascending

/-- The value of a key. -/
def get? (k : Text) (m : Metadata) : Option Text := m.entries.lookup k

/-- The map obtained by inserting the pairs from left to right. -/
def ofList (l : List (Text × Text)) : Metadata := l.foldl (fun m e => m.insert e.1 e.2) empty

/-- The key of the person that an item is assigned to. -/
def assigneeKey : Text := "assignee".toList

end Metadata

/-- The message of an action item and the metadata before it, absent when nothing was recognised. -/
structure Tail where
  text : Text
  metadata : Option Metadata
  deriving DecidableEq

namespace Tail

open Text Metadata

/-- A message after metadata, which is absent when it has no entry. -/
def withMetadata (text : Text) (m : Metadata) : Tail :=
  ⟨trim text, if m.entries.isEmpty then none else some m⟩

/-! ### Words -/

/-- The characters of a handle. -/
def isHandleChar (c : Char) : Bool := c.isAlphanum || c == '_' || c == '.' || c == '-'

/-- The name in a handle `@name`. -/
def handle? : Text → Option Text
  | '@' :: n => if !n.isEmpty && n.all isHandleChar then some n else none
  | _ => none

/-- A pair enters the map unless one of its sides is blank. -/
def addPair (k v : Text) (m : Metadata) : Metadata :=
  if (trim k).isEmpty || (trim v).isEmpty then m else m.insert (trim k) (trim v)

/-- Applies one word: a handle, a pair `key:value`, or the name of an assignee. -/
def addWord (m : Metadata) (w : Text) : Metadata :=
  match handle? w with
  | some n => m.insert assigneeKey n
  | none =>
    match splitOnce (· == ':') w with
    | some (k, v) => addPair k v m
    | none => m.insert assigneeKey w

/-! ### Parts in parentheses -/

/-- Drops the blanks that stand just before a colon. -/
def closeUpStep (c : Char) (rest : Text) : Text :=
  if isBlank c && rest.head? == some ':' then rest else c :: rest

/-- Drops the blanks that stand just after a colon; `afterColon` says that a colon was read last. -/
def dropAfterColon : Bool → Text → Text
  | _, [] => []
  | afterColon, c :: s =>
    if afterColon && isBlank c then dropAfterColon true s else c :: dropAfterColon (c == ':') s

/-- The text without blanks around its colons. -/
def tightenColons (s : Text) : Text := dropAfterColon false (s.foldr closeUpStep [])

/-- Whether a word can be read on its own. -/
def isWordLike (w : Text) : Bool := (handle? w).isSome || w.contains ':'

/-- Applies one part: word by word when it has several words and all can be read on their own, else
as one word. -/
def addPart (m : Metadata) (part : Text) : Metadata :=
  if (trim part).isEmpty then m
  else
    let s := tightenColons (trim part)
    let ws := words s
    if 1 < ws.length && ws.all isWordLike then ws.foldl addWord m else addWord m s

/-- Characters that separate parts on their own. -/
def isPartMark (c : Char) : Bool := c == ',' || c == '|'

/-- The parts between runs of part marks and runs of at least two blanks. A blank is held back until
the next character shows whether it stands alone. -/
def parts : Text → List Text
  | [] => [[]]
  | [c] => if isPartMark c then [[], []] else [[c]]
  | c :: d :: s =>
    if isPartMark c || (isBlank c && isBlank d) then [] :: parts (d :: s)
    else
      match parts (d :: s) with
      | [] => [[c]]
      | a :: r => (c :: a) :: r

/-- The text inside the parentheses at the head of a tail, up to the first closing one, and the text
after it. -/
def parenthesized? : Text → Option (Text × Text)
  | '(' :: body => splitOnce (· == ')') body
  | _ => none

/-- Drops one `:` or `-` between the parentheses and the message. -/
def dropSeparator (rest : Text) : Text :=
  match trimStart rest with
  | ':' :: s => s
  | '-' :: s => s
  | s => s

/-! ### Inline tokens -/

/-- The characters of the first key of an inline token. -/
def isKeyChar (c : Char) : Bool := c.isAlphanum || c == '_' || c == '-'

/-- A token `key:value` whose value is not the rest of a link. -/
def isInlineToken (token : Text) : Bool :=
  let key := token.takeWhile isKeyChar
  match token.dropWhile isKeyChar with
  | ':' :: value => !key.isEmpty && !value.isEmpty && !(List.isPrefixOf ['/', '/'] value)
  | _ => false

/-- The inline token before the first blank, and the text after that blank. -/
def splitInline (tail : Text) : Option (Text × Text) :=
  (splitOnce isBlank tail).filter fun (token, _) => isInlineToken token

/-- Applies one pair of an inline token; a piece without a colon says nothing. -/
def applyInline (m : Metadata) (piece : Text) : Metadata :=
  match splitOnce (· == ':') piece with
  | some (k, v) => addPair k v m
  | none => m

/-! ### The whole tail -/

/-- Reads the text after a tag. -/
def parse (raw : Text) : Tail :=
  let tail := trim raw
  match parenthesized? tail with
  | some (inside, rest) => withMetadata (dropSeparator rest) ((parts inside).foldl addPart .empty)
  | none =>
    match splitInline tail with
    | some (token, rest) => withMetadata rest ((splitAll (· == ',') token).foldl applyInline .empty)
    | none => ⟨tail, none⟩

/-- The characters between a tag and its tail. -/
def isTagMark (c : Char) : Bool := c == ':' || c == '-' || c == ')' || isBlank c

/-- The text after a tag word without the marks that separate it from the word and without trailing
blanks. -/
def dropTagMarks (s : Text) : Text := trimEnd (s.dropWhile isTagMark)

end Tail

end ActionItems
