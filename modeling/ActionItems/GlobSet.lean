import ActionItems.Glob

/-! # Sets of patterns

The patterns of a list are made into one set. A pattern that is plain text, but for directories
above or everything below, is looked up by its text. Each of the others is written as a regular
expression, and the set cannot be made if one of these is nested too deeply. The memory that the
expressions take is not bounded here. -/

namespace ActionItems

open Text

/-- A part of a regular expression for bytes. -/
inductive Expression where
  | byte (b : UInt8)
  /-- Any byte. -/
  | dot
  | oneOf (negated : Bool) (ranges : List (UInt8 × UInt8))
  /-- A part any number of times. -/
  | star (e : Expression)
  /-- A part once or not at all. -/
  | optional (e : Expression)
  /-- One of several sequences. -/
  | group (branches : List (List Expression))

namespace Expression

/-! ### Nesting -/

/-- The level that members of a list stand on; a single member needs none of its own. -/
def levelOf {α : Type} (members : List α) : Nat := if members.length < 2 then 0 else 1

mutual

/-- The number of levels that a part is nested. -/
def depth : Expression → Nat
  | .byte _ => 0
  | .dot => 0
  | .oneOf _ ranges => 1 + levelOf ranges
  | .star e => 1 + depth e
  | .optional e => 1 + depth e
  | .group bs => 1 + levelOf bs + depthOfBranches bs

/-- The depth of the deepest part of a sequence. -/
def depthOfParts : List Expression → Nat
  | [] => 0
  | e :: es => max (depth e) (depthOfParts es)

/-- The depth of the deepest of several sequences. -/
def depthOfBranches : List (List Expression) → Nat
  | [] => 0
  | b :: bs => max (levelOf b + depthOfParts b) (depthOfBranches bs)

end

/-! ### Writing -/

/-- The characters with a meaning of their own in an expression. -/
def special : List Char :=
  ['\\', '.', '+', '*', '?', '(', ')', '|', '[', ']', '\x7b', '\x7d', '^', '$', '#', '&', '-', '~']

/-- A byte in an expression. -/
def byteText (b : UInt8) : Text :=
  let c := Char.ofNat b.toNat
  if 0x80 ≤ b then ['\\', 'x', Nat.digitChar (b.toNat / 16), Nat.digitChar (b.toNat % 16)]
  else if special.contains c then ['\\', c]
  else [c]

/-- A range of bytes in an expression. -/
def rangeText (r : UInt8 × UInt8) : Text :=
  if r.1 = r.2 then byteText r.1 else byteText r.1 ++ '-' :: byteText r.2

mutual

/-- The text of a part. -/
def text : Expression → Text
  | .byte b => byteText b
  | .dot => ['.']
  | .oneOf negated ranges =>
    '[' :: (if negated then ['^'] else []) ++ ranges.flatMap rangeText ++ [']']
  | .star e => text e ++ ['*']
  | .optional e => text e ++ ['?']
  | .group bs => "(?:".toList ++ join ['|'] (branchTexts bs) ++ [')']

/-- The text of a sequence. -/
def textOfParts : List Expression → Text
  | [] => []
  | e :: es => text e ++ textOfParts es

/-- The texts of several sequences. -/
def branchTexts : List (List Expression) → List Text
  | [] => []
  | b :: bs => textOfParts b :: branchTexts bs

end

end Expression

namespace Glob

open Expression

/-! ### Expressions of patterns -/

/-- A byte that is no slash. -/
def noSlash : Expression := .oneOf true [(slash, slash)]

mutual

/-- The parts of an expression that a token stands for. -/
def partsOf : GlobToken → List Expression
  | .literal bytes => bytes.map .byte
  | .any => [noSlash]
  | .star => [.star noSlash]
  | .leading => [.group [[.optional (.byte slash)], [.star .dot, .byte slash]]]
  | .trailing => [.byte slash, .star .dot]
  | .middle => [.group [[.byte slash], [.byte slash, .star .dot, .byte slash]]]
  | .oneOf negated ranges => [.oneOf negated ranges]
  | .alternatives bs =>
    match branchesOf bs with
    | [] => []
    | parts => [.group parts]

/-- The parts that tokens stand for. -/
def partsOfAll : List GlobToken → List Expression
  | [] => []
  | t :: ts => partsOf t ++ partsOfAll ts

/-- The parts of several branches; a branch without content does not count. -/
def branchesOf : List (List GlobToken) → List (List Expression)
  | [] => []
  | b :: bs =>
    match partsOfAll b with
    | [] => branchesOf bs
    | parts => parts :: branchesOf bs

end

/-- The parts of the expression of a pattern. Two stars alone stand for everything. -/
def expression (pattern : List GlobToken) : List Expression :=
  match pattern with
  | [.leading] => [.star .dot]
  | _ => partsOfAll pattern

/-- The expression of a pattern as a text. -/
def expressionText (pattern : List GlobToken) : Text :=
  "(?-u)^".toList ++ textOfParts (expression pattern) ++ ['$']

/-- The number of levels that an expression may be nested. -/
def maxDepth : Nat := 250

/-- Whether the expression of a pattern is nested too deeply; the marks of its ends make it a
sequence of several parts. -/
def isTooDeep (pattern : List GlobToken) : Bool := maxDepth < 1 + depthOfParts (expression pattern)

/-! ### Forms of patterns -/

/-- Whether a token is one character. -/
def isLiteral : GlobToken → Bool
  | .literal _ => true
  | _ => false

/-- Whether a pattern is a name or a path, from the top or below any directories. -/
def isPath (pattern : List GlobToken) : Bool :=
  match pattern with
  | [] => false
  | [.leading] => false
  | .leading :: ts => ts.all isLiteral
  | ts => ts.all isLiteral

/-- Whether a pattern stands for everything below a path. -/
def isBelowPath (pattern : List GlobToken) : Bool :=
  match pattern.reverse with
  | .trailing :: ts => ts.all isLiteral
  | _ => false

/-- The byte in front of an extension. -/
def dot : UInt8 := 0x2E

/-- Whether a pattern stands for the names with an extension. -/
def isExtension (pattern : List GlobToken) : Bool :=
  match pattern with
  | .leading :: .star :: .literal [0x2E] :: ts =>
    ts.all fun
      | .literal bytes => bytes != [dot] && bytes != [slash]
      | _ => false
  | _ => false

/-- Whether a pattern is looked up without an expression. -/
def isPlain (pattern : List GlobToken) : Bool :=
  isPath pattern || isBelowPath pattern || isExtension pattern

/-- Whether tokens, from the last to the first, end with an extension. -/
def endsWithExtension : List GlobToken → Bool
  | .literal bytes :: ts => bytes != [slash] && (bytes == [dot] || endsWithExtension ts)
  | _ => false

/-! ### Faults of a set -/

/-- The words for an expression that cannot be read, given its number among those read together. -/
def unreadable (n : Nat) : Text := "error parsing pattern ".toList ++ ofNat n

/-- The reason for which patterns do not make a set, if there is one. The patterns that end with an
extension have expressions of their own and come first; the others share one. -/
def setFault? (patterns : List (List GlobToken)) : Option Text :=
  let searched := patterns.filter (!isPlain ·)
  match (searched.filter (endsWithExtension ·.reverse)).find? isTooDeep with
  | some p =>
    some ("error parsing glob '".toList ++ expressionText p ++ "': ".toList ++ unreadable 0)
  | none =>
    ((searched.filter (!endsWithExtension ·.reverse)).findIdx? isTooDeep).map unreadable

end Glob

end ActionItems
