import ActionItems.Comment

/-! # Syntax trees

A tree holds the nodes of a source that matter here: its comments and its errors. An error is a part
of the source that does not fit the grammar, or a place where a token is missing. -/

namespace ActionItems.Syntax

/-- The kinds of nodes. -/
inductive NodeKind where
  | comment
  /-- A part of the source that does not fit. -/
  | error
  /-- A place where a token is missing. -/
  | missing
  | other
  deriving DecidableEq, Repr

/-- Whether a node of the kind is itself an error. -/
def NodeKind.isError : NodeKind → Bool
  | .error => true
  | .missing => true
  | _ => false

/-- A node with its kind, its place, its row and its children. -/
inductive Tree where
  | node (kind : NodeKind) (span : Span) (row : Nat) (children : List Tree)

namespace Tree

/-- The kind of the root. -/
def kind : Tree → NodeKind
  | .node k _ _ _ => k

/-- The place of the root. -/
def span : Tree → Span
  | .node _ sp _ _ => sp

/-- The row on which the root starts. -/
def row : Tree → Nat
  | .node _ _ r _ => r

/-- The children of the root. -/
def children : Tree → List Tree
  | .node _ _ _ cs => cs

mutual

/-- Whether the tree holds an error. -/
def hasError : Tree → Bool
  | .node k _ _ cs => k.isError || anyError cs

/-- Whether one of the trees holds an error. -/
def anyError : List Tree → Bool
  | [] => false
  | t :: ts => hasError t || anyError ts

end

mutual

/-- The row of the first error: the root's, or that in the first child that holds one. -/
def firstErrorRow : Tree → Nat
  | .node k _ r cs => if k.isError then r else (firstErrorRowOf cs).getD r

/-- The row of the first error in the first of the trees that holds one. -/
def firstErrorRowOf : List Tree → Option Nat
  | [] => none
  | t :: ts => if hasError t then some (firstErrorRow t) else firstErrorRowOf ts

end

/-- The line of the first error. -/
def errorLine (t : Tree) : LineNumber := .ofIndex t.firstErrorRow

mutual

/-- The places of the comments, in the order of the source. -/
def comments : Tree → List Span
  | .node k sp _ cs => if k = .comment then [sp] else commentsOf cs

/-- The places of the comments of trees in a row. -/
def commentsOf : List Tree → List Span
  | [] => []
  | t :: ts => comments t ++ commentsOf ts

end

end Tree

end ActionItems.Syntax
