import ActionItems.Language
import ActionItems.Syntax.EcmascriptGrammar
import ActionItems.Syntax.PhpGrammar
import ActionItems.Syntax.Repair
import ActionItems.Syntax.Tree

/-! # Parsing

The tree of a source has a node for each comment and, if the source does not fit the grammar, a node
for its first error. -/

namespace ActionItems.Syntax

/-- The node of a span without children. -/
def leaf (source : Text) (kind : NodeKind) (sp : Span) : Tree := .node kind sp (sp.row source) []

/-- The node of a whole source. -/
def root (source : Text) (children : List Tree) : Tree := .node .other ⟨0, source.length⟩ 0 children

/-- The tree of a source that fits the grammar. -/
def fitting (source : Text) (comments : List Span) : Tree :=
  root source (comments.map (leaf source .comment))

/-- The kind of the node of a repair. -/
def RepairKind.node : RepairKind → NodeKind
  | .missing => .missing
  | .passed => .error

/-- The tree of a source that does not fit the grammar. -/
def broken (source : Text) (kind : RepairKind) (offset : Nat) : Tree :=
  root source [leaf source kind.node ⟨offset, offset⟩]

/-- The tree of a source. A source without tokens fits every grammar. -/
def Dialect.parse (D : Dialect) (source : Text) : Tree :=
  match D.lexis.tokenless source with
  | some comments => fitting source comments
  | none =>
    let run := D.run source
    if run.isComplete D then fitting source (run.allComments D)
    else
      let (kind, offset) := run.firstError D source
      broken source kind offset

end ActionItems.Syntax

namespace ActionItems

open Syntax

/-- The grammar and the tokens of a language. -/
def Language.dialect : Language → Dialect
  | .javascript => Ecmascript.javascript
  | .typescript => Ecmascript.typescript
  | .tsx => Ecmascript.tsx
  | .php => Php.php

/-- The tree of a source in a language. -/
def Language.parse (l : Language) (source : Text) : Tree := l.dialect.parse source

end ActionItems
