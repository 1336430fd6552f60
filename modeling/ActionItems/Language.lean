import ActionItems.Comment
import ActionItems.Path

/-! # Languages

The languages whose comments are found by syntax, the extensions of their files, and the choice
between reading a file by its syntax and reading it line by line. -/

namespace ActionItems

/-- The languages with a grammar. -/
inductive Language where
  /-- JavaScript, with JSX. -/
  | javascript
  /-- TypeScript without JSX. -/
  | typescript
  /-- TypeScript with JSX. -/
  | tsx
  /-- PHP inside of a page of text. -/
  | php
  deriving DecidableEq, Repr

namespace Language

/-- All languages. -/
def all : List Language := [.javascript, .typescript, .tsx, .php]

/-- The name of a language in messages. -/
def name : Language → Text
  | .javascript => "javascript".toList
  | .typescript => "typescript".toList
  | .tsx => "tsx".toList
  | .php => "php".toList

/-- The name of a language in a listing. -/
def title : Language → Text
  | .javascript => "JavaScript".toList
  | .typescript => "TypeScript".toList
  | .tsx => "Tsx".toList
  | .php => "Php".toList

/-- The language with the given name. -/
def ofName? (s : Text) : Option Language := all.find? fun l => l.name == s

/-- The extensions of a language's files. -/
def extensions : Language → List Text
  | .javascript => ["js".toList, "jsx".toList, "mjs".toList, "cjs".toList]
  | .typescript => ["ts".toList, "mts".toList, "cts".toList]
  | .tsx => ["tsx".toList]
  | .php => ["php".toList]

/-- The language of the files with an extension, in letters of either case. -/
def ofExtension? (ext : Text) : Option Language :=
  all.find? fun l => l.extensions.contains (Text.lower ext)

/-- Whether a language is a dialect of JavaScript. -/
def isEcmascript : Language → Bool
  | .php => false
  | _ => true

/-- The comment delimiters of a language. -/
def commentStyle : Language → CommentStyle
  | .php => .slashesOrHash
  | _ => .slashes

end Language

/-- How the annotations of a file are found. -/
inductive Strategy where
  /-- In the comments of its syntax tree. -/
  | structural (language : Language)
  /-- Line by line. -/
  | lineScan
  deriving DecidableEq, Repr

namespace Strategy

/-- The strategy for files with an extension. -/
def ofExtension (ext : Text) : Strategy :=
  ((Language.ofExtension? ext).map structural).getD lineScan

/-- The strategy for the file at a path. -/
def ofPath (p : Path) : Strategy := ((Path.extension? p).map ofExtension).getD lineScan

/-- The name of a strategy. -/
def label : Strategy → Text
  | .structural l => l.name
  | .lineScan => "line-scan".toList

end Strategy

end ActionItems
