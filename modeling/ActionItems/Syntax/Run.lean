import ActionItems.Syntax.Chart
import ActionItems.Syntax.Lexis

/-! # Reading a source

A run reads a source token by token and keeps the chart, the place reached and the comments passed.
It ends with the whole source read or with a token that does not fit. -/

namespace ActionItems.Syntax

/-- The state of reading a source. -/
structure Run where
  chart : Chart
  /-- The start and the end of the token before each column but the first. -/
  bounds : Array Span
  /-- The number of characters read. -/
  offset : Nat
  rest : Text
  /-- The comments passed, the last one first. -/
  comments : List Span

/-- A span further down in a source. -/
def shiftSpan (by_ : Nat) (sp : Span) : Span := ⟨sp.start + by_, sp.stop + by_⟩

namespace Run

/-- The run before the first token. -/
def start (D : Dialect) (source : Text) : Run :=
  { chart := Chart.initial D.table (D.passes source), bounds := #[], offset := 0, rest := source,
    comments := [] }

/-- The terminals that may come next. -/
def wanted (r : Run) : List Nat := r.chart.last.wanted

/-- The next token that fits. -/
def token? (D : Dialect) (r : Run) : Option Dialect.Token := D.next r.wanted r.rest

/-- The text before whatever comes next. -/
def skipped (D : Dialect) (r : Run) : Skipped := D.skip r.wanted r.rest

/-- Whether nothing but blanks and comments is left. -/
def atEnd (D : Dialect) (r : Run) : Bool := (r.rest.drop (r.skipped D).length).isEmpty

/-- The run after a token. -/
def push (D : Dialect) (r : Run) (t : Dialect.Token) : Run :=
  let start := r.offset + t.skipped.length
  let stop := start + t.lexeme.length
  let rest := r.rest.drop (t.skipped.length + t.lexeme.length)
  { chart := r.chart.push (r.chart.next D.table (D.passes rest) t.terminals)
    bounds := r.bounds.push ⟨start, stop⟩
    offset := stop
    rest
    comments := (t.lexeme.comments.map (shiftSpan start)).reverse ++
      (t.skipped.comments.map (shiftSpan r.offset)).reverse ++ r.comments }

/-- Reads on as long as tokens fit. Each token has at least one character, so the length of the
source is enough fuel. -/
def advance (D : Dialect) : Nat → Run → Run
  | 0, r => r
  | fuel + 1, r =>
    match r.token? D with
    | some t => advance D fuel (r.push D t)
    | none => r

/-- Whether the whole source has been read as the grammar says. -/
def isComplete (D : Dialect) (r : Run) : Bool := r.atEnd D && r.chart.last.isComplete D.table

/-- The comments of a source that has been read, in their order. -/
def allComments (D : Dialect) (r : Run) : List Span :=
  r.comments.reverse ++ (r.skipped D).comments.map (shiftSpan r.offset)

end Run

/-- The run over as much of a source as fits. -/
def Dialect.run (D : Dialect) (source : Text) : Run :=
  (Run.start D source).advance D (source.length + 1)

end ActionItems.Syntax
