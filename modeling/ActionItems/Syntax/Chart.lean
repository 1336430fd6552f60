import Std.Data.HashMap
import Std.Data.HashSet
import ActionItems.Syntax.Table

/-! # Charts

A chart has a column for each token that has been read, and one before the first token. A column
holds the items that agree with the tokens so far: a place in a production and the column in which
that production began. A column is closed under two rules: an item before a nonterminal brings in
the productions of the nonterminal, and an item at the end of a production moves the items that wait
for it. -/

namespace ActionItems.Syntax

/-- A place in a production and the column in which the production began. -/
structure Item where
  place : Nat
  origin : Nat
  deriving DecidableEq

/-- The item with its dot moved over one symbol. -/
def Item.advance (i : Item) : Item := ⟨i.place + 1, i.origin⟩

/-- The items of a column, with those that wait for a nonterminal and those that wait for a
terminal. -/
structure Column where
  items : Array Item := #[]
  seen : Std.HashSet Nat := {}
  waiting : Std.HashMap Nat (List Item) := {}
  shifts : Std.HashMap Nat (List Item) := {}

/-- The columns read so far. -/
abbrev Chart := Array Column

namespace Column

/-- The items that wait for a nonterminal. -/
def waitingFor (c : Column) (n : Nat) : List Item := c.waiting.getD n []

/-- The items that wait for a terminal. -/
def shiftsOf (c : Column) (t : Nat) : List Item := c.shifts.getD t []

/-- The terminals that may come next. -/
def wanted (c : Column) : List Nat := c.shifts.keys

/-- The number of an item in a column. -/
def key (T : Table) (i : Item) : Nat := i.origin * T.steps.size + i.place

/-- Whether the column holds an item. -/
def holdsItem (T : Table) (c : Column) (i : Item) : Bool := c.seen.contains (key T i)

/-- Adds an item that is not there yet. -/
def add (T : Table) (c : Column) (i : Item) : Column :=
  if c.seen.contains (key T i) then c
  else { c with items := c.items.push i, seen := c.seen.insert (key T i) }

/-- The items at the end of a production move those that waited for it. -/
def finish (T : Table) (past : Chart) (c : Column) (i : Item) (head : Nat) : Column :=
  let ws :=
    if i.origin < past.size then (past.getD i.origin {}).waitingFor head else c.waitingFor head
  ws.foldl (fun c w => c.add T w.advance) c

/-- The items before a nonterminal bring in its productions. -/
def call (T : Table) (k : Nat) (c : Column) (i : Item) (n : Nat) : Column :=
  let c := { c with waiting := c.waiting.insert n (i :: c.waitingFor n) }
  let c := (T.starts.getD n []).foldl (fun c p => c.add T ⟨p, k⟩) c
  if T.nullable.getD n false then c.add T i.advance else c

/-- The items before a terminal wait for it; a terminal without text whose condition holds is
passed. -/
def shift (T : Table) (passes : Nat → Bool) (c : Column) (i : Item) (t : Nat) : Column :=
  let c := { c with shifts := c.shifts.insert t (i :: c.shiftsOf t) }
  if passes t then c.add T i.advance else c

/-- Applies the rule for one item. -/
def visit (T : Table) (past : Chart) (passes : Nat → Bool) (c : Column) (i : Item) : Column :=
  match T.step i.place with
  | .shift t => c.shift T passes i t
  | .call n => c.call T past.size i n
  | .finish head => c.finish T past i head

/-- Visits the items from an index on, at most as many as the fuel says. -/
def visitFrom (T : Table) (past : Chart) (passes : Nat → Bool) : Nat → Nat → Column → Column
  | 0, _, c => c
  | fuel + 1, index, c =>
    match c.items[index]? with
    | none => c
    | some i => visitFrom T past passes fuel (index + 1) (c.visit T past passes i)

/-- The closed column with the given items after the columns of a chart. -/
def close (T : Table) (past : Chart) (passes : Nat → Bool) (seeds : List Item) : Column :=
  let c := seeds.foldl (fun c i => c.add T i) {}
  visitFrom T past passes (T.steps.size * (past.size + 1) + 1) 0 c

/-- Whether a whole source has been read. -/
def isComplete (T : Table) (c : Column) : Bool :=
  c.items.any fun i => i.origin == 0 && T.step i.place == .finish 0

end Column

namespace Chart

/-- The last column. -/
def last (chart : Chart) : Column := chart.back?.getD {}

/-- The chart before the first token. -/
def initial (T : Table) (passes : Nat → Bool) : Chart :=
  #[Column.close T #[] passes ((T.starts.getD 0 []).map fun p => ⟨p, 0⟩)]

/-- The column after a token that is each of the given terminals. -/
def next (T : Table) (chart : Chart) (passes : Nat → Bool) (ts : List Nat) : Column :=
  Column.close T chart passes (ts.flatMap fun t => (chart.last.shiftsOf t).map Item.advance)

end Chart

end ActionItems.Syntax
