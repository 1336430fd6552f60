import ActionItems.Syntax.Rule

/-! # Productions

A grammar is lowered to productions over numbered nonterminals: options and repetitions become
nonterminals of their own. The places of the productions, that is the productions with a dot before
one of their symbols or at their end, are numbered in a row, so that moving the dot adds one. -/

namespace ActionItems.Syntax

/-- A symbol of a production. -/
inductive Symbol where
  | terminal (t : Nat)
  | nonterminal (n : Nat)
  deriving DecidableEq

/-- A nonterminal and one sequence of symbols that it stands for. -/
structure Production where
  head : Nat
  body : List Symbol

/-- What comes after the dot. -/
inductive Step where
  | shift (t : Nat)
  | call (n : Nat)
  /-- The dot is at the end of a production of the nonterminal. -/
  | finish (head : Nat)
  deriving DecidableEq

/-- The productions of a grammar, prepared for recognition. -/
structure Table where
  terminals : Array Terminal
  /-- The step at each place. -/
  steps : Array Step
  /-- The nonterminal of the production at each place. -/
  heads : Array Nat
  /-- The first places of the productions of each nonterminal. -/
  starts : Array (List Nat)
  /-- The nonterminals that stand for the empty sequence, among others. -/
  nullable : Array Bool
  /-- The nonterminals that the end of a source may follow. -/
  final : Array Bool

namespace Table

/-- The step at a place. -/
def step (T : Table) (place : Nat) : Step := T.steps.getD place (.finish 0)

/-- The terminal with a number. -/
def terminal (T : Table) (t : Nat) : Terminal := T.terminals.getD t (.sign [])

/-- The nonterminal of the production at a place. -/
def head (T : Table) (place : Nat) : Nat := T.heads.getD place 0

/-- Whether the dot at a place is before the first symbol. -/
def isFirst (T : Table) (place : Nat) : Bool := (T.starts.getD (T.head place) []).contains place

end Table

/-! ### Lowering -/

/-- The state of lowering. -/
structure Lowering where
  names : List (Text × Nat)
  terminals : Array Terminal := #[]
  productions : Array Production := #[]
  nonterminals : Nat

namespace Lowering

/-- The number of a terminal. -/
def terminal (l : Lowering) (t : Terminal) : Nat × Lowering :=
  match l.terminals.findIdx? (· == t) with
  | some i => (i, l)
  | none => (l.terminals.size, { l with terminals := l.terminals.push t })

/-- A new nonterminal. -/
def fresh (l : Lowering) : Nat × Lowering :=
  (l.nonterminals, { l with nonterminals := l.nonterminals + 1 })

/-- Adds a production. -/
def add (l : Lowering) (head : Nat) (body : List Symbol) : Lowering :=
  { l with productions := l.productions.push ⟨head, body⟩ }

mutual

/-- The symbols for a rule. -/
def body (l : Lowering) : Rule → List Symbol × Lowering
  | .terminal t =>
    let (i, l) := l.terminal t
    ([.terminal i], l)
  | .call name => ([.nonterminal ((l.names.lookup name).getD 0)], l)
  | .seq rs => bodies l rs
  | .alt rs =>
    let (n, l) := l.fresh
    ([.nonterminal n], alternatives l n rs)
  | .star r =>
    let (n, l) := l.fresh
    let (b, l) := body l r
    ([.nonterminal n], (l.add n []).add n (.nonterminal n :: b))
  | .plus r =>
    let (n, l) := l.fresh
    let (b, l) := body l r
    ([.nonterminal n], (l.add n b).add n (.nonterminal n :: b))
  | .opt r =>
    let (n, l) := l.fresh
    let (b, l) := body l r
    ([.nonterminal n], (l.add n []).add n b)

/-- The symbols for rules in a row. -/
def bodies (l : Lowering) : List Rule → List Symbol × Lowering
  | [] => ([], l)
  | r :: rs =>
    let (b, l) := body l r
    let (bs, l) := bodies l rs
    (b ++ bs, l)

/-- Productions of a nonterminal for alternative rules. -/
def alternatives (l : Lowering) (head : Nat) : List Rule → Lowering
  | [] => l
  | r :: rs =>
    let (b, l) := body l r
    alternatives (l.add head b) head rs

end

/-- Productions for a named rule. -/
def rule (l : Lowering) (name : Text) (r : Rule) : Lowering :=
  let n := (l.names.lookup name).getD 0
  match r with
  | .alt rs => l.alternatives n rs
  | r => l.alternatives n [r]

/-- The productions of a grammar, whose first rule has number zero. -/
def ofGrammar (g : Grammar) : Lowering :=
  let start : Lowering := { names := (g.map Prod.fst).zipIdx, nonterminals := g.length }
  g.foldl (fun l (name, r) => l.rule name r) start

end Lowering

/-! ### Tables -/

/-- Whether a symbol stands for the empty sequence. -/
def isNullable (nullable : Array Bool) : Symbol → Bool
  | .terminal _ => false
  | .nonterminal n => nullable.getD n false

/-- Marks the heads of productions all of whose symbols stand for the empty sequence. -/
def nullableRound (ps : Array Production) (nullable : Array Bool) : Array Bool :=
  ps.foldl (fun a p => if p.body.all (isNullable a) then a.setIfInBounds p.head true else a)
    nullable

/-- Marks the nonterminals at the end of a sequence of symbols, given in reverse. -/
def markFinal (nullable : Array Bool) (final : Array Bool) : List Symbol → Array Bool
  | [] => final
  | .terminal _ :: _ => final
  | .nonterminal n :: ss =>
    let final := final.setIfInBounds n true
    if nullable.getD n false then markFinal nullable final ss else final

/-- Marks the nonterminals at the end of the productions of marked nonterminals. -/
def finalRound (ps : Array Production) (nullable : Array Bool) (final : Array Bool) : Array Bool :=
  ps.foldl (fun a p => if a.getD p.head false then markFinal nullable a p.body.reverse else a) final

/-- Repeats a round until nothing changes, at most as often as the fuel says. -/
def saturate (round : Array Bool → Array Bool) : Nat → Array Bool → Array Bool
  | 0, a => a
  | fuel + 1, a =>
    let b := round a
    if b == a then a else saturate round fuel b

/-- The step before a symbol. -/
def Symbol.step : Symbol → Step
  | .terminal t => .shift t
  | .nonterminal n => .call n

/-- Adds the places of a production. -/
def addPlaces (acc : Array Step × Array (List Nat)) (p : Production) :
    Array Step × Array (List Nat) :=
  let (steps, starts) := acc
  ((p.body.foldl (fun a s => a.push s.step) steps).push (.finish p.head),
    starts.modify p.head (steps.size :: ·))

/-- The table of a grammar. -/
def Table.ofGrammar (g : Grammar) : Table :=
  let l := Lowering.ofGrammar g
  let n := l.nonterminals
  let (steps, starts) := l.productions.foldl addPlaces (#[], Array.replicate n [])
  let nullable := saturate (nullableRound l.productions) n (Array.replicate n false)
  let heads := l.productions.foldl (fun a p => a ++ Array.replicate (p.body.length + 1) p.head) #[]
  let final := saturate (finalRound l.productions nullable) n
    ((Array.replicate n false).setIfInBounds 0 true)
  { terminals := l.terminals, steps, heads, starts, nullable, final }

end ActionItems.Syntax
