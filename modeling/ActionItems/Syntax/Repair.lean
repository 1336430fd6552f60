import ActionItems.Syntax.Run

/-! # Repairs

A source that does not fit the grammar is read as if it had been repaired. A repair supplies a
missing token, or passes over a part of the source: symbols already read, back to a place from which
reading can go on, and tokens not yet read. Each repair has a cost, and the first error of a source
is the first repair of the cheapest sequence of repairs after which the whole source is read. -/

namespace ActionItems.Syntax

/-- The kinds of repairs. -/
inductive RepairKind where
  /-- A token is supplied. -/
  | missing
  /-- A part of the source is passed over. -/
  | passed
  deriving DecidableEq

/-- A run with the repairs made so far. -/
structure Repaired where
  run : Run
  cost : Nat
  /-- The first repair, and where it was made. -/
  first : RepairKind × Nat

/-- The cost of a supplied token. -/
def missingCost : Nat := 610

/-- The cost of passing over a part of a source. -/
def passedCost (symbols characters lines : Nat) : Nat :=
  500 + 100 * symbols + characters + 30 * lines

/-! ### The symbols read so far -/

/-- An item of a column. -/
structure Spot where
  column : Nat
  item : Item

/-- The number of a spot. -/
def Spot.key (T : Table) (chart : Chart) (s : Spot) : Nat :=
  s.column * (T.steps.size * (chart.size + 1)) + Column.key T s.item

/-- The columns in which the symbol in front of a dot in the given column may have begun. -/
def beginnings (D : Dialect) (column : Nat) (c : Column) : Step → List Nat
  | .shift t =>
    match D.matcher t with
    | .guard _ => [column]
    | _ => [column - 1]
  | .call n =>
    let ended := c.items.toList.filterMap fun i =>
      if D.table.step i.place == .finish n then some i.origin else none
    if D.table.nullable.getD n false then column :: ended else ended
  | .finish _ => []

/-- The spots before the symbol in front of an item's dot, or, with the dot at the front, the spots
that wait for the item's production. -/
def Spot.before (D : Dialect) (chart : Chart) (s : Spot) : List Spot :=
  let T := D.table
  let c := chart.getD s.column {}
  if T.isFirst s.item.place then
    (c.waitingFor (T.head s.item.place)).map fun w => ⟨s.column, w⟩
  else
    let previous : Item := ⟨s.item.place - 1, s.item.origin⟩
    ((beginnings D s.column c (T.step previous.place)).filter fun j =>
      (chart.getD j {}).holdsItem T previous).map fun j => ⟨j, previous⟩

/-- The least number of symbols between each column and the last one, for the columns between
symbols. The spots of the current number of symbols are given, and those of the next. -/
def sweep (D : Dialect) (chart : Chart) :
    Nat → Nat → List Spot → List Spot → Std.HashSet Nat → Array (Option Nat) → Array (Option Nat)
  | 0, _, _, _, _, reached => reached
  | _, _, [], [], _, reached => reached
  | fuel + 1, symbols, [], s :: ss, seen, reached =>
    sweep D chart fuel (symbols + 1) (s :: ss) [] seen reached
  | fuel + 1, symbols, s :: ss, later, seen, reached =>
    let key := s.key D.table chart
    if seen.contains key then sweep D chart fuel symbols ss later seen reached
    else
      let reached :=
        if (reached.getD s.column none).isNone then
          reached.setIfInBounds s.column (some symbols)
        else reached
      let (near, far) := (s.before D chart).partition fun b => b.column == s.column
      sweep D chart fuel symbols (near ++ ss) (far ++ later) (seen.insert key) reached

/-- For each column between symbols, the number of symbols between it and the last column. -/
def symbolCounts (D : Dialect) (chart : Chart) : List (Nat × Nat) :=
  let k := chart.size - 1
  let spots : List Spot := chart.last.items.toList.map fun i => ⟨k, i⟩
  let fuel := chart.foldl (fun n c => n + c.items.size * (c.items.size + 1)) (2 * chart.size + 2)
  let reached := sweep D chart fuel 0 spots [] {} (Array.replicate chart.size none)
  reached.toList.zipIdx.filterMap fun (n, j) => n.map fun n => (j, n)

/-! ### The tokens not yet read -/

/-- A place further down in a source, with the tokens passed over on the way. -/
structure Ahead where
  offset : Nat
  rest : Text
  comments : List Span
  /-- The end of the last token passed over. -/
  stop : Nat
  count : Nat

/-- All terminals with text. -/
def Dialect.allTerminals (D : Dialect) : List Nat :=
  (List.range D.matchers.size).filter fun t =>
    match D.matcher t with
    | .raw _ => false
    | .guard _ => false
    | _ => true

/-- The place before the next token. -/
def Ahead.settle (D : Dialect) (a : Ahead) : Ahead :=
  let skipped := D.lexis.skip a.rest
  { a with
    offset := a.offset + skipped.length
    rest := a.rest.drop skipped.length
    comments := (skipped.comments.map (shiftSpan a.offset)).reverse ++ a.comments }

/-- The place before the next token but one. -/
def Ahead.pass (D : Dialect) (all : List Nat) (a : Ahead) : Ahead :=
  let length := ((D.next all a.rest).map (·.lexeme.length)).getD 1
  let stop := a.offset + length
  let next : Ahead :=
    { a with offset := stop, rest := a.rest.drop length, stop, count := a.count + 1 }
  next.settle D

/-- The places before the tokens ahead, at most as many as the fuel says, the last one at the end of
the source. -/
def aheadsFrom (D : Dialect) (all : List Nat) : Nat → Ahead → List Ahead
  | 0, a => [a]
  | fuel + 1, a => if a.rest.isEmpty then [a] else a :: aheadsFrom D all fuel (a.pass D all)

/-- The number of tokens that a repair passes over at most. -/
def aheadLimit : Nat := 40

/-- The places before the tokens that a run has not read. -/
def Run.aheads (D : Dialect) (r : Run) : List Ahead :=
  let here : Ahead :=
    { offset := r.offset, rest := r.rest, comments := r.comments, stop := r.offset, count := 0 }
  aheadsFrom D D.allTerminals aheadLimit (here.settle D)

/-! ### Repairs of a run -/

/-- Whether the run can go on with a token of its own or is complete. A token that takes in whatever
comes is no reason to go on. -/
def Run.goesOn (D : Dialect) (r : Run) : Bool :=
  !(r.wanted.any fun t => (D.rawHit r.rest t).isSome) && ((r.token? D).isSome || r.isComplete D)

/-- The run that goes on at a place ahead after the first columns of a run. -/
def Run.resume (r : Run) (column : Nat) (a : Ahead) : Run :=
  { chart := r.chart.extract 0 (column + 1), bounds := r.bounds.extract 0 column,
    offset := a.offset, rest := a.rest,
    comments := a.comments }

/-- The end of the text read so far, up to the last comment. -/
def Run.lastEnd (D : Dialect) (r : Run) : Nat :=
  match (r.skipped D).comments.getLast? with
  | some sp => r.offset + sp.stop
  | none => r.offset

/-- The repairs that pass over a part of the source, given the place of the token that does not
fit. -/
def Run.passings (D : Dialect) (source : Text) (r : Run) (columns : List (Nat × Nat))
    (here a : Ahead) :
    List Repaired :=
  columns.filterMap fun (j, symbols) =>
    if symbols == 0 && a.count == 0 then none
    else
      let resumed := r.resume j a
      if resumed.goesOn D then
        let start := if symbols == 0 then here.offset else (r.bounds.getD j ⟨0, 0⟩).start
        let stop := if a.count == 0 then (r.bounds.back?.getD ⟨0, 0⟩).stop else a.stop
        let sp : Span := ⟨start, stop⟩
        some ⟨resumed, passedCost (symbols + a.count) (stop - start) ((sp.slice source).count '\n'),
          (.passed, start)⟩
      else none

/-- The run after a supplied terminal. -/
def Run.supply (D : Dialect) (r : Run) (passes : Nat → Bool) (t : Nat) : Run :=
  { r with
    chart := r.chart.push (r.chart.next D.table passes [t])
    bounds := r.bounds.push ⟨r.offset, r.offset⟩ }

/-- Whether a statement has just ended that the end of the source may follow. -/
def Column.endsStatement (T : Table) (k : Nat) (c : Column) : Bool :=
  c.items.any fun i =>
    i.origin < k &&
      match T.step i.place with
      | .finish head => T.final.getD head false
      | _ => false

/-- The terminals that may be supplied. -/
def Run.suppliable (D : Dialect) (r : Run) (here : Ahead) : List Nat :=
  let strict := fun t => r.supply D (fun _ => false) t
  if here.rest.isEmpty then
    (D.supplies.find? fun t =>
      r.wanted.contains t &&
        (strict t).chart.last.endsStatement D.table r.chart.size).toList
  else
    r.wanted.filter fun t =>
      match D.matcher t with
      | .raw _ => false
      | .guard _ => false
      | _ => (({ strict t with offset := here.offset, rest := here.rest } : Run).token? D).isSome

/-- The repairs that supply a token. -/
def Run.supplements (D : Dialect) (r : Run) (here : Ahead) : List Repaired :=
  (r.suppliable D here).map fun t =>
    ⟨r.supply D (D.passes r.rest) t, missingCost, (.missing, r.lastEnd D)⟩

/-- The repairs of a run that cannot go on. -/
def Run.repairs (D : Dialect) (source : Text) (r : Run) : List Repaired :=
  match r.aheads D with
  | [] => []
  | here :: later =>
    let columns := symbolCounts D r.chart
    r.supplements D here ++ (here :: later).flatMap (r.passings D source columns here)

/-! ### The cheapest repairs -/

/-- Puts a repaired run in its place in a list by ascending cost. -/
def insertByCost (x : Repaired) : List Repaired → List Repaired
  | [] => [x]
  | y :: ys => if x.cost < y.cost then x :: y :: ys else y :: insertByCost x ys

/-- The first repair of the cheapest sequence of repairs, after at most as many tries as the fuel
says. -/
def cheapest (D : Dialect) (source : Text) : Nat → List Repaired → Option (RepairKind × Nat)
  | _, [] => none
  | 0, x :: _ => some x.first
  | fuel + 1, x :: xs =>
    let run := x.run.advance D (source.length + 1)
    if run.isComplete D then some x.first
    else
      let next := (run.repairs D source).map fun y =>
        { y with cost := x.cost + y.cost, first := x.first }
      cheapest D source fuel (next.foldr insertByCost xs)

/-- The number of tries. -/
def tryLimit : Nat := 60

/-- The first error of a source after a run that cannot go on. -/
def Run.firstError (D : Dialect) (source : Text) (r : Run) : RepairKind × Nat :=
  (cheapest D source tryLimit ((r.repairs D source).foldr insertByCost [])).getD (.passed, r.offset)

end ActionItems.Syntax
