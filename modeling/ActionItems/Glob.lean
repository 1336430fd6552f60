import ActionItems.Text.Utf8

/-! # Glob patterns

A pattern describes paths, byte by byte. A star stands for any bytes but slashes, a question mark
for one such byte, a bracketed class for one of its bytes, and alternatives in braces for one of
them. Two stars between slashes stand for any directories in between, in front for any directories
above, and at the end for everything below. -/

namespace ActionItems

open Text

/-- A part of a pattern. -/
inductive GlobToken where
  /-- The bytes of one character. -/
  | literal (bytes : Bytes)
  /-- One byte that is no slash. -/
  | any
  /-- Any bytes that are no slashes. -/
  | star
  /-- Any directories above. -/
  | leading
  /-- Everything below. -/
  | trailing
  /-- Any directories in between. -/
  | middle
  /-- A byte in one of the ranges, or, negated, in none of them. -/
  | oneOf (negated : Bool) (ranges : List (UInt8 × UInt8))
  | alternatives (branches : List (List GlobToken))

/-- The reasons for which a text is no pattern. -/
inductive GlobError where
  | unclosedClass
  | invalidRange (first last : Char)
  | unopenedGroup
  | unclosedGroup
  | danglingEscape
  deriving DecidableEq

/-- The wording of a reason. -/
def GlobError.message : GlobError → Text
  | .unclosedClass => "unclosed character class; missing ']'".toList
  | .invalidRange a b => "invalid range; '".toList ++ a :: "' > '".toList ++ b :: "'".toList
  | .unopenedGroup =>
    "unopened alternate group; missing '\x7b' (maybe escape '\x7d' with '[\x7d]'?)".toList
  | .unclosedGroup =>
    "unclosed alternate group; missing '\x7d' (maybe escape '\x7b' with '[\x7b]'?)".toList
  | .danglingEscape => "dangling '\\'".toList

namespace Glob

/-! ### Reading a class -/

/-- The state of reading a class. -/
structure ClassState where
  /-- The ranges so far, the last one first. -/
  ranges : List (Char × Char) := []
  first : Bool := true
  /-- Whether a dash was read that may join the last character and the next. -/
  inRange : Bool := false

/-- The outcome of reading a class: the ranges and the rest, no end, or a fault. -/
inductive ClassResult where
  | closed (ranges : List (Char × Char)) (rest : Text)
  | unclosed
  | fault (e : GlobError)

/-- Ends the last range at a character. -/
def ClassState.extend (s : ClassState) (c : Char) : Except GlobError ClassState :=
  match s.ranges with
  | [] => .ok { s with ranges := [(c, c)], first := false, inRange := false }
  | (a, _) :: r =>
    if c < a then .error (.invalidRange a c)
    else .ok { ranges := (a, c) :: r, first := false, inRange := false }

/-- Adds a character. -/
def ClassState.push (s : ClassState) (c : Char) : ClassState :=
  { ranges := (c, c) :: s.ranges, first := false, inRange := false }

/-- Reads the characters of a class up to its end. -/
def readClass (s : ClassState) : Text → ClassResult
  | [] => .unclosed
  | c :: rest =>
    if c = ']' ∧ ¬s.first then
      .closed (if s.inRange then ('-', '-') :: s.ranges else s.ranges).reverse rest
    else if c = '-' ∧ ¬s.first ∧ ¬s.inRange then readClass { s with inRange := true } rest
    else if s.inRange then
      match s.extend c with
      | .ok s => readClass s rest
      | .error e => .fault e
    else readClass (s.push c) rest

/-- The byte ranges of a character range; a character of several bytes stands for each of them. -/
def byteRanges (r : Char × Char) : List (UInt8 × UInt8) :=
  let a := Utf8.encodeChar r.1
  let b := Utf8.encodeChar r.2
  if r.1 = r.2 then a.map fun x => (x, x)
  else
    a.dropLast.map (fun x => (x, x)) ++ [(a.getLastD 0, b.headD 0)] ++
      (b.drop 1).map fun x => (x, x)

/-! ### Reading a pattern -/

/-- A branch under construction, in reverse, and the finished branches of its group, in reverse. -/
structure Branch where
  done : List (List GlobToken) := []
  tokens : List GlobToken := []

/-- The state of reading a pattern: the open groups from the inside out, the pattern itself last. -/
structure State where
  branches : List Branch
  /-- The character read before. -/
  before : Option Char := none
  /-- Whether a bracket was found that nothing closes; from there on brackets stand for
  themselves. -/
  sawUnclosed : Bool := false

/-- Adds a token. -/
def State.push (s : State) (t : GlobToken) : State :=
  match s.branches with
  | [] => s
  | b :: bs => { s with branches := { b with tokens := t :: b.tokens } :: bs }

/-- Adds a character. -/
def State.literal (s : State) (c : Char) : State := s.push (.literal (Utf8.encodeChar c))

/-- Whether a group is open. -/
def State.inGroup (s : State) : Bool := 1 < s.branches.length

/-- Whether the branch has tokens. -/
def State.hasTokens (s : State) : Bool :=
  match s.branches with
  | [] => false
  | b :: _ => !b.tokens.isEmpty

/-- Opens a group. -/
def State.openGroup (s : State) : State := { s with branches := {} :: s.branches }

/-- Ends a branch of a group and starts the next. -/
def State.nextBranch (s : State) : State :=
  match s.branches with
  | [] => s
  | b :: bs => { s with branches := ⟨b.tokens.reverse :: b.done, []⟩ :: bs }

/-- Closes a group. -/
def State.closeGroup (s : State) : Option State :=
  match s.branches with
  | b :: c :: bs =>
    some (({ s with branches := c :: bs } : State).push
      (.alternatives (b.tokens.reverse :: b.done).reverse))
  | _ => none

/-- Replaces the last token, the slash before two stars, unless two stars stood before it too. -/
def State.replaceSlash (s : State) (t : GlobToken) : State :=
  match s.branches with
  | [] => s
  | b :: bs =>
    match b.tokens with
    | .leading :: _ => s
    | .trailing :: _ => s
    | _ :: ts => { s with branches := { b with tokens := t :: ts } :: bs }
    | [] => s.push t

/-- Two stars that mean no more than one each. -/
def State.twoStars (s : State) : State := (s.push .star).push .star

/-- Reads two stars, given the text after them. -/
def State.doubleStar (s : State) (rest : Text) : State × Text :=
  if !s.hasTokens then
    match rest with
    | [] => (s.push .leading, [])
    | '/' :: r => (s.push .leading, r)
    | _ => (s.twoStars, rest)
  else if s.before ≠ some '/' ∧ (¬s.inGroup ∨ (s.before ≠ some ',' ∧ s.before ≠ some '\x7b')) then
    (s.twoStars, rest)
  else
    match rest with
    | [] => (s.replaceSlash .trailing, [])
    | '/' :: r => (s.replaceSlash .middle, r)
    | c :: _ =>
      if s.inGroup && (c == ',' || c == '\x7d') then (s.replaceSlash .trailing, rest)
      else (s.twoStars, rest)

/-- Reads a bracket, given the text after it. -/
def State.bracket (s : State) (allowUnclosed : Bool) (rest : Text) :
    Except GlobError (State × Text) :=
  let negated := rest.head? == some '!' || rest.head? == some '^'
  match readClass {} (if negated then rest.drop 1 else rest) with
  | .closed ranges rest => .ok (s.push (.oneOf negated (ranges.flatMap byteRanges)), rest)
  | .fault e => .error e
  | .unclosed =>
    if allowUnclosed then .ok ({ s.literal '[' with sawUnclosed := true }, rest)
    else .error .unclosedClass

/-- Reads one part of a pattern. -/
def State.step (s : State) (allowUnclosed : Bool) (c : Char) (rest : Text) :
    Except GlobError (State × Text) :=
  match c with
  | '?' => .ok (s.push .any, rest)
  | '*' =>
    match rest with
    | '*' :: r => .ok (s.doubleStar r)
    | _ => .ok (s.push .star, rest)
  | '[' => if s.sawUnclosed then .ok (s.literal '[', rest) else s.bracket allowUnclosed rest
  | '\x7b' => .ok (s.openGroup, rest)
  | '\x7d' =>
    match s.closeGroup with
    | some s => .ok (s, rest)
    | none => .error .unopenedGroup
  | ',' => .ok (if s.inGroup then s.nextBranch else s.literal ',', rest)
  | '\\' =>
    match rest with
    | [] => .error .danglingEscape
    | d :: r => .ok (s.literal d, r)
  | c => .ok (s.literal c, rest)

/-- Reads a pattern, at most as many parts as the fuel says. -/
def readFrom (allowUnclosed : Bool) : Nat → State → Text → Except GlobError State
  | 0, s, _ => .ok s
  | _, s, [] => .ok s
  | fuel + 1, s, c :: rest =>
    match s.step allowUnclosed c rest with
    | .error e => .error e
    | .ok (s', rest') =>
      let read := (c :: rest).take ((c :: rest).length - rest'.length)
      readFrom allowUnclosed fuel { s' with before := read.getLast? } rest'

/-- The pattern of a text; `allowUnclosed` says that a bracket that nothing closes stands for
itself. -/
def parse (allowUnclosed : Bool) (s : Text) : Except GlobError (List GlobToken) :=
  match readFrom allowUnclosed (s.length + 1) { branches := [{}] } s with
  | .error e => .error e
  | .ok state =>
    match state.branches with
    | [b] => .ok b.tokens.reverse
    | _ => .error .unclosedGroup

/-! ### Matching -/

/-- The slash between the parts of a path. -/
def slash : UInt8 := 0x2F

/-- Any bytes but slashes, then what `k` accepts. -/
def someThen (k : Bytes → Bool) : Bytes → Bool
  | [] => k []
  | b :: s => k (b :: s) || (b != slash && someThen k s)

/-- Any bytes, then what `k` accepts. -/
def anyThen (k : Bytes → Bool) : Bytes → Bool
  | [] => k []
  | b :: s => k (b :: s) || anyThen k s

/-- Any bytes that end with a slash, then what `k` accepts. -/
def slashThen (k : Bytes → Bool) : Bytes → Bool
  | [] => false
  | b :: s => (b == slash && k s) || slashThen k s

/-- Exactly the given bytes, then what `k` accepts. -/
def literalThen (k : Bytes → Bool) (bytes s : Bytes) : Bool :=
  match bytes.isPrefixOf? s with
  | some rest => k rest
  | none => false

mutual

/-- Whether a token stands for nothing at all, as a group without a branch of any content does. -/
def isVoid : GlobToken → Bool
  | .alternatives bs => allVoidBranches bs
  | _ => false

/-- Whether all tokens stand for nothing. -/
def allVoid : List GlobToken → Bool
  | [] => true
  | t :: ts => isVoid t && allVoid ts

/-- Whether all branches stand for nothing. -/
def allVoidBranches : List (List GlobToken) → Bool
  | [] => true
  | b :: bs => allVoid b && allVoidBranches bs

end

mutual

/-- Whether bytes consist of what the token stands for and what `k` accepts. -/
def tokenThen (k : Bytes → Bool) (s : Bytes) : GlobToken → Bool
  | .literal bytes => literalThen k bytes s
  | .any =>
    match s with
    | b :: r => b != slash && k r
    | [] => false
  | .star => someThen k s
  | .leading => k s || literalThen k [slash] s || slashThen k s
  | .trailing =>
    match s with
    | b :: r => b == slash && anyThen k r
    | [] => false
  | .middle =>
    match s with
    | b :: r => b == slash && (k r || slashThen k r)
    | [] => false
  | .oneOf negated ranges =>
    match s with
    | b :: r => ((ranges.any fun (lo, hi) => lo ≤ b && b ≤ hi) != negated) && k r
    | [] => false
  | .alternatives bs => if allVoidBranches bs then k s else branchesThen k s bs

/-- Whether bytes consist of what the tokens stand for and what `k` accepts. -/
def tokensThen (k : Bytes → Bool) (s : Bytes) : List GlobToken → Bool
  | [] => k s
  | t :: ts => tokenThen (fun r => tokensThen k r ts) s t

/-- Whether bytes consist of what one of the branches stands for and what `k` accepts; a branch
without content does not count. -/
def branchesThen (k : Bytes → Bool) (s : Bytes) : List (List GlobToken) → Bool
  | [] => false
  | b :: bs => (!allVoid b && tokensThen k s b) || branchesThen k s bs

end

/-- Whether a pattern describes a path. Two stars alone describe every path. -/
def isMatch (pattern : List GlobToken) (path : Bytes) : Bool :=
  match pattern with
  | [.leading] => true
  | _ => tokensThen List.isEmpty path pattern

end Glob

end ActionItems
