import ActionItems.Report
import ActionItems.Settings

/-! # The command line

A command line is a list of words. A word with two dashes in front names one option; a word with one
dash names several, a letter each. A flag stands alone, a parameter has a value: after an equals
sign, in the rest of a word of letters, or in the next word. After two dashes alone no word names an
option.

The value of a parameter that is given in the next word is looked at only when the next option comes
or the words end; so a word that names nothing is told before a bad value in front of it. -/

namespace ActionItems

open Text

namespace CommandLine

/-! ### Options -/

/-- The options that stand alone. -/
inductive Flag where
  | dryRun
  | followLinks
  | ignoreFiles
  | verbose
  | plain
  | help
  | version
  deriving DecidableEq

/-- The options with a value. -/
inductive Parameter where
  | root
  | out
  | extensions
  | ignore
  | format
  | concurrency
  deriving DecidableEq

/-- An option. -/
inductive Name where
  | flag (f : Flag)
  | parameter (p : Parameter)
  deriving DecidableEq

/-- The flags. -/
def Flag.all : List Flag := [.dryRun, .followLinks, .ignoreFiles, .verbose, .plain, .help, .version]

/-- The long name of a flag. -/
def Flag.long : Flag → Text
  | .dryRun => "dry-run".toList
  | .followLinks => "follow-links".toList
  | .ignoreFiles => "gitignore".toList
  | .verbose => "verbose".toList
  | .plain => "no-color".toList
  | .help => "help".toList
  | .version => "version".toList

/-- The letter of a flag, if it has one. -/
def Flag.letter? : Flag → Option Char
  | .verbose => some 'v'
  | .help => some 'h'
  | .version => some 'V'
  | _ => none

/-- The parameters. -/
def Parameter.all : List Parameter := [.root, .out, .extensions, .ignore, .format, .concurrency]

/-- The long name of a parameter. -/
def Parameter.long : Parameter → Text
  | .root => "root".toList
  | .out => "out".toList
  | .extensions => "ext".toList
  | .ignore => "ignore".toList
  | .format => "format".toList
  | .concurrency => "concurrency".toList

/-- The letter of a parameter, if it has one. -/
def Parameter.letter? : Parameter → Option Char
  | .root => some 'r'
  | .out => some 'o'
  | .extensions => some 'e'
  | .ignore => some 'i'
  | .format => some 'f'
  | .concurrency => none

/-- The option with a long name. -/
def Name.ofLong? (s : Text) : Option Name :=
  ((Flag.all.find? fun f => f.long == s).map .flag).or
    ((Parameter.all.find? fun p => p.long == s).map .parameter)

/-- The option with a letter. -/
def Name.ofLetter? (c : Char) : Option Name :=
  ((Flag.all.find? fun f => f.letter? == some c).map .flag).or
    ((Parameter.all.find? fun p => p.letter? == some c).map .parameter)

/-- A flag in messages. -/
def Flag.display (f : Flag) : Text := ['-', '-'] ++ f.long

/-- A parameter in messages. -/
def Parameter.display (p : Parameter) : Text :=
  ['-', '-'] ++ p.long ++ " <".toList ++ p.long.map Char.toUpper ++ ">".toList

/-- An option in messages. -/
def Name.display : Name → Text
  | .flag f => f.display
  | .parameter p => p.display

/-! ### Faults -/

/-- The reasons for which a text is no count. -/
inductive CountFault where
  | empty
  | invalidDigit
  | tooLarge
  deriving DecidableEq

/-- The wording of a reason. -/
def CountFault.message : CountFault → Text
  | .empty => "cannot parse integer from empty string".toList
  | .invalidDigit => "invalid digit found in string".toList
  | .tooLarge => "number too large to fit in target type".toList

/-- A fault of a command line. -/
inductive UsageFault where
  | unexpectedArgument (arg : Text)
  /-- A flag was given a value. -/
  | unexpectedValue (value : Text) (f : Flag)
  | missingValue (p : Parameter)
  | repeated (n : Name)
  | invalidFormat (value : Text)
  | invalidCount (value : Text) (reason : CountFault)
  deriving DecidableEq

/-- The wording of a fault. -/
def UsageFault.message : UsageFault → Text
  | .unexpectedArgument a => "error: unexpected argument '".toList ++ a ++ "' found".toList
  | .unexpectedValue v f =>
    "error: unexpected value '".toList ++ v ++ "' for '".toList ++ f.display ++
      "' found; no more were expected".toList
  | .missingValue p =>
    "error: a value is required for '".toList ++ p.display ++ "' but none was supplied".toList
  | .repeated n =>
    "error: the argument '".toList ++ n.display ++ "' cannot be used multiple times".toList
  | .invalidFormat v =>
    "error: invalid value '".toList ++ v ++ "' for '".toList ++ Parameter.format.display ++
      "'".toList
  | .invalidCount v r =>
    "error: invalid value '".toList ++ v ++ "' for '".toList ++ Parameter.concurrency.display ++
      "': ".toList ++
      r.message

/-- What ends the reading of a command line early. -/
inductive Stop where
  | fault (f : UsageFault)
  /-- The program is asked for its usage. -/
  | help
  /-- The program is asked for its version. -/
  | version
  deriving DecidableEq

/-! ### Values -/

/-- Adds a digit to a count that has to stay a word of 64 bits. -/
def addDigit (n : Nat) (c : Char) : Except CountFault Nat :=
  if !c.isDigit then .error .invalidDigit
  else if UInt64.size ≤ n * 10 + (c.toNat - '0'.toNat) then .error .tooLarge
  else .ok (n * 10 + (c.toNat - '0'.toNat))

/-- The count that a text holds: digits, with a plus sign in front or without. -/
def readCount (s : Text) : Except CountFault UInt64 :=
  match s with
  | [] => .error .empty
  | ['+'] => .error .invalidDigit
  | '+' :: digits => (digits.foldlM addDigit 0).map UInt64.ofNat
  | digits => (digits.foldlM addDigit 0).map UInt64.ofNat

/-- The format that a text names, in letters of either case. -/
def readFormat? (s : Text) : Option Format :=
  if lower s = "markdown".toList then some .markdown
  else if lower s = "json".toList then some .json
  else none

/-! ### Reading -/

/-- The state of reading: what was given so far. -/
structure State where
  flags : List Flag := []
  root : Option Path := none
  out : Option Path := none
  /-- The pieces between commas of all values, none if the parameter was not given. -/
  extensions : List Text := []
  /-- The pieces between commas of all values, none if the parameter was not given. -/
  ignore : List Text := []
  format : Option Format := none
  concurrency : Option UInt64 := none
  /-- A parameter that was named, and its value once that is known. -/
  pending : Option (Parameter × Option Text) := none

/-- The pieces of a list of values. -/
def readList (value : Text) : List Text := splitAll (· == ',') value

/-- A value for a parameter that may be given once. -/
def once {α : Type} (p : Parameter) (given : Option α) (value : Except UsageFault α) :
    Except Stop α :=
  match given, value with
  | some _, _ => .error (.fault (.repeated (.parameter p)))
  | none, .ok a => .ok a
  | none, .error f => .error (.fault f)

/-- The format of a value. -/
def formatOf (value : Text) : Except UsageFault Format :=
  match readFormat? value with
  | some f => .ok f
  | none => .error (if value.isEmpty then .missingValue .format else .invalidFormat value)

/-- The count of a value. -/
def countOf (value : Text) : Except UsageFault UInt64 :=
  match readCount value with
  | .ok n => .ok n
  | .error r => .error (.invalidCount value r)

/-- Gives a parameter a value. -/
def State.assign (s : State) (p : Parameter) (value : Text) : Except Stop State :=
  match p with
  | .root => (once p s.root (.ok value)).map fun v => { s with root := some v }
  | .out => (once p s.out (.ok value)).map fun v => { s with out := some v }
  | .extensions => .ok { s with extensions := s.extensions ++ readList value }
  | .ignore => .ok { s with ignore := s.ignore ++ readList value }
  | .format => (once p s.format (formatOf value)).map fun v => { s with format := some v }
  | .concurrency => (once p s.concurrency (countOf value)).map fun v =>
    { s with concurrency := some v }

/-- Settles the parameter that was named last. -/
def State.settle (s : State) : Except Stop State :=
  match s.pending with
  | none => .ok s
  | some (p, none) => .error (.fault (.missingValue p))
  | some (p, some v) => { s with pending := none }.assign p v

/-- Raises a flag. -/
def State.raise (s : State) (f : Flag) : Except Stop State := do
  let s ← s.settle
  match f with
  | .help => .error .help
  | .version => .error .version
  | f =>
    if f ∈ s.flags then .error (.fault (.repeated (.flag f)))
    else .ok { s with flags := f :: s.flags }

/-- Gives a parameter the value in the same word. -/
def State.give (s : State) (p : Parameter) (value : Text) : Except Stop State := do
  (← s.settle).assign p value

/-- Names a parameter whose value is in the next word. -/
def State.await (s : State) (p : Parameter) : Except Stop State := do
  .ok { (← s.settle) with pending := some (p, none) }

/-- Reads a word of letters, without its dash. -/
def State.readLetters (s : State) : Text → Except Stop State
  | [] => .ok s
  | c :: rest =>
    match Name.ofLetter? c with
    | none => .error (.fault (.unexpectedArgument ['-', c]))
    | some (.flag f) => do (← s.raise f).readLetters rest
    | some (.parameter p) =>
      match rest with
      | [] => s.await p
      | '=' :: value => s.give p value
      | value => s.give p value

/-- Reads a long name and the value after its equals sign. -/
def State.readLong (s : State) (name : Text) (value : Option Text) : Except Stop State :=
  match Name.ofLong? name, value with
  | none, _ => .error (.fault (.unexpectedArgument (['-', '-'] ++ name)))
  | some (.flag f), none => s.raise f
  | some (.flag f), some v => .error (.fault (.unexpectedValue v f))
  | some (.parameter p), none => s.await p
  | some (.parameter p), some v => s.give p v

/-- Reads a word that names no option: the value that is awaited. -/
def State.readValue (s : State) (word : Text) : Except Stop State :=
  match s.pending with
  | some (p, none) => .ok { s with pending := some (p, some word) }
  | _ => .error (.fault (.unexpectedArgument word))

/-- Reads a word other than two dashes alone. -/
def State.readWord (s : State) (word : Text) : Except Stop State :=
  match word with
  | '-' :: '-' :: long =>
    match splitOnce (· == '=') long with
    | some (name, value) => s.readLong name (some value)
    | none => s.readLong long none
  | '-' :: c :: letters => s.readLetters (c :: letters)
  | word => s.readValue word

/-- Reads the words of a command line. -/
def State.readWords (s : State) : List Text → Except Stop State
  | [] => s.settle
  | word :: rest =>
    if word = ['-', '-'] then
      match rest with
      | [] => s.settle
      | next :: _ => .error (.fault (.unexpectedArgument next))
    else do (← s.readWord word).readWords rest

end CommandLine

/-! ### Arguments -/

/-- What a command line asks for. -/
structure Arguments where
  root : Path
  /-- The file of the report, or a dash for the standard output. -/
  out : Path
  /-- The extensions that were given. -/
  extensions : List Text
  /-- The patterns that were given. -/
  ignore : List Text
  format : Format
  concurrency : Option UInt64
  dryRun : Bool
  followLinks : Bool
  respectIgnoreFiles : Bool
  verbose : Bool
  deriving DecidableEq

namespace Arguments

open CommandLine

/-- The root of a command line and an environment that name none. -/
def defaultRoot : Path := ['.']

/-- The file of a command line that names none. -/
def defaultOut : Path := "TODO.md".toList

/-- The output that stands for the standard output. -/
def standardOutput : Path := ['-']

/-- What was given, with defaults for the rest; the environment may hold a root. -/
def ofState (rootVariable : Option Text) (s : State) : Arguments where
  root := (s.root.or rootVariable).getD defaultRoot
  out := s.out.getD defaultOut
  extensions := s.extensions
  ignore := s.ignore
  format := s.format.getD .markdown
  concurrency := s.concurrency
  dryRun := .dryRun ∈ s.flags
  followLinks := .followLinks ∈ s.flags
  respectIgnoreFiles := .ignoreFiles ∈ s.flags
  verbose := .verbose ∈ s.flags

/-- The arguments in the words of a command line. -/
def parse (rootVariable : Option Text) (words : List Text) : Except Stop Arguments :=
  (({} : State).readWords words).map (ofState rootVariable)

/-- Whether the report goes to the standard output. -/
def writesStandardOutput (a : Arguments) : Bool := a.dryRun || a.out == standardOutput

/-- The settings of the scan. -/
def settings (a : Arguments) : Settings :=
  let s := (Settings.ofRoot a.root).setVerbose a.verbose
  let s := (s.setFollowLinks a.followLinks).setIgnoreFiles a.respectIgnoreFiles
  let s := if a.extensions.isEmpty then s else s.setExtensions a.extensions
  let s := if a.ignore.isEmpty then s else s.setIgnore a.ignore
  match a.concurrency with
  | some n => s.setConcurrency n
  | none => s

end Arguments

end ActionItems
