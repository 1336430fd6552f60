import ActionItems.Json.Decode
import ActionItems.Path
import ActionItems.Text.Ascending

/-! # Settings

What one scan is asked to do: where to look, at which files, and how. Extensions may be given in any
spelling; the scan uses their normal form. -/

namespace ActionItems

open Text

/-- The settings of a scan. -/
structure Settings where
  /-- The directory to scan. -/
  root : Path
  extensions : List Text
  /-- Glob patterns of what is left out. -/
  ignore : List Text
  /-- The number of files that are read at once, if it is given. -/
  concurrency : Option UInt64
  /-- Whether the outcome tells about files that needed attention. -/
  verbose : Bool
  followLinks : Bool
  /-- Whether ignore files are honoured. -/
  respectIgnoreFiles : Bool
  deriving DecidableEq

namespace Settings

/-- The extensions of a scan that names none. -/
def defaultExtensions : List Text :=
  ["js".toList, "ts".toList, "jsx".toList, "tsx".toList, "py".toList, "sh".toList, "php".toList,
    "go".toList]

/-- The patterns of a scan that names none. -/
def defaultIgnore : List Text := ["node_modules/**".toList, ".git/**".toList, "dist/**".toList]

/-- The settings for a directory, all else by default. -/
def ofRoot (root : Path) : Settings :=
  { root, extensions := defaultExtensions, ignore := defaultIgnore, concurrency := none,
    verbose := false, followLinks := false, respectIgnoreFiles := false }

/-- The settings for the current directory. -/
def default : Settings := ofRoot ['.']

/-! ### Extensions -/

/-- The normal form of an extension: without blanks around it and dots in front, in lower case. -/
def plainExtension (raw : Text) : Text := lower ((trim raw).dropWhile (· == '.'))

/-- The normal forms of the extensions that have one, or the default extensions if there are
none. -/
def plainExtensions (raw : List Text) : List Text :=
  match (raw.map plainExtension).filter (!·.isEmpty) with
  | [] => defaultExtensions
  | es => es

/-- The extensions of the files to scan, strictly ascending. -/
def wantedExtensions (s : Settings) : List Text :=
  (plainExtensions s.extensions).foldr (Text.place id) []

/-! ### Concurrency -/

/-- The least number of files that are read at once if none is given. -/
def leastConcurrency : UInt64 := 4

/-- The number of files that are read at once on a machine with so many processors. -/
def jobsAtOnce (s : Settings) (processors : UInt64) : UInt64 :=
  s.concurrency.getD (max processors leastConcurrency)

/-! ### Changes -/

/-- The settings with the given extensions. -/
def setExtensions (s : Settings) (raw : List Text) : Settings :=
  { s with extensions := plainExtensions raw }

/-- The settings with the given patterns, trimmed and without the empty ones. -/
def setIgnore (s : Settings) (globs : List Text) : Settings :=
  { s with ignore := (globs.map trim).filter (!·.isEmpty) }

/-- The settings with the given number of files at once. -/
def setConcurrency (s : Settings) (limit : UInt64) : Settings :=
  { s with concurrency := some limit }

/-- The settings with the given verbosity. -/
def setVerbose (s : Settings) (verbose : Bool) : Settings := { s with verbose }

/-- The settings under which links are followed or not. -/
def setFollowLinks (s : Settings) (follow : Bool) : Settings := { s with followLinks := follow }

/-- The settings under which ignore files are honoured or not. -/
def setIgnoreFiles (s : Settings) (respect : Bool) : Settings :=
  { s with respectIgnoreFiles := respect }

/-! ### JSON -/

/-- A list of texts as a value. -/
def encodeTexts (ts : List Text) : Json := .arr (ts.map .str)

/-- The fields with their values, in the order in which an array holds them. -/
def encodeFields (s : Settings) : List (Text × Json) :=
  [("root".toList, .str s.root), ("extensions".toList, encodeTexts s.extensions),
   ("ignore".toList, encodeTexts s.ignore),
   ("concurrency".toList, Json.ofOption (fun n => Json.ofNat n.toNat) s.concurrency),
   ("verbose".toList, .bool s.verbose), ("follow_links".toList, .bool s.followLinks),
   ("respect_gitignore".toList, .bool s.respectIgnoreFiles)]

/-- The settings as an object. -/
def encode (s : Settings) : Json := .obj s.encodeFields

/-- The fields in the order in which an array holds them. -/
def fields : List Text :=
  ["root".toList, "extensions".toList, "ignore".toList, "concurrency".toList, "verbose".toList,
   "follow_links".toList, "respect_gitignore".toList]

/-- Reads one member; an unknown one does not count. -/
def read (s : Settings) (key : Text) (v : Json) : Decoded Settings :=
  if key = "root".toList then (v.decodeText .path).map fun root => { s with root }
  else if key = "extensions".toList then
    (v.decodeList (Json.decodeText .string)).map fun extensions => { s with extensions }
  else if key = "ignore".toList then (v.decodeList (Json.decodeText .string)).map fun ignore =>
    { s with ignore }
  else if key = "concurrency".toList then
    (v.decodeOption Json.decodeWord64).map fun concurrency => { s with concurrency }
  else if key = "verbose".toList then v.decodeBool.map fun verbose => { s with verbose }
  else if key = "follow_links".toList then v.decodeBool.map fun followLinks =>
    { s with followLinks }
  else if key = "respect_gitignore".toList then
    v.decodeBool.map fun respectIgnoreFiles => { s with respectIgnoreFiles }
  else .ok s

/-- The name of the record in messages. -/
def recordName : Text := "ScanConfig".toList

/-- The settings of a value; fields that are not given keep their defaults. -/
def decode : Json → Decoded Settings
  | .obj ms => (Json.members ms).foldlM (fun s (k, v) => s.read k v) default
  | .arr vs => do
    let s ← (fields.zip vs).foldlM (fun s (k, v) => s.read k v) default
    if fields.length < vs.length then .error (.tooLong vs.length) else .ok s
  | v => .error (.wrongType v (.record recordName))

end Settings

end ActionItems
