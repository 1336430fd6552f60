import ActionItems.CommandLine
import ActionItems.Scan

/-! # The program

The program reads its command line, scans the root and writes the report, to a file or to the
standard output. It is a function of the file tree, the words of the command line and the root in
the environment. -/

namespace ActionItems

open Text

/-- What a run of the program leaves behind. -/
structure ProgramResult where
  exit : UInt8
  output : Text
  /-- The errors, from the outermost to its cause. -/
  errors : List Text
  tree : FileTree
  deriving DecidableEq

namespace Program

/-- The line that tells the version. -/
def versionLine : Text := "comment-todo 0.1.0\n".toList

/-- The lines that tell the usage. -/
def usageLines : List String :=
  ["Scan repository for TODO/FIXME/HACK comments and generate TODO.md", "",
   "Usage: comment-todo [OPTIONS]", "",
   "Options:",
   "  -r, --root <ROOT>                Project root to scan [env: COMMENT_TODO_ROOT=] [default: .]",
   "  -o, --out <OUT>                  Output file; \x60-\x60 writes to stdout [default: TODO.md]",
   "  -e, --ext <EXT>                  Comma-separated file extensions to scan " ++
     "(default: js,ts,jsx,tsx,py,sh,php,go)",
   "  -i, --ignore <IGNORE>            Comma-separated ignore globs " ++
     "(default: node_modules/**,.git/**,dist/**)",
   "  -f, --format <FORMAT>            Output format [default: markdown] " ++
     "[possible values: markdown, json]",
   "      --dry-run                    Print the report to stdout instead of " ++
     "writing the output file",
   "      --concurrency <CONCURRENCY>  Maximum number of files processed at once",
   "      --follow-links               Follow symbolic links while walking the tree",
   "      --gitignore                  Also skip files excluded by .gitignore and .ignore files",
   "  -v, --verbose                    Enable verbose logging and per-file diagnostics",
   "      --no-color                   Disable colored log output",
   "  -h, --help                       Print help",
   "  -V, --version                    Print version"]

/-- The text that tells the usage. -/
def usageText : Text := usageLines.flatMap fun l => l.toList ++ ['\n']

/-- A run that ends with an output and leaves the tree alone. -/
def printed (t : FileTree) (output : Text) : ProgramResult := ⟨0, output, [], t⟩

/-- A run that fails and leaves the tree alone. -/
def failed (t : FileTree) (exit : UInt8) (errors : List Text) : ProgramResult :=
  ⟨exit, [], errors, t⟩

/-- Delivers a report. -/
def deliver (t : FileTree) (a : Arguments) (report : Text) : ProgramResult :=
  if a.writesStandardOutput then printed t report
  else
    match t.write (Utf8.encode a.out) (Utf8.encode report) with
    | .ok t => ⟨0, [], [], t⟩
    | .error e => failed t 1 [e.message]

/-- Scans and delivers the report. -/
def execute (t : FileTree) (a : Arguments) : ProgramResult :=
  match scan t a.settings with
  | .error f => failed t 1 [f.message, f.cause]
  | .ok o => deliver t a (Report.render a.format o.findings)

/-- Runs the program. -/
def run (t : FileTree) (rootVariable : Option Text) (words : List Text) : ProgramResult :=
  match Arguments.parse rootVariable words with
  | .ok a => execute t a
  | .error .help => printed t usageText
  | .error .version => printed t versionLine
  | .error (.fault f) => failed t 2 [f.message]

end Program

end ActionItems
