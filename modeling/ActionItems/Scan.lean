import ActionItems.Concurrency
import ActionItems.Extraction
import ActionItems.Finding
import ActionItems.LineScan
import ActionItems.Tally
import ActionItems.Walk

/-! # Scans

A scan walks through a directory, reads each file that it finds and gathers the annotations. A file
in a language with a grammar is read by its syntax; if that fails, or there is no grammar, line by
line. What a file contributes is a summary, and a list of events to count. -/

namespace ActionItems

open Text

/-! ### Settings -/

/-- The fault of settings that no scan can start with, if there is one. -/
def Settings.check (s : Settings) (t : FileTree) : Except SettingsFault Unit :=
  let root := Utf8.encode s.root
  if s.concurrency = some 0 then .error .noConcurrency
  else if !t.pathExists root then .error (.missingDirectory s.root)
  else if !t.isDirectory root then .error (.notADirectory s.root)
  else .ok ()

/-! ### Files -/

/-- What is told about a file that needed attention. -/
structure Notice where
  path : Path
  fault : ScanFault
  deriving DecidableEq

/-- The notice of a fault of a file; other faults have none. -/
def Notice.of? (f : ScanFault) : Option Notice := f.path?.map fun path => ⟨path, f⟩

/-- What a file contributes to a scan. -/
structure FileSummary where
  /-- The findings in the order of the file. -/
  findings : List Finding
  notice : Option Notice
  deriving DecidableEq

/-- How files are inspected. -/
structure Inspector where
  root : Path
  /-- Whether notices are kept. -/
  verbose : Bool
  deriving DecidableEq

namespace Inspector

/-- The notice of a fault that spares the scan, if notices are kept. -/
def noticeOf (a : Inspector) (f : ScanFault) : Option Notice :=
  if a.verbose && f.sparesScan then Notice.of? f else none

/-- The annotations of a source, how they were found, and the fault that made the syntax useless. -/
structure Reading where
  extractor : Option Extractor
  annotations : List Annotation
  event : Tally.Event
  fault : Option SyntaxFault

/-- Reads a source by a strategy; without an extractor every source is read line by line. -/
def readSource (extractor : Option Extractor) (strategy : Strategy) (source : Text) : Reading :=
  match strategy, extractor with
  | .structural l, some e =>
    match e.extract l source with
    | (e, .ok as) => ⟨some e, as, .bySyntax, none⟩
    | (e, .error f) => ⟨some e, LineScan.scan source, .byLine, some f⟩
  | _, _ => ⟨extractor, LineScan.scan source, .byLine, none⟩

/-- The summary of a reading of the file with a relative path. -/
def summaryOf (a : Inspector) (relative : Path) (r : Reading) : FileSummary where
  findings := r.annotations.map (Finding.ofAnnotation relative)
  notice := r.fault.bind fun f => a.noticeOf (.parse relative f)

/-- What the inspection of one file gives: the extractor afterwards, a summary and events to
count. -/
structure Result where
  extractor : Option Extractor
  summary : FileSummary
  events : List Tally.Event

/-- Inspects the content of a file, or the refusal to read it. -/
def inspectContent (a : Inspector) (extractor : Option Extractor) (path : Path) :
    Except SystemError Bytes → Result
  | .error e =>
    ⟨extractor, ⟨[], a.noticeOf (.read (Path.relative a.root path) e.message)⟩, [.readError]⟩
  | .ok bytes =>
    let r := readSource extractor (Strategy.ofPath path) (Utf8.decodeLossy bytes)
    ⟨r.extractor, a.summaryOf (Path.relative a.root path) r,
      [.scanned, r.event, .findings (UInt64.ofNat r.annotations.length)]⟩

/-- Inspects the file at a path. -/
def inspect (a : Inspector) (t : FileTree) (extractor : Option Extractor) (path : Path) : Result :=
  a.inspectContent extractor path (t.read (Utf8.encode path))

/-- Inspects files in turn and counts. -/
def inspectAll (a : Inspector) (t : FileTree) (extractor : Option Extractor) (tally : Tally) :
    List Path → List FileSummary × Tally
  | [] => ([], tally)
  | path :: rest =>
    let r := a.inspect t extractor path
    let (summaries, tally) := a.inspectAll t r.extractor (tally.countAll r.events) rest
    (r.summary :: summaries, tally)

end Inspector

/-! ### Runs -/

/-- The outcome of a scan. -/
structure Outcome where
  /-- The findings by file and line. -/
  findings : List Finding
  tally : Tally
  notices : List Notice
  deriving DecidableEq

/-- A scan that is ready to run: settings that were found valid, and the counters of the last
run. -/
structure Scan where
  settings : Settings
  walk : Walk
  tally : Tally

namespace Scan

/-- The scan that settings ask for. -/
def prepare (t : FileTree) (s : Settings) : Except ScanFault Scan :=
  match s.check t with
  | .error f => .error (.settings f)
  | .ok _ =>
    match Walk.ofSettings s with
    | .error f => .error (.settings f)
    | .ok walk => .ok ⟨s, walk, Tally.zero⟩

/-- How the scan inspects files. -/
def inspector (s : Scan) : Inspector := ⟨s.settings.root, s.settings.verbose⟩

/-- The outcome that summaries of files add up to. -/
def outcomeOf (summaries : List FileSummary) (tally : Tally) : Outcome where
  findings := Finding.sort (summaries.flatMap (·.findings))
  tally := tally
  notices := summaries.filterMap (·.notice)

/-- Runs a scan; the counters start over. Where the grammars cannot be loaded there is no extractor,
and all files are read line by line. -/
def runWith (extractor : Option Extractor) (s : Scan) (t : FileTree) :
    Scan × Except ScanFault Outcome :=
  match s.walk.files t with
  | .error f => ({ s with tally := Tally.zero }, .error (.walk f))
  | .ok paths =>
    let (summaries, tally) :=
      s.inspector.inspectAll t extractor (Tally.zero.discover (UInt64.ofNat paths.length)) paths
    ({ s with tally }, .ok (outcomeOf summaries tally))

/-- Runs a scan. The grammars are part of the program, so they can be loaded. -/
def run (s : Scan) (t : FileTree) : Scan × Except ScanFault Outcome :=
  s.runWith (some .fresh) t

end Scan

/-- Prepares a scan and runs it once. -/
def scan (t : FileTree) (s : Settings) : Except ScanFault Outcome :=
  match Scan.prepare t s with
  | .error f => .error f
  | .ok s => (s.run t).2

/-! ### Bounds -/

/-- The scan that settings ask for, with the bound on the files that it reads at once. -/
def Scan.prepareWithin (processors : UInt64) (t : FileTree) (s : Settings) :
    Except ScanFault (Scan × Concurrency) :=
  match prepare t s with
  | .error f => .error f
  | .ok scan =>
    match Concurrency.ofLimit (s.jobsAtOnce processors) with
    | .error f => .error (.settings f)
    | .ok bound => .ok (scan, bound)

end ActionItems
