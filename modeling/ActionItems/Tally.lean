import ActionItems.Text.Basic

/-! # Counters of a scan

Each counter is a word of 64 bits and starts over after the greatest number. -/

namespace ActionItems

/-- The counters. -/
structure Tally where
  /-- Files that the walk found. -/
  discovered : UInt64
  /-- Files that were read. -/
  scanned : UInt64
  /-- Files whose comments were found by syntax. -/
  bySyntax : UInt64
  /-- Files that were read line by line. -/
  byLine : UInt64
  /-- Files that could not be read. -/
  readErrors : UInt64
  findings : UInt64
  deriving DecidableEq

namespace Tally

/-- All counters at zero. -/
def zero : Tally := ⟨0, 0, 0, 0, 0, 0⟩

/-- One step of counting. -/
inductive Event where
  | scanned
  | bySyntax
  | byLine
  | readError
  | findings (count : UInt64)
  deriving DecidableEq

/-- Counts one event. -/
def count (s : Tally) : Event → Tally
  | .scanned => { s with scanned := s.scanned + 1 }
  | .bySyntax => { s with bySyntax := s.bySyntax + 1 }
  | .byLine => { s with byLine := s.byLine + 1 }
  | .readError => { s with readErrors := s.readErrors + 1 }
  | .findings n => { s with findings := s.findings + n }

/-- Counts events in turn. -/
def countAll (s : Tally) (es : List Event) : Tally := es.foldl count s

/-- Sets the number of files that the walk found. -/
def discover (s : Tally) (count : UInt64) : Tally := { s with discovered := count }

/-- The share of files that were read line by line, in percent, as a double; zero if no file was
read. -/
def byLinePercent (s : Tally) : Float :=
  if s.scanned = 0 then 0.0 else s.byLine.toFloat / s.scanned.toFloat * 100.0

end Tally

end ActionItems
