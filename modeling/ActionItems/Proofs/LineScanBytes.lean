import ActionItems.Scan
import ActionItems.Proofs.PhysicalLines
import ActionItems.Proofs.TagWords
import ActionItems.Proofs.Utf8

/-! # The line scan of a file, byte line by byte line

The line scan reads each line on its own, a carriage return at the end of a line is not seen, and
an empty line has no annotation; so the scan of a text is that of its physical lines (`scan_eq`),
and a line feed cuts a scan into two (`scan_append_feed`). Since a line feed also cuts the bytes of
a file into two that are read on their own, what is found in a file that is read line by line is
what is found in each of its byte lines, put as many lines further down as there are line feeds in
front of it. -/

namespace ActionItems

open Text

/-- The annotation a number of lines further down. -/
def LineScan.shift (n : Nat) (a : Annotation) : Annotation :=
  { a with line := a.line.map (·.advance n) }

/-- The finding a number of lines further down. -/
def Finding.shift (n : Nat) (f : Finding) : Finding := { f with line := f.line.map (·.advance n) }

theorem LineNumber.advance_zero (l : LineNumber) : l.advance 0 = l := by
  apply UInt32.toNat_inj.mp
  rw [LineNumber.toNat_advance]
  have := l.toNat_lt
  unfold LineNumber.greatest
  omega

theorem LineNumber.advance_advance (l : LineNumber) (m n : Nat) :
    (l.advance m).advance n = l.advance (m + n) := by
  apply UInt32.toNat_inj.mp
  rw [LineNumber.toNat_advance, LineNumber.toNat_advance, LineNumber.toNat_advance]
  omega

theorem Finding.shift_zero : Finding.shift 0 = id := by
  funext f
  simp only [Finding.shift, LineNumber.advance_zero, Option.map_id']
  rfl

theorem Finding.shift_shift (m n : Nat) (f : Finding) :
    (f.shift m).shift n = f.shift (m + n) := by
  unfold Finding.shift
  simp only [Option.map_map, Function.comp_def, LineNumber.advance_advance]

namespace LineScan

/-! ### A carriage return at the end of a line -/

theorem dropTagMarks_append_of_blank {b : Text} (hb : ∀ c ∈ b, isBlank c) (s : Text) :
    Tail.dropTagMarks (s ++ b) = Tail.dropTagMarks s := by
  have hmark : ∀ c ∈ b, Tail.isTagMark c = true := by
    intro c hc
    simp [Tail.isTagMark, hb c hc]
  unfold Tail.dropTagMarks
  rw [List.dropWhile_append]
  by_cases hs : (List.dropWhile Tail.isTagMark s).isEmpty = true
  · have hb' : List.dropWhile Tail.isTagMark b = [] := by simpa using hmark
    rw [if_pos hs, hb', List.isEmpty_iff.mp hs]
  · rw [if_neg hs, trimEnd_append_of_blank hb]

theorem firstTag_append_return (s : Text) : ∀ inWord,
    firstTag inWord (s ++ ['\r']) =
      (firstTag inWord s).map fun x => (x.1, x.2.1, x.2.2 ++ ['\r']) := by
  induction s with
  | nil => decide
  | cons c s ih =>
    intro inWord
    have hread := Tag.readWhole_append (show endsWord ['\r'] = true by decide) (c :: s)
    rw [List.cons_append] at hread
    rw [List.cons_append, firstTag, firstTag, hread, ih]
    cases inWord with
    | true => cases firstTag (isWordChar c) s <;> rfl
    | false =>
      cases Tag.readWhole (c :: s) with
      | none => cases firstTag (isWordChar c) s <;> rfl
      | some x => rfl

theorem annotationOf_nil (i : Nat) : annotationOf [] i = none := rfl

theorem annotationOf_append_return (line : Text) (i : Nat) :
    annotationOf (line ++ ['\r']) i = annotationOf line i := by
  have hblank : ∀ c ∈ ['\r'], isBlank c = true := List.forall_mem_singleton.mpr rfl
  unfold annotationOf
  rw [firstTag_append_return]
  cases firstTag false line with
  | none => rfl
  | some x =>
    simp only [Option.map_some, Annotation.of, dropTagMarks_append_of_blank hblank,
      trim_append_of_blank hblank]

/-! ### Physical lines -/

/-- **The scan of a text is that of its physical lines.** -/
theorem scan_eq (content : Text) :
    scan content = (physicalLines content).zipIdx.filterMap fun x => annotationOf x.1 x.2 :=
  filterMap_lines annotationOf_nil annotationOf_append_return content

theorem annotationOf_add (line : Text) (n i : Nat) :
    annotationOf line (n + i) = (annotationOf line i).map (shift n) := by
  unfold annotationOf
  split
  · split_ifs
    · unfold Annotation.of
      rw [Option.map_map, Nat.add_comm n i, ← LineNumber.advance_ofIndex]
      rfl
    · rfl
  · rfl

/-- **A line feed cuts a scan into two.** -/
theorem scan_append_feed (s t : Text) :
    scan (s ++ '\n' :: t) = scan s ++ (scan t).map (shift (s.count '\n' + 1)) := by
  rw [scan_eq, scan_eq, scan_eq, physicalLines_append_feed, List.zipIdx_append,
    List.filterMap_append, length_physicalLines, Nat.zero_add,
    List.zipIdx_eq_map_add (i := s.count '\n' + 1), List.filterMap_map, List.map_filterMap]
  congr 1
  refine List.filterMap_congr ?_
  rintro ⟨line, i⟩ -
  exact annotationOf_add line _ i

theorem scan_of_not_mem {s : Text} (h : '\n' ∉ s) : scan s = (annotationOf s 0).toList := by
  rw [scan_eq, physicalLines_of_not_mem h, List.zipIdx_singleton, List.filterMap_cons,
    List.filterMap_nil]
  cases annotationOf s 0 <;> rfl

theorem line_of_annotationOf {line : Text} {i : Nat} {a : Annotation}
    (h : annotationOf line i = some a) : a.line = some (.ofIndex i) := by
  unfold annotationOf at h
  split at h
  · split_ifs at h
    obtain ⟨tag, -, rfl⟩ := Option.map_eq_some_iff.mp h
    rfl
  · simp at h

end LineScan

/-! ### Files that are read line by line -/

namespace Inspector

variable (a : Inspector) (e : Option Extractor) (path : Path)

/-- What the inspection of a file finds, given its content. -/
def findingsIn (bytes : Bytes) : List Finding :=
  (a.inspectContent e path (.ok bytes)).summary.findings

variable {path} (hpath : Strategy.ofPath path = .lineScan)
include hpath

theorem findingsIn_eq_scan (bytes : Bytes) :
    a.findingsIn e path bytes = (LineScan.scan (Utf8.decodeLossy bytes)).map
      (Finding.ofAnnotation (Path.relative a.root path)) := by
  unfold findingsIn inspectContent readSource
  rw [hpath]
  cases e <;> rfl

theorem findingsIn_append_feed (x y : Bytes) :
    a.findingsIn e path (x ++ Utf8.feed :: y) = a.findingsIn e path x ++
      (a.findingsIn e path y).map (Finding.shift (x.count Utf8.feed + 1)) := by
  rw [findingsIn_eq_scan a e hpath, findingsIn_eq_scan a e hpath, findingsIn_eq_scan a e hpath,
    Utf8.decodeLossy_append_feed, LineScan.scan_append_feed, Utf8.count_decodeLossy,
    List.map_append, List.map_map, List.map_map]
  rfl

/-- A byte line has at most one finding, in the first line. -/
theorem findingsIn_line {x : Bytes} (hx : Utf8.feed ∉ x) :
    (a.findingsIn e path x).length ≤ 1 ∧ ∀ f ∈ a.findingsIn e path x, f.line = some 1 := by
  rw [findingsIn_eq_scan a e hpath, LineScan.scan_of_not_mem (Utf8.not_mem_decodeLossy hx)]
  cases h : LineScan.annotationOf (Utf8.decodeLossy x) 0 with
  | none => simp
  | some b =>
    refine ⟨by simp, fun f hf => ?_⟩
    obtain rfl : f = Finding.ofAnnotation (Path.relative a.root path) b := by simpa using hf
    exact LineScan.line_of_annotationOf h

/-- The findings of a file are those of its byte lines. -/
theorem findingsIn_eq_flatMap (x : Bytes) :
    a.findingsIn e path x = (x.splitOn Utf8.feed).zipIdx.flatMap fun l =>
      (a.findingsIn e path l.1).map (Finding.shift l.2) := by
  -- by induction on the number of line feeds, cutting off the first line
  induction hn : x.count Utf8.feed generalizing x with
  | zero =>
    rw [List.splitOn_eq_singleton (List.count_eq_zero.mp hn), List.zipIdx_singleton]
    simp [Finding.shift_zero]
  | succ n ih =>
    have hmem : Utf8.feed ∈ x := List.count_pos_iff.mp (by omega)
    obtain ⟨s, t, rfl, hs⟩ := List.eq_append_cons_of_mem hmem
    rw [List.count_append, List.count_cons_self, List.count_eq_zero.mpr hs] at hn
    rw [findingsIn_append_feed a e hpath, List.splitOn_append_cons_self_of_not_mem hs,
      List.count_eq_zero.mpr hs, ih t (by omega), List.zipIdx_cons, List.flatMap_cons,
      List.map_flatMap, List.zipIdx_succ, List.flatMap_map]
    simp only [Finding.shift_zero, List.map_id, List.map_map, Function.comp_def,
      Finding.shift_shift, Nat.zero_add]

end Inspector

/-- **The line scan of a file is compositional.** A line feed cuts the content of a file that is
read line by line into two contents whose findings follow each other, the second ones put further
down by the line feeds in front of them. So the findings are those of the byte lines, each line
has at most one, and it stands in the first line of its own. -/
theorem Inspector.lineScan_compositional (a : Inspector) (e : Option Extractor) {path : Path}
    (hpath : Strategy.ofPath path = .lineScan) :
    (∀ x y, a.findingsIn e path (x ++ [0x0A] ++ y) = a.findingsIn e path x ++
      (a.findingsIn e path y).map (Finding.shift (1 + x.count 0x0A))) ∧
    (∀ x, a.findingsIn e path x = (x.splitOn 0x0A).zipIdx.flatMap fun l =>
      (a.findingsIn e path l.1).map (Finding.shift l.2)) ∧
    ∀ x, 0x0A ∉ x →
      (a.findingsIn e path x).length ≤ 1 ∧ ∀ f ∈ a.findingsIn e path x, f.line = some 1 := by
  refine ⟨fun x y => ?_, a.findingsIn_eq_flatMap e hpath, fun x => a.findingsIn_line e hpath⟩
  rw [List.append_assoc, Nat.add_comm 1]
  exact a.findingsIn_append_feed e hpath x y

/-- A broken character at the end of the first line, and a carriage return at that of the second. -/
theorem Inspector.lineScan_compositional_shell :
    let found := Inspector.findingsIn ⟨['.'], false⟩ none "a.sh".toList
    Strategy.ofPath "a.sh".toList = .lineScan ∧
      found ([0x23, 0xE2, 0x82] ++ [0x0A] ++ [0x23, 0x48, 0x41, 0x43, 0x4B, 0x0D]) =
        found [0x23, 0xE2, 0x82] ++
          (found [0x23, 0x48, 0x41, 0x43, 0x4B, 0x0D]).map (Finding.shift 1) ∧
      found [0x23, 0x48, 0x41, 0x43, 0x4B, 0x0D] ≠ [] :=
  ⟨by decide, (lineScan_compositional ⟨['.'], false⟩ none (by decide)).1 _ _, by decide⟩

end ActionItems
