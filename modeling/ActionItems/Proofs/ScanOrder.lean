import Mathlib.Tactic.SplitIfs
import ActionItems.Proofs.Collecting
import ActionItems.Proofs.CommentOrder
import ActionItems.Proofs.FindingOrder
import ActionItems.Proofs.LineScanBytes

/-! # The order of the findings of a scan

What a file contributes does not depend on the files before it (`inspectAll_eq`), comes by ascending
lines whichever way the file is read (`readSource_lines`), and carries the path that is reported for
the file. Since that path tells the files of a walk apart, the sorted findings of a run are those of
the files one after the other, in the order of the bytes of the reported paths; the order in which
the summaries of the files are put together does not matter. -/

namespace ActionItems

open Text

/-! ### One file -/

theorem LineScan.scan_lines (source : Text) : (LineScan.scan source).Pairwise fun a b =>
    ∃ m n, a.line = some m ∧ b.line = some n ∧ m ≤ n := by
  rw [scan_eq]
  refine pairwise_filterMap_zipIdx fun x i y j a b hij _ ha hb => ?_
  exact ⟨_, _, line_of_annotationOf ha, line_of_annotationOf hb,
    LineNumber.ofIndex_le (Nat.le_of_lt hij)⟩

namespace Inspector

/-- **Lines ascend** in what is found in a source, whichever way it is read. -/
theorem readSource_lines (e : Option Extractor) (strategy : Strategy) (source : Text) :
    (readSource e strategy source).annotations.Pairwise fun a b =>
      ∃ m n, a.line = some m ∧ b.line = some n ∧ m ≤ n := by
  unfold readSource
  split
  · next l e =>
    cases h : l.extract source with
    | ok as =>
      simp only [Extractor.extract_eq, h]
      exact Language.extract_lines h
    | error f =>
      simp only [Extractor.extract_eq, h]
      exact LineScan.scan_lines source
  · exact LineScan.scan_lines source

/-- What a file contributes, inspected on its own. -/
def summaryAt (a : Inspector) (t : FileTree) (path : Path) : FileSummary :=
  (a.inspect t (some .fresh) path).summary

theorem inspect_eq (a : Inspector) (t : FileTree) (e : Extractor) (path : Path) :
    (a.inspect t (some e) path).summary = a.summaryAt t path ∧
      ∃ e', (a.inspect t (some e) path).extractor = some e' := by
  unfold summaryAt inspect
  cases t.read (Utf8.encode path) with
  | error f => exact ⟨rfl, e, rfl⟩
  | ok bytes =>
    unfold inspectContent readSource
    cases Strategy.ofPath path with
    | lineScan => exact ⟨rfl, e, rfl⟩
    | structural l =>
      simp only [Extractor.extract_eq]
      cases l.extract (Utf8.decodeLossy bytes) with
      | ok as => exact ⟨rfl, _, rfl⟩
      | error f => exact ⟨rfl, _, rfl⟩

/-- The files are inspected as if each were the first. -/
theorem inspectAll_eq (a : Inspector) (t : FileTree) (e : Extractor) (tally : Tally)
    (paths : List Path) :
    (a.inspectAll t (some e) tally paths).1 = paths.map (a.summaryAt t) := by
  induction paths generalizing e tally with
  | nil => rfl
  | cons path rest ih =>
    obtain ⟨hsummary, e', he⟩ := inspect_eq a t e path
    simp only [inspectAll, List.map_cons, hsummary, he, ih]

theorem file_of_mem_summaryAt {a : Inspector} {t : FileTree} {path : Path} {f : Finding}
    (h : f ∈ (a.summaryAt t path).findings) : f.file = Path.relative a.root path := by
  unfold summaryAt inspect at h
  cases hread : t.read (Utf8.encode path) with
  | error e => rw [hread] at h; simp [inspectContent] at h
  | ok bytes =>
    rw [hread] at h
    obtain ⟨b, -, rfl⟩ := List.mem_map.mp h
    rfl

theorem precedes_summaryAt (a : Inspector) (t : FileTree) (path : Path) :
    (a.summaryAt t path).findings.Pairwise fun f g => Finding.precedes f g = true := by
  unfold summaryAt inspect
  cases t.read (Utf8.encode path) with
  | error e => exact List.Pairwise.nil
  | ok bytes =>
    have hlines := readSource_lines (some .fresh) (Strategy.ofPath path) (Utf8.decodeLossy bytes)
    refine List.pairwise_map.mpr (hlines.imp fun {b c} hbc => ?_)
    obtain ⟨m, n, hm, hn, hle⟩ := hbc
    rw [Finding.precedes_iff]
    refine Or.inr ⟨rfl, ?_⟩
    simp only [Finding.ofAnnotation, hm, hn, Finding.lineRank]
    exact hle

end Inspector

namespace Scan

/-! ### Scans that are ready -/

/-- The scans that come from settings, before and after runs. -/
inductive Ready : Scan → Prop
  | prepared {t : FileTree} {settings : Settings} {s : Scan} (h : prepare t settings = .ok s) :
      Ready s
  | again {s : Scan} (h : Ready s) (t : FileTree) : Ready (s.run t).1

theorem root_of_prepare {t : FileTree} {settings : Settings} {s : Scan}
    (h : prepare t settings = .ok s) : s.walk.root = s.settings.root := by
  unfold prepare at h
  split at h
  · cases h
  split at h
  · cases h
  · next walk hwalk =>
    cases h
    unfold Walk.ofSettings at hwalk
    cases hrules : Walk.excludeSet settings.ignore with
    | error f => rw [hrules] at hwalk; cases hwalk
    | ok rules => rw [hrules] at hwalk; cases hwalk; rfl

theorem run_fst (s : Scan) (t : FileTree) :
    (s.run t).1.walk = s.walk ∧ (s.run t).1.settings = s.settings := by
  unfold run runWith
  split <;> exact ⟨rfl, rfl⟩

/-- The walk of a scan starts at the root that paths are reported for. -/
theorem Ready.root_eq {s : Scan} (h : s.Ready) : s.walk.root = s.settings.root := by
  induction h with
  | prepared h => exact root_of_prepare h
  | again _ t ih =>
    obtain ⟨hwalk, hsettings⟩ := run_fst _ t
    rw [hwalk, hsettings, ih]

/-! ### Runs -/

theorem exists_of_run {s : Scan} {t : FileTree} {o : Outcome} (h : (s.run t).2 = .ok o) :
    ∃ paths, s.walk.files t = .ok paths ∧
      o.findings = Finding.sort (paths.flatMap fun p => (s.inspector.summaryAt t p).findings) := by
  unfold run runWith at h
  split at h
  · cases h
  · next paths hfiles =>
    refine ⟨paths, hfiles, ?_⟩
    have hall := Inspector.inspectAll_eq s.inspector t .fresh
      (Tally.zero.discover (UInt64.ofNat paths.length)) paths
    cases h
    simp only [outcomeOf, hall, List.flatMap_map]

/-- What files that are inspected add up to, if the findings ascend strictly. -/
theorem run_eq_ok {s : Scan} {t : FileTree} {o : Outcome} {paths : List Path}
    {all : List FileSummary × Tally} (hfiles : s.walk.files t = .ok paths)
    (hall : s.inspector.inspectAll t (some .fresh)
      (Tally.zero.discover (UInt64.ofNat paths.length)) paths = all)
    (hperm : (all.1.flatMap (·.findings)).Perm o.findings)
    (hlt : o.findings.Pairwise fun f g => Finding.precedes g f = false)
    (htally : all.2 = o.tally) (hnotices : all.1.filterMap (·.notice) = o.notices) :
    (s.run t).2 = .ok o := by
  have hsort : Finding.sort (all.1.flatMap (·.findings)) = o.findings :=
    mergeSort_eq_of_perm Finding.precedes_trans Finding.precedes_total hperm hlt
  simp only [run, runWith, hfiles, hall, outcomeOf, hsort, htally, hnotices]

/-- Paths can be put in the order of what is reported for them. -/
theorem exists_order {file : Path → Path} {paths : List Path}
    (h : paths.Pairwise fun p q => file p ≠ file q) :
    ∃ order : List Path, order.Perm paths ∧ order.Pairwise fun p q => file p < file q := by
  let le := fun p q : Path => !decide (file q < file p)
  have hperm := List.mergeSort_perm paths le
  have hle : (paths.mergeSort le).Pairwise fun p q => le p q = true := by
    refine List.pairwise_mergeSort (fun p q r hpq hqr => ?_) (fun p q => ?_) paths
    · simp only [le, Bool.not_eq_true', decide_eq_false_iff_not] at *
      grind
    · simp only [le, Bool.or_eq_true, Bool.not_eq_true', decide_eq_false_iff_not]
      grind
  have hne := (hperm.pairwise_iff fun {p q} hpq => Ne.symm hpq).mpr h
  refine ⟨_, hperm, (hle.and hne).imp fun {p q} hpq => ?_⟩
  obtain ⟨hnot, hne⟩ := hpq
  simp only [le, Bool.not_eq_true', decide_eq_false_iff_not] at hnot
  grind

/-- The findings of an outcome are those of the files that the walk has found, file by file. -/
structure ListsFiles (s : Scan) (t : FileTree) (o : Outcome) (paths order : List Path) : Prop where
  found : s.walk.files t = .ok paths
  /-- Each file has one place. -/
  once : order.Perm paths
  /-- The places are in the order of the bytes of the reported paths. -/
  ascending : order.Pairwise fun p q =>
    Utf8.encode (Path.relative s.settings.root p) < Utf8.encode (Path.relative s.settings.root q)
  findings : o.findings = order.flatMap fun p => (s.inspector.summaryAt t p).findings
  /-- The summaries of the files may be put together in any order. -/
  merged : ∀ (files : List Path) (tally : Tally), files.Perm paths →
    (outcomeOf (files.map (s.inspector.summaryAt t)) tally).findings = o.findings
  /-- The sort does not change the order of the findings of one file. -/
  kept : ∀ p ∈ paths, (o.findings.filter fun f => f.file = Path.relative s.settings.root p) =
    (s.inspector.summaryAt t p).findings

/-- **The order of findings.** A run that succeeds lists the findings of the files one file after
the other, by the bytes of the reported paths, each file once and with its findings as they are
found in it. -/
theorem run_lists_files {s : Scan} (hs : s.Ready) {t : FileTree} {o : Outcome}
    (h : (s.run t).2 = .ok o) : ∃ paths order, s.ListsFiles t o paths order := by
  obtain ⟨paths, hfiles, hfindings⟩ := exists_of_run h
  have hne := Walk.files_relative hfiles
  rw [hs.root_eq] at hne
  obtain ⟨order, hperm, hlt⟩ := exists_order hne
  have hfile : ∀ p, ∀ f ∈ (s.inspector.summaryAt t p).findings,
      f.file = Path.relative s.settings.root p :=
    fun p f hf => Inspector.file_of_mem_summaryAt hf
  have hblock := Inspector.precedes_summaryAt s.inspector t
  -- the one place where the sort is used: it gives the same list for every order of the files
  have hsort : ∀ files : List Path, files.Perm paths →
      Finding.sort (files.flatMap fun p => (s.inspector.summaryAt t p).findings) =
        order.flatMap fun p => (s.inspector.summaryAt t p).findings :=
    fun files hp => Finding.sort_flatMap hfile hblock (hp.trans hperm.symm) hlt
  have horder := hfindings.trans (hsort paths (List.Perm.refl paths))
  refine ⟨paths, order, hfiles, hperm, hlt.imp Utf8.encode_lt_encode, horder, ?_, ?_⟩
  · intro files tally hp
    rw [outcomeOf, List.flatMap_map, hsort files hp, horder]
  · intro p hp
    have hne' := (hperm.pairwise_iff fun {p q} hpq => Ne.symm hpq).mpr hne
    rw [horder]
    exact Finding.filter_file_flatMap hfile hne' (hperm.mem_iff.mpr hp)

/-- The file `a.sh` is listed before what is in the directory `a`, since a dot comes before a slash;
by components it would come after it. -/
theorem run_lists_files_nested :
    let t : FileTree := { entries := [([[0x61]], .directory),
      ([[0x61], Utf8.encode "b.sh".toList], .file (Utf8.encode "# TODO x\n# FIXME y".toList)),
      ([Utf8.encode "a.sh".toList], .file (Utf8.encode "# HACK z".toList))] }
    let s : Scan := ⟨{ Settings.ofRoot ['.'] with extensions := ["sh".toList], ignore := [] },
      ⟨['.'], ["sh".toList], [], false, false⟩, Tally.zero⟩
    let o : Outcome := ⟨[⟨.hack, "a.sh".toList, some 1, "z".toList, "# HACK z".toList, none⟩,
      ⟨.todo, "a/b.sh".toList, some 1, "x".toList, "# TODO x".toList, none⟩,
      ⟨.fixme, "a/b.sh".toList, some 2, "y".toList, "# FIXME y".toList, none⟩],
      ⟨2, 2, 0, 2, 0, 3⟩, []⟩
    prepare t s.settings = .ok s ∧ (s.run t).2 = .ok o ∧
      ∃ paths order, s.ListsFiles t o paths order := by
  intro t s o
  have hprepare : prepare t s.settings = .ok s := rfl
  have hfiles : s.walk.files t = .ok ["./a/b.sh".toList, "./a.sh".toList] :=
    Walk.collect_eq_ok (by decide +kernel) (by decide +kernel) (by decide +kernel)
  have hrun : (s.run t).2 = .ok o :=
    run_eq_ok hfiles rfl (by decide +kernel) (by decide +kernel) (by decide +kernel)
      (by decide +kernel)
  exact ⟨hprepare, hrun, run_lists_files (.prepared hprepare) hrun⟩

end Scan

end ActionItems
