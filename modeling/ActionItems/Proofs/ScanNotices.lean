import ActionItems.Proofs.ScanFaults
import ActionItems.Proofs.WorkerPool

/-!
# What a scan tells besides its findings

Two of the settings say how a scan is done and not what it looks for: the number of files that are
read at once, and whether the outcome tells about files that needed attention. Settings that differ
in nothing else are variants (`Settings.IsVariant`), and the scans of variants fail alike or come to
the same findings and the same counters.

* `Scan.ScansTo` is what a scan may come to when workers share its files. However many they are and
  however their turns are mixed, it comes to what one worker comes to (`runsTo_iff`, `scansTo_iff`).
* The findings of a file and the events that are counted for it depend on the root of the inspector
  alone (`Inspector.inspect_agree`), and so do those of all files of a walk (`run_variant`).
* `ScanFault.IsAt` is the fault of a file that could not be read, or not by its syntax. If notices
  are kept, the files with such a fault are those that have a notice (`notice_eq_some_iff`).
-/

namespace ActionItems

open Text

/-! ### Variants of settings -/

/-- Settings that differ at most in what is told and in the files at once, of which there are
some. -/
structure Settings.IsVariant (s s' : Settings) : Prop where
  others : s' = { s with concurrency := s'.concurrency, verbose := s'.verbose }
  jobs : s.concurrency ≠ some 0
  jobs' : s'.concurrency ≠ some 0

namespace Settings.IsVariant

variable {s s' : Settings} (h : s.IsVariant s')

include h

theorem root_eq : s'.root = s.root := by rw [h.others]

theorem check_eq (t : FileTree) : s'.check t = s.check t := by
  unfold check
  rw [if_neg h.jobs, if_neg h.jobs', h.root_eq]

theorem walk_eq : Walk.ofSettings s' = Walk.ofSettings s := by
  rw [h.others]
  rfl

/-- Variants are refused for the same fault, or prepared with the same walk. -/
theorem prepare_eq (t : FileTree) :
    Scan.prepare t s' = (Scan.prepare t s).map fun ready => { ready with settings := s' } := by
  unfold Scan.prepare
  rw [h.check_eq t, h.walk_eq]
  cases s.check t with
  | error f => rfl
  | ok _ => cases Walk.ofSettings s <;> rfl

end Settings.IsVariant

/-! ### Faults of files -/

theorem Walk.eq_of_relative {w : Walk} {t : FileTree} {paths : List Path}
    (h : w.files t = .ok paths) {p q : Path}
    (hp : p ∈ paths) (hq : q ∈ paths) (heq : Path.relative w.root p = Path.relative w.root q) :
    p = q := by
  have : Std.Symm fun p q : Path => Path.relative w.root p ≠ Path.relative w.root q :=
    ⟨fun _ _ => Ne.symm⟩
  by_contra hne
  exact (files_relative h).forall hp hq hne heq

/-- The fault of a file that cannot be read, or that has a language and does not fit its grammar. -/
inductive ScanFault.IsAt (root : Path) (t : FileTree) (path : Path) : ScanFault → Prop
  | unread {e : SystemError} (hread : t.read (Utf8.encode path) = .error e) :
    IsAt root t path (.read (Path.relative root path) e.message)
  | unparsed {bytes : Bytes} {l : Language} {f : SyntaxFault}
      (hread : t.read (Utf8.encode path) = .ok bytes)
      (hlanguage : Strategy.ofPath path = .structural l)
      (hextract : l.extract (Utf8.decodeLossy bytes) = .error f) :
    IsAt root t path (.parse (Path.relative root path) f)

namespace ScanFault

variable {root path : Path} {t : FileTree} {f : ScanFault}

/-- Only faults that a scan survives are about a file. -/
theorem sparesScan_of_path? (h : f.path? = some path) : f.sparesScan = true := by
  cases f with
  | settings _ => cases h
  | walk _ => cases h
  | parse _ _ => rfl
  | read _ _ => rfl

theorem IsAt.sparesScan (h : f.IsAt root t path) : f.sparesScan = true := by
  cases h <;> exact sparesScan_of_path? rfl

theorem isAt_iff_of_error {e : SystemError} (hread : t.read (Utf8.encode path) = .error e) :
    f.IsAt root t path ↔ f = .read (Path.relative root path) e.message := by
  constructor
  · intro h
    cases h with
    | unread hread' =>
      rw [hread] at hread'
      cases hread'
      rfl
    | unparsed hread' =>
      rw [hread] at hread'
      cases hread'
  · rintro rfl
    exact .unread hread

theorem isAt_iff_of_ok {bytes : Bytes} (hread : t.read (Utf8.encode path) = .ok bytes) :
    f.IsAt root t path ↔ ∃ l g, Strategy.ofPath path = .structural l ∧
      l.extract (Utf8.decodeLossy bytes) = .error g ∧ f = .parse (Path.relative root path) g := by
  constructor
  · intro h
    cases h with
    | unread hread' =>
      rw [hread] at hread'
      cases hread'
    | unparsed hread' hlanguage hextract =>
      rw [hread] at hread'
      cases hread'
      exact ⟨_, _, hlanguage, hextract, rfl⟩
  · rintro ⟨l, g, hlanguage, hextract, rfl⟩
    exact .unparsed hread hlanguage hextract

end ScanFault

namespace Inspector

variable {a b : Inspector} {t : FileTree} {path : Path}

/-! ### What does not depend on notices -/

theorem inspect_agree (h : b.root = a.root) (t : FileTree) (e : Option Extractor) (path : Path) :
    (b.inspect t e path).summary.findings = (a.inspect t e path).summary.findings ∧
      (b.inspect t e path).events = (a.inspect t e path).events := by
  unfold inspect
  cases t.read (Utf8.encode path) with
  | error err => exact ⟨rfl, rfl⟩
  | ok bytes =>
    refine ⟨?_, rfl⟩
    simp only [inspectContent, summaryOf, h]

theorem inspectAll_agree (h : b.root = a.root) (t : FileTree) (e : Option Extractor) (tally : Tally)
    (paths : List Path) :
    (b.inspectAll t e tally paths).1.flatMap (·.findings) =
        (a.inspectAll t e tally paths).1.flatMap (·.findings) ∧
      (b.inspectAll t e tally paths).2 = (a.inspectAll t e tally paths).2 := by
  have hfindings := fun p => (inspect_agree h t e p).1
  have hevents := fun p => (inspect_agree h t e p).2
  rw [inspectAll_summaries, inspectAll_summaries, inspectAll_snd, inspectAll_snd]
  simp only [List.flatMap_map, hfindings, hevents, and_self]

/-! ### Notices -/

theorem noticeOf_eq_some_iff {f : ScanFault} {n : Notice} :
    a.noticeOf f = some n ↔ a.verbose = true ∧ f.path? = some n.path ∧ n.fault = f := by
  obtain ⟨path, fault⟩ := n
  unfold noticeOf Notice.of?
  split_ifs with hkept
  · rw [Option.map_eq_some_iff]
    simp [(Bool.and_eq_true_iff.mp hkept).1, eq_comm]
  · refine iff_of_false not_false fun ⟨hverbose, hpath, _⟩ => hkept ?_
    rw [hverbose, ScanFault.sparesScan_of_path? hpath, Bool.and_self]

theorem readSource_fault_eq_some_iff {e : Extractor} {strategy : Strategy} {source : Text}
    {g : SyntaxFault} :
    (readSource (some e) strategy source).fault = some g ↔
      ∃ l, strategy = .structural l ∧ l.extract source = .error g := by
  cases strategy with
  | lineScan => simp [readSource]
  | structural l =>
    cases hextract : l.extract source <;> simp [readSource, Extractor.extract_eq, hextract]

/-- **The notice of a file** is that of its fault, if notices are kept. -/
theorem notice_eq_some_iff {n : Notice} : (a.summaryAt t path).notice = some n ↔
    a.verbose = true ∧ n.path = Path.relative a.root path ∧ n.fault.IsAt a.root t path := by
  unfold summaryAt inspect
  cases hread : t.read (Utf8.encode path) with
  | error e =>
    rw [ScanFault.isAt_iff_of_error hread]
    simp only [inspectContent, noticeOf_eq_some_iff, ScanFault.path?, Option.some.injEq]
    exact and_congr_right fun _ => and_congr_left fun _ => eq_comm
  | ok bytes =>
    rw [ScanFault.isAt_iff_of_ok hread]
    simp only [inspectContent, summaryOf, Option.bind_eq_some_iff, readSource_fault_eq_some_iff,
      noticeOf_eq_some_iff,
      ScanFault.path?, Option.some.injEq]
    constructor
    · rintro ⟨g, ⟨l, hlanguage, hextract⟩, hverbose, hpath, hfault⟩
      exact ⟨hverbose, hpath.symm, l, g, hlanguage, hextract, hfault⟩
    · rintro ⟨hverbose, hpath, l, g, hlanguage, hextract, hfault⟩
      exact ⟨g, ⟨l, hlanguage, hextract⟩, hverbose, hpath.symm, hfault⟩

theorem isSome_notice_iff (hverbose : a.verbose = true) :
    (a.summaryAt t path).notice.isSome = true ↔ ∃ f : ScanFault, f.IsAt a.root t path := by
  rw [Option.isSome_iff_exists]
  simp only [notice_eq_some_iff, hverbose, true_and]
  constructor
  · rintro ⟨n, -, hfault⟩
    exact ⟨n.fault, hfault⟩
  · rintro ⟨f, hfault⟩
    exact ⟨⟨_, f⟩, rfl, hfault⟩

end Inspector

instance (root : Path) (t : FileTree) (path : Path) :
    Decidable (∃ f : ScanFault, f.IsAt root t path) :=
  decidable_of_iff _ (Inspector.isSome_notice_iff (a := ⟨root, true⟩) rfl)

/-- What an outcome has found and counted. -/
def Outcome.results (o : Outcome) : List Finding × Tally := (o.findings, o.tally)

namespace Scan

variable {s : Scan} {settings : Settings} {t now : FileTree} {r : Except ScanFault Outcome}

/-! ### Scans with workers -/

/-- The workers of a run before their first turn. -/
def crew (paths : List Path) (workers : Nat) : Pool paths workers :=
  .start paths workers (some .fresh) (Tally.zero.discover (UInt64.ofNat paths.length))

/-- What a run may come to when so many workers share the files, however their turns are mixed. -/
inductive RunsTo (s : Scan) (t : FileTree) (workers : Nat) : Except ScanFault Outcome → Prop
  | fails {f : WalkFault} (hfiles : s.walk.files t = .error f) :
      RunsTo s t workers (.error (.walk f))
  | finishes {paths : List Path} {turns : List (Turn paths.length workers)} {p : Pool paths workers}
      {summaries : List FileSummary} (hfiles : s.walk.files t = .ok paths)
      (hplay : (crew paths workers).play s.inspector t turns = some p)
      (hfinished : p.IsFinished) (hsummaries : List.ofFn p.summaries = summaries.map some) :
    RunsTo s t workers (.ok (outcomeOf summaries p.tally))

/-- What a scan with the given settings may come to, prepared in one file tree and run in
another. -/
inductive ScansTo (processors : UInt64) (settings : Settings) (t now : FileTree) :
    Except ScanFault Outcome → Prop
  | refused {f : ScanFault} (hprepare : prepareWithin processors t settings = .error f) :
    ScansTo processors settings t now (.error f)
  | ran {s : Scan} {bound : Concurrency} {r : Except ScanFault Outcome}
      (hprepare : prepareWithin processors t settings = .ok (s, bound))
      (hrun : s.RunsTo now bound.limit.toNat r) : ScansTo processors settings t now r

/-- A crew that is done has the summaries and the counters of one worker. -/
theorem crew_finished {paths : List Path} {workers : Nat} {turns : List (Turn paths.length workers)}
    {p : Pool paths workers} (hplay : (crew paths workers).play s.inspector t turns = some p)
    (hfinished : p.IsFinished) :
    let all := s.inspector.inspectAll t (some .fresh)
      (Tally.zero.discover (UInt64.ofNat paths.length)) paths
    List.ofFn p.summaries = all.1.map some ∧ p.tally = all.2 :=
  (Pool.isSound_play (Pool.isSound_start ..) hplay).1.finished hfinished

/-- **Workers** come to what one worker comes to, and there are turns in which they do. -/
theorem runsTo_iff {workers : Nat} (hworkers : 0 < workers) :
    s.RunsTo t workers r ↔ r = (s.run t).2 := by
  unfold run runWith
  constructor
  · intro h
    cases h with
    | fails hfiles => rw [hfiles]
    | finishes hfiles hplay hfinished hsummaries =>
      obtain ⟨hall, htally⟩ := crew_finished hplay hfinished
      have heq := List.map_injective_iff.mpr (Option.some_injective _) (hsummaries.symm.trans hall)
      rw [hfiles, heq, htally]
  · rintro rfl
    cases hfiles : s.walk.files t with
    | error f => exact .fails hfiles
    | ok paths =>
      obtain ⟨turns, p, hplay, hfinished, -⟩ :=
        Pool.exists_finish (a := s.inspector) (t := t) (crew paths workers) fun _ => ⟨0, hworkers⟩
      obtain ⟨hall, htally⟩ := crew_finished hplay hfinished
      have hruns := RunsTo.finishes hfiles hplay hfinished hall
      rwa [htally] at hruns

theorem scansTo_iff {processors : UInt64} :
    ScansTo processors settings t now r ↔ r = (prepare t settings).bind fun s => (s.run now).2 := by
  rw [← prepareWithin_eq processors t settings]
  cases hprepare : prepareWithin processors t settings with
  | error f =>
    constructor
    · intro h
      cases h with
      | refused hprepare' =>
        rw [hprepare] at hprepare'
        cases hprepare'
        rfl
      | ran hprepare' _ =>
        rw [hprepare] at hprepare'
        cases hprepare'
    · rintro rfl
      exact .refused hprepare
  | ok x =>
    obtain ⟨s, bound⟩ := x
    have hworkers : 0 < bound.limit.toNat :=
      Nat.pos_of_ne_zero fun hzero => bound.positive (UInt64.toNat_inj.mp hzero)
    constructor
    · intro h
      cases h with
      | refused hprepare' =>
        rw [hprepare] at hprepare'
        cases hprepare'
      | ran hprepare' hrun =>
        rw [hprepare] at hprepare'
        cases hprepare'
        exact (runsTo_iff hworkers).mp hrun
    · rintro rfl
      exact .ran hprepare ((runsTo_iff hworkers).mpr rfl)

/-! ### Variants -/

theorem run_variant {s' : Settings} (h : s'.root = s.settings.root) (t : FileTree) :
    (({ s with settings := s' } : Scan).run t).2.map Outcome.results =
      (s.run t).2.map Outcome.results := by
  unfold run runWith
  cases hfiles : s.walk.files t with
  | error f => rfl
  | ok paths =>
    obtain ⟨hfindings, htally⟩ := Inspector.inspectAll_agree (a := s.inspector)
      (b := ({ s with settings := s' } : Scan).inspector) h t (some .fresh)
      (Tally.zero.discover (UInt64.ofNat paths.length)) paths
    simp only [Except.map, Outcome.results, outcomeOf, hfindings, htally]

/-! ### Notices of a run -/

theorem notices_of_run {o : Outcome} (h : (s.run t).2 = .ok o) :
    ∃ paths, s.walk.files t = .ok paths ∧
    o.notices = paths.filterMap fun p => (s.inspector.summaryAt t p).notice := by
  unfold run runWith at h
  split at h
  · cases h
  · next paths hfiles =>
    cases h
    refine ⟨paths, hfiles, ?_⟩
    rw [outcomeOf, Inspector.inspectAll_eq, List.filterMap_map]
    rfl

/-- What an outcome tells about the files that were found with the given settings. -/
structure Tells (settings : Settings) (t : FileTree) (paths : List Path) (o : Outcome) : Prop where
  found : ∃ walk, Walk.ofSettings settings = .ok walk ∧ walk.files t = .ok paths
  quiet : settings.verbose = false → o.notices = []
  /-- The notices stand for the files with a fault, in the order in which the files were found. -/
  verbose : settings.verbose = true →
    List.Forall₂ (fun p (n : Notice) => n.path = Path.relative settings.root p ∧
        n.fault.IsAt settings.root t p ∧ n.fault.sparesScan = true)
      (paths.filter fun p => decide (∃ f : ScanFault, f.IsAt settings.root t p)) o.notices
  /-- Nothing is told about a file that is read line by line because it has no language. -/
  plain : ∀ p ∈ paths, Strategy.ofPath p = .lineScan → ∀ bytes, t.read (Utf8.encode p) = .ok bytes →
    ∀ n ∈ o.notices, n.path ≠ Path.relative settings.root p

theorem exists_tells {o : Outcome} (hprepare : prepare t settings = .ok s)
    (h : (s.run now).2 = .ok o) :
    ∃ paths, s.walk.files now = .ok paths ∧ Tells settings now paths o := by
  obtain ⟨paths, hfiles, hnotices⟩ := notices_of_run h
  obtain ⟨rfl, hwalk⟩ := eq_of_prepare hprepare
  refine ⟨paths, hfiles, ⟨s.walk, hwalk, hfiles⟩, fun hquiet => ?_, fun hverbose => ?_, ?_⟩
  · rw [hnotices, List.filterMap_eq_nil_iff]
    intro p _
    rw [Option.eq_none_iff_forall_ne_some]
    intro n hn
    have hkept := (Inspector.notice_eq_some_iff.mp hn).1
    exact absurd hkept (by simp [inspector, hquiet])
  · rw [hnotices]
    refine forall₂_filterMap (fun p _ => ?_) fun p _ n hn => ?_
    · rw [Bool.eq_iff_iff, decide_eq_true_iff, Inspector.isSome_notice_iff hverbose]
      rfl
    · obtain ⟨-, hpath, hfault⟩ := Inspector.notice_eq_some_iff.mp hn
      exact ⟨hpath, hfault, hfault.sparesScan⟩
  · intro p hp hplain bytes hread n hn hpath
    rw [hnotices] at hn
    obtain ⟨q, hq, hnotice⟩ := List.mem_filterMap.mp hn
    obtain ⟨-, hpath', hfault⟩ := Inspector.notice_eq_some_iff.mp hnotice
    -- files are told apart by their reported paths, so the notice is about the file itself
    have hrelative := hpath.symm.trans hpath'
    obtain rfl : p = q := Walk.eq_of_relative hfiles hp hq (by rwa [root_of_prepare hprepare])
    obtain ⟨l, g, hlanguage, -⟩ := (ScanFault.isAt_iff_of_ok hread).mp hfault
    rw [hplain] at hlanguage
    cases hlanguage

/-- **What is told** makes no difference to what is found. Scans of two variants of settings, on any
machines and with any mix of the turns of their workers, end with the same fault, or with the same
findings and the same counters. Without notices nothing is told; with them each file of the walk
that has a fault is told about once, in the order of the walk, and no other file is. -/
theorem verbosity_adds_notices {s s' : Settings} (h : s.IsVariant s')
    (processors processors' : UInt64)
    (t now : FileTree) :
    (∃ r, ScansTo processors s t now r) ∧ (∃ r', ScansTo processors' s' t now r') ∧
    ∀ r r', ScansTo processors s t now r → ScansTo processors' s' t now r' →
      r'.map Outcome.results = r.map Outcome.results ∧
      ∀ o o', r = .ok o → r' = .ok o' → ∃ paths, Tells s now paths o ∧ Tells s' now paths o' := by
  refine ⟨⟨_, scansTo_iff.mpr rfl⟩, ⟨_, scansTo_iff.mpr rfl⟩, fun r r' hr hr' => ?_⟩
  rw [scansTo_iff] at hr hr'
  have hprepare' := h.prepare_eq t
  cases hprepare : prepare t s with
  | error f =>
    rw [hprepare] at hprepare' hr
    rw [hprepare'] at hr'
    obtain rfl : r = .error f := hr
    obtain rfl : r' = .error f := hr'
    exact ⟨rfl, fun o o' ho => by cases ho⟩
  | ok ready =>
    rw [hprepare] at hprepare' hr
    rw [hprepare'] at hr'
    obtain rfl : r = (ready.run now).2 := hr
    obtain rfl : r' = (({ ready with settings := s' } : Scan).run now).2 := hr'
    refine ⟨run_variant (h.root_eq.trans (congrArg _ (eq_of_prepare hprepare).1.symm)) now,
      fun o o' ho ho' => ?_⟩
    obtain ⟨paths, hfiles, htells⟩ := exists_tells hprepare ho
    obtain ⟨paths', hfiles', htells'⟩ := exists_tells hprepare' ho'
    obtain rfl : paths = paths' := Except.ok.inj (hfiles.symm.trans hfiles')
    exact ⟨paths, htells, htells'⟩

/-- A file that may not be read, and a file without a language. -/
theorem verbosity_adds_notices_unopened :
    let name : Path := "b.sh".toList
    let t : FileTree := { entries := [([Utf8.encode name], .locked),
      ([Utf8.encode "a.sh".toList], .file (Utf8.encode "# TODO x".toList))] }
    let s : Settings := { Settings.ofRoot ['.'] with
      extensions := ["sh".toList], ignore := [], concurrency := some 2 }
    let s' : Settings := { s with concurrency := none, verbose := true }
    s.IsVariant s' ∧ ∃ o o', ScansTo 1 s t t (.ok o) ∧ ScansTo 8 s' t t (.ok o') ∧
      o'.results = o.results ∧
      o.notices = [] ∧ o'.notices = [⟨name, .read name (SystemError.message .accessDenied)⟩] := by
  intro name t s s'
  let walk : Walk := ⟨['.'], ["sh".toList], [], false, false⟩
  have hvariant : s.IsVariant s' := ⟨rfl, by decide, by decide⟩
  have hprepare : prepare t s = .ok ⟨s, walk, Tally.zero⟩ := rfl
  have hroot : t.isDirectory (Utf8.encode walk.root) = true := by decide +kernel
  have hfiles : walk.files t = .ok ["./a.sh".toList, "./".toList ++ name] :=
    Walk.collect_eq_ok (by decide +kernel) (by decide +kernel) (by decide +kernel)
  have hread : t.read (Utf8.encode "./a.sh".toList) = .ok (Utf8.encode "# TODO x".toList) := by
    decide +kernel
  have hunread : t.read (Utf8.encode ("./".toList ++ name)) = .error .accessDenied := by
    decide +kernel
  have hlines : Strategy.ofPath "./a.sh".toList = .lineScan := by decide +kernel
  have hrelative : Path.relative s'.root ("./".toList ++ name) = name := by decide +kernel
  obtain ⟨o, hrun⟩ : ∃ o, ((⟨s, walk, Tally.zero⟩ : Scan).run t).2 = .ok o := exists_run hroot
  obtain ⟨o', hrun'⟩ : ∃ o, ((⟨s', walk, Tally.zero⟩ : Scan).run t).2 = .ok o := exists_run hroot
  have hscans : ScansTo 1 s t t (.ok o) := by
    rw [scansTo_iff, hprepare]
    exact hrun.symm
  have hscans' : ScansTo 8 s' t t (.ok o') := by
    rw [scansTo_iff, hvariant.prepare_eq, hprepare]
    exact hrun'.symm
  obtain ⟨-, -, hagree⟩ := verbosity_adds_notices hvariant 1 8 t t
  obtain ⟨hresults, htells⟩ := hagree _ _ hscans hscans'
  obtain ⟨paths, hquiet, hverbose⟩ := htells o o' rfl rfl
  refine ⟨hvariant, o, o', hscans, hscans', Except.ok.inj hresults, hquiet.quiet rfl, ?_⟩
  obtain ⟨walk', hwalk', hfiles'⟩ := hverbose.found
  have hwalk : Walk.ofSettings s' = .ok walk := hvariant.walk_eq.trans (eq_of_prepare hprepare).2
  obtain rfl : walk' = walk := Except.ok.inj (hwalk'.symm.trans hwalk)
  obtain rfl := Except.ok.inj (hfiles'.symm.trans hfiles)
  have hplain : ¬∃ f : ScanFault, f.IsAt s'.root t "./a.sh".toList := by
    rintro ⟨f, hf⟩
    obtain ⟨l, -, hl, -⟩ := (ScanFault.isAt_iff_of_ok hread).mp hf
    rw [hlines] at hl
    cases hl
  have hfaulty : ∃ f : ScanFault, f.IsAt s'.root t ("./".toList ++ name) := ⟨_, .unread hunread⟩
  have htold := hverbose.verbose rfl
  rw [List.filter_cons_of_neg (by rwa [decide_eq_true_iff]),
    List.filter_cons_of_pos (by rwa [decide_eq_true_iff]),
    List.filter_nil] at htold
  obtain ⟨⟨path, fault⟩, _, ⟨rfl, hfault, -⟩, hnil, hnotices⟩ := List.forall₂_cons_left_iff.mp htold
  obtain rfl := List.forall₂_nil_left_iff.mp hnil
  obtain rfl := (ScanFault.isAt_iff_of_error hunread).mp hfault
  rw [hnotices, hrelative]

end Scan

end ActionItems
