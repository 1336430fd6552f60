import ActionItems.Proofs.ScanOrder

/-! # The counters of a scan add up

The counters account for files (`Tally.Accounts`) when those that were read and those that could not
be read make up all files, those that were read were read by syntax or line by line, and the
findings are all counted. Inspecting a file counts it on exactly one side: it is refused, or it is
read in one of the two ways and its findings are added (`readSource_event`). So the counters account
for one file more after each inspection (`accounts_inspect`), and after a run for all files of the
walk (`accounts_inspectAll`). The sums are those of words of 64 bits. -/

namespace ActionItems

open Text

namespace Tally

/-- The counters account for a number of files, some of which were refused, and for the findings in
the others. -/
structure Accounts (s : Tally) (files refused found : Nat) : Prop where
  files : s.scanned + s.readErrors = UInt64.ofNat files
  refused : s.readErrors = UInt64.ofNat refused
  ways : s.scanned = s.bySyntax + s.byLine
  found : s.findings = UInt64.ofNat found

theorem accounts_zero (d : UInt64) : (zero.discover d).Accounts 0 0 0 := ⟨rfl, rfl, rfl, rfl⟩

variable {s : Tally} {n r f : Nat}

/-- A file that was read, by syntax or line by line. -/
theorem Accounts.read (h : s.Accounts n r f) {e : Event} (he : e = .bySyntax ∨ e = .byLine)
    (k : Nat) :
    (s.countAll [.scanned, e, .findings (UInt64.ofNat k)]).Accounts (n + 1) r (f + k) := by
  have hfiles : s.scanned + 1 + s.readErrors = UInt64.ofNat (n + 1) := by
    rw [UInt64.ofNat_add, ← h.files]
    ac_rfl
  have hfound : s.findings + UInt64.ofNat k = UInt64.ofNat (f + k) := by
    rw [UInt64.ofNat_add, ← h.found]
  rcases he with rfl | rfl
  · refine ⟨hfiles, h.refused, ?_, hfound⟩
    show s.scanned + 1 = s.bySyntax + 1 + s.byLine
    rw [h.ways]
    ac_rfl
  · refine ⟨hfiles, h.refused, ?_, hfound⟩
    show s.scanned + 1 = s.bySyntax + (s.byLine + 1)
    rw [h.ways]
    ac_rfl

/-- A file that could not be read. -/
theorem Accounts.refuse (h : s.Accounts n r f) :
    (s.countAll [.readError]).Accounts (n + 1) (r + 1) f := by
  have hrefused : s.readErrors + 1 = UInt64.ofNat (r + 1) := by
    rw [UInt64.ofNat_add, ← h.refused]
    rfl
  refine ⟨?_, hrefused, h.ways, h.found⟩
  show s.scanned + (s.readErrors + 1) = UInt64.ofNat (n + 1)
  rw [UInt64.ofNat_add, ← h.files]
  ac_rfl

theorem bySyntax_countAll (s : Tally) {es : List Event} (h : Event.bySyntax ∉ es) :
    (s.countAll es).bySyntax = s.bySyntax := by
  induction es generalizing s with
  | nil => rfl
  | cons e es ih =>
    have hstep : (s.count e).bySyntax = s.bySyntax := by
      cases e with
      | bySyntax => exact absurd (List.mem_cons_self ..) h
      | _ => rfl
    exact (ih (s.count e) fun hmem => h (List.mem_cons_of_mem _ hmem)).trans hstep

theorem discovered_countAll (s : Tally) (es : List Event) :
    (s.countAll es).discovered = s.discovered := by
  induction es generalizing s with
  | nil => rfl
  | cons e es ih =>
    have hstep : (s.count e).discovered = s.discovered := by cases e <;> rfl
    exact (ih (s.count e)).trans hstep

end Tally

namespace Inspector

variable (a : Inspector) (t : FileTree)

/-! ### One file -/

/-- Whether the file at a path cannot be read. -/
def isRefused (path : Path) : Bool := !(t.read (Utf8.encode path)).isOk

theorem readSource_event (e : Option Extractor) (strategy : Strategy) (source : Text) :
    (readSource e strategy source).event = .bySyntax ∨
      (readSource e strategy source).event = .byLine := by
  unfold readSource
  split
  · next l e =>
    simp only [Extractor.extract_eq]
    cases l.extract source with
    | ok as => exact Or.inl rfl
    | error f => exact Or.inr rfl
  · exact Or.inr rfl

/-- **One file** is refused and has no findings, or is read in one of two ways and its findings are
counted. -/
theorem inspect_events (e : Option Extractor) (path : Path) :
    (isRefused t path = true ∧ (a.inspect t e path).events = [.readError] ∧
      (a.inspect t e path).summary.findings = []) ∨
    (isRefused t path = false ∧ ∃ way, (way = Tally.Event.bySyntax ∨ way = .byLine) ∧
      (a.inspect t e path).events =
        [.scanned, way,
          .findings (UInt64.ofNat (a.inspect t e path).summary.findings.length)]) := by
  unfold isRefused inspect
  cases t.read (Utf8.encode path) with
  | error err => exact Or.inl ⟨rfl, rfl, rfl⟩
  | ok bytes =>
    refine Or.inr ⟨rfl, _, readSource_event e (Strategy.ofPath path) (Utf8.decodeLossy bytes), ?_⟩
    simp only [inspectContent, summaryOf, List.length_map]

theorem accounts_inspect {s : Tally} {n r f : Nat} (h : s.Accounts n r f) (e : Option Extractor)
    (path : Path) : (s.countAll (a.inspect t e path).events).Accounts (n + 1)
      (r + if isRefused t path then 1 else 0)
      (f + (a.inspect t e path).summary.findings.length) := by
  rcases inspect_events a t e path with ⟨hrefused, hevents, hnone⟩ | ⟨hread, way, hway, hevents⟩
  · rw [hevents, hnone, if_pos hrefused]
    exact h.refuse
  · rw [hevents, if_neg (by simp [hread])]
    exact h.read hway _

/-- Without an extractor no file is read by syntax. -/
theorem inspect_none (path : Path) : (a.inspect t none path).extractor = none ∧
    Tally.Event.bySyntax ∉ (a.inspect t none path).events := by
  unfold inspect
  cases t.read (Utf8.encode path) with
  | error err => exact ⟨rfl, by simp [inspectContent]⟩
  | ok bytes =>
    have hread : ∀ strategy source, readSource none strategy source =
        ⟨none, LineScan.scan source, .byLine, none⟩ := by
      intro strategy source
      cases strategy <;> rfl
    simp [inspectContent, hread]

/-! ### Files in turn -/

/-- **Files in turn** are all accounted for. -/
theorem accounts_inspectAll (paths : List Path) :
    ∀ {s : Tally} {n r f : Nat} (e : Option Extractor),
    s.Accounts n r f → (a.inspectAll t e s paths).2.Accounts (n + paths.length)
      (r + paths.countP (isRefused t))
      (f + ((a.inspectAll t e s paths).1.flatMap (·.findings)).length) := by
  induction paths with
  | nil => intro s n r f e h; exact h
  | cons path rest ih =>
    intro s n r f e h
    have hrest := ih (a.inspect t e path).extractor (accounts_inspect a t h e path)
    rw [List.countP_cons, List.length_cons]
    simp only [inspectAll, List.flatMap_cons, List.length_append]
    convert hrest using 1 <;> omega

theorem discovered_inspectAll (e : Option Extractor) (s : Tally) (paths : List Path) :
    (a.inspectAll t e s paths).2.discovered = s.discovered := by
  induction paths generalizing e s with
  | nil => rfl
  | cons path rest ih =>
    simp only [inspectAll]
    rw [ih, Tally.discovered_countAll]

theorem inspectAll_none (s : Tally) (paths : List Path) :
    (a.inspectAll t none s paths).1 = paths.map (fun p => (a.inspect t none p).summary) ∧
      (a.inspectAll t none s paths).2.bySyntax = s.bySyntax := by
  induction paths generalizing s with
  | nil => exact ⟨rfl, rfl⟩
  | cons path rest ih =>
    obtain ⟨hnone, hevents⟩ := inspect_none a t path
    have hcount := Tally.bySyntax_countAll s hevents
    simp only [inspectAll, hnone, List.map_cons, (ih _).1, (ih _).2, hcount, and_self]

theorem inspectAll_summaries (e : Option Extractor) (s : Tally) (paths : List Path) :
    (a.inspectAll t e s paths).1 = paths.map fun p => (a.inspect t e p).summary := by
  cases e with
  | none => exact (inspectAll_none a t s paths).1
  | some e =>
    rw [inspectAll_eq]
    exact List.map_congr_left fun p _ => (inspect_eq a t e p).1.symm

end Inspector

namespace Scan

theorem accounts_of_run {s : Scan} {t : FileTree} {o : Outcome} (h : (s.run t).2 = .ok o) :
    ∃ paths, s.walk.files t = .ok paths ∧ o.tally.discovered = UInt64.ofNat paths.length ∧
      o.tally.Accounts paths.length (paths.countP (Inspector.isRefused t)) o.findings.length := by
  unfold run runWith at h
  split at h
  · cases h
  · next paths hfiles =>
    cases h
    have haccounts := Inspector.accounts_inspectAll s.inspector t paths (some .fresh)
      (Tally.accounts_zero (UInt64.ofNat paths.length))
    simp only [Nat.zero_add] at haccounts
    refine ⟨paths, hfiles, Inspector.discovered_inspectAll s.inspector t _ _ paths, ?_⟩
    rw [outcomeOf, Finding.sort, List.length_mergeSort]
    exact haccounts

/-- **The counters of a scan.** After a run that succeeds, the counters account for the files of the
walk and for the findings that are listed. So they do after files have been inspected in turn, from
counters at zero and with or without an extractor: each file has its summary, in order, and without
an extractor no file was read by syntax. All sums are those of words of 64 bits. -/
theorem counters_add_up :
    (∀ (s : Scan) (t : FileTree) (o : Outcome), (s.run t).2 = .ok o →
      ∃ paths, s.walk.files t = .ok paths ∧ o.tally.discovered = UInt64.ofNat paths.length ∧
        o.tally.Accounts paths.length (paths.countP (Inspector.isRefused t)) o.findings.length) ∧
    ∀ (a : Inspector) (t : FileTree) (e : Option Extractor) (paths : List Path),
      (a.inspectAll t e .zero paths).1 = paths.map (fun p => (a.inspect t e p).summary) ∧
      (a.inspectAll t e .zero paths).2.Accounts paths.length (paths.countP (Inspector.isRefused t))
        ((a.inspectAll t e .zero paths).1.flatMap (·.findings)).length ∧
      (e = none → (a.inspectAll t e .zero paths).2.bySyntax = 0) := by
  refine ⟨fun s t o => accounts_of_run, fun a t e paths => ⟨?_, ?_, ?_⟩⟩
  · exact Inspector.inspectAll_summaries a t e .zero paths
  · have haccounts := Inspector.accounts_inspectAll a t paths e (Tally.accounts_zero 0)
    simp only [Nat.zero_add] at haccounts
    exact haccounts
  · rintro rfl
    exact (Inspector.inspectAll_none a t .zero paths).2

/-- A run that finds one file, and the inspection of that file and one that is missing. -/
theorem counters_add_up_missing :
    let t : FileTree := { entries :=
      [([Utf8.encode "a.sh".toList], .file (Utf8.encode "# TODO x".toList))] }
    let s : Scan := ⟨{ Settings.ofRoot ['.'] with extensions := ["sh".toList], ignore := [] },
      ⟨['.'], ["sh".toList], [], false, false⟩, Tally.zero⟩
    let o : Outcome := ⟨[⟨.todo, "a.sh".toList, some 1, "x".toList, "# TODO x".toList, none⟩],
      ⟨1, 1, 0, 1, 0, 1⟩, []⟩
    let all := s.inspector.inspectAll t none .zero ["a.sh".toList, "b.sh".toList]
    (s.run t).2 = .ok o ∧
      (∃ paths, s.walk.files t = .ok paths ∧ o.tally.discovered = UInt64.ofNat paths.length ∧
        o.tally.Accounts paths.length (paths.countP (Inspector.isRefused t)) o.findings.length) ∧
      all.1 = ["a.sh".toList, "b.sh".toList].map (fun p => (s.inspector.inspect t none p).summary) ∧
      all.2.Accounts 2 1 (all.1.flatMap (·.findings)).length ∧ all.2.bySyntax = 0 := by
  intro t s o all
  have hread : Inspector.isRefused t "a.sh".toList = false := by decide +kernel
  have hmissing : Inspector.isRefused t "b.sh".toList = true := by decide +kernel
  have hfiles : s.walk.files t = .ok ["./a.sh".toList] :=
    Walk.collect_eq_ok (by decide +kernel) (by decide +kernel) (by decide +kernel)
  have hrun : (s.run t).2 = .ok o :=
    run_eq_ok hfiles rfl (by decide +kernel) (by decide +kernel) (by decide +kernel)
      (by decide +kernel)
  have hrefused : ["a.sh".toList, "b.sh".toList].countP (Inspector.isRefused t) = 1 := by
    simp only [List.countP_cons, List.countP_nil, hread, hmissing]
    rfl
  obtain ⟨hsummaries, haccounts, hsyntax⟩ :=
    counters_add_up.2 s.inspector t none ["a.sh".toList, "b.sh".toList]
  rw [hrefused] at haccounts
  exact ⟨hrun, counters_add_up.1 s t o hrun, hsummaries, haccounts, hsyntax rfl⟩

end Scan

end ActionItems
