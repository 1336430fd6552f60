import Mathlib.Data.List.Nodup
import Mathlib.Data.List.Perm.Subperm
import Mathlib.Tactic.SplitIfs
import ActionItems.Proofs.DryRun
import ActionItems.Proofs.LinkFreeTrees
import ActionItems.Proofs.WalkVisits

/-!
# Runs that are repeated

A run writes one file. In a tree without links the walk of a second run goes the same ways as the
first, up to the file that was written (`Visits.differ`): directories stay where they are, and every
other path leads to what it did. The report is not among the files that are scanned if its extension
is not (`Finds.getLast?_ne`), so both runs find the same files and read the same in them
(`files_differ`), and the second one writes the report that is already there.
-/

namespace ActionItems

open FileTree

/-- Two trees without links that differ in one file. -/
structure FileTree.DifferAt (l₀ : Location) (t t' : FileTree) : Prop
    extends AgreeExceptAt l₀ t t' where
  links : t.HasNoLinks
  links' : t'.HasNoLinks

variable {t t' : FileTree} {l₀ : Location}

theorem FileTree.DifferAt.symm (h : DifferAt l₀ t t') : DifferAt l₀ t' t :=
  ⟨h.toAgreeExceptAt.symm, h.links', h.links⟩

namespace Walk

variable {w : Walk} {p : Place} {names : List Name} {kind : EntryKind} {l : Location}

/-! ### Ways down in two trees -/

theorem find?_of_kindOf (hlinks : t.HasNoLinks) {name : Name}
    (h : w.kindOf t p l name = .ok .directory) :
    t.find? (l ++ [name]) = some .directory := by
  unfold kindOf at h
  dsimp only at h
  split at h
  · next hfind => exact hfind
  · next hfind => exact absurd hfind (hlinks.find?_ne _ _)
  · cases h

theorem kindOf_eq (hlinks : t.HasNoLinks) {name : Name}
    (hsame : t'.find? (l ++ [name]) = t.find? (l ++ [name])) :
    w.kindOf t' p l name = w.kindOf t p l name := by
  unfold kindOf
  rw [hsame]
  dsimp only
  split
  · rfl
  · next hfind => exact absurd hfind (hlinks.find?_ne _ _)
  · rfl

theorem startAt_eq (hrespect : w.respectIgnoreFiles = false) (l : Location) :
    w.startAt t' l = w.startAt t l := by
  unfold startAt rulesIn
  simp [hrespect]

theorem enter_eq (hrespect : w.respectIgnoreFiles = false) (p : Place) (name : Name)
    (l : Location) :
    p.enter w t' name l = p.enter w t name l := by
  unfold Place.enter rulesIn
  simp [hrespect]

theorem Visits.ne_nil (h : w.Visits t p names kind) : names ≠ [] := by
  cases h <;> simp

/-- A directory that a walk goes on to is the one of the name. -/
theorem eq_of_enter (hlinks : t.HasNoLinks) (hopen : t.open? p.path = .ok (l, .directory))
    {name : Name} (hname : name ∈ t.names l) (hkind : w.kindOf t p l name = .ok .directory)
    {l' : Location} {d : Entry}
    (henter : t.open? (joinName p.path name) = .ok (l', d)) :
    l' = l ++ [name] ∧ d = .directory := by
  obtain ⟨hl', hfind⟩ := eq_of_open?_joinName hlinks hopen (isName_of_mem_names hname) henter
  exact ⟨hl', Option.some.inj (hfind.symm.trans (find?_of_kindOf hlinks hkind))⟩

/-- The ways of a walk without ignore files are the same, unless they end at the file in which the
trees differ; and so is what is at their end. -/
theorem Visits.differ (hrespect : w.respectIgnoreFiles = false) (hdiffer : DifferAt l₀ t t')
    (h : w.Visits t p names kind) (hopen : t.open? p.path = .ok (l, .directory))
    (hlast : names.getLast? ≠ l₀.getLast?) : w.Visits t' p names kind ∧
      t'.open? (names.foldl joinName p.path) = t.open? (names.foldl joinName p.path) := by
  induction h generalizing l with
  | @entry p l₁ d name kind hopen₁ hname hkind hskip =>
    cases hopen.symm.trans hopen₁
    have hopen' := hdiffer.open?_directory hopen
    have hne : l₁ ++ [name] ≠ l₀ := by
      rintro rfl
      exact hlast (by simp)
    have hsame := hdiffer.same _ hne
    have hname' : name ∈ t'.names l₁ := by
      rw [mem_names_iff_find?, hsame]
      exact mem_names_iff_find?.mp hname
    refine ⟨.entry hopen' hname' ((kindOf_eq hdiffer.links hsame).trans hkind) hskip, ?_⟩
    exact open?_joinName_eq hdiffer.links hdiffer.links' hopen hopen'
      (isName_of_mem_names hname) hsame
  | @under p l₁ l' d d' name names kind hopen₁ hname hkind hskip henter hunder ih =>
    -- the file in which the trees differ is no directory, so the way does not go through it
    cases hopen.symm.trans hopen₁
    have hopen' := hdiffer.open?_directory hopen
    have hdir := find?_of_kindOf hdiffer.links hkind
    have hdir' := hdiffer.find?_directory hdir
    obtain ⟨rfl, rfl⟩ := eq_of_enter hdiffer.links hopen hname hkind henter
    have hlast' : names.getLast? ≠ l₀.getLast? := by
      rwa [List.getLast?_cons_of_ne_nil hunder.ne_nil] at hlast
    obtain ⟨hvisits, hend⟩ := ih henter hlast'
    have hname' : name ∈ t'.names l₁ := mem_names_iff_find?.mpr (by rw [hdir']; rfl)
    have hkind' := (kindOf_eq hdiffer.links (hdir'.trans hdir.symm)).trans hkind
    rw [← enter_eq hrespect] at hvisits
    exact ⟨.under hopen' hname' hkind' hskip (hdiffer.open?_directory henter) hvisits, hend⟩

/-! ### The length of a way -/

theorem Visits.mem_entries (hlinks : t.HasNoLinks) (h : w.Visits t p names kind)
    (hopen : t.open? p.path = .ok (l, .directory)) {k : Nat} (hk : k < names.length) :
    l ++ names.take (k + 1) ∈ t.entries.map Prod.fst := by
  induction h generalizing l k with
  | @entry p l₁ d name kind hopen₁ hname _ _ =>
    cases hopen.symm.trans hopen₁
    obtain ⟨e, he⟩ := mem_names_iff.mp hname
    rw [List.take_of_length_le (by simp)]
    exact List.mem_map_of_mem he
  | @under p l₁ l' d d' name names kind hopen₁ hname hkind _ henter _ ih =>
    cases hopen.symm.trans hopen₁
    obtain ⟨e, he⟩ := mem_names_iff.mp hname
    obtain ⟨rfl, rfl⟩ := eq_of_enter hlinks hopen hname hkind henter
    cases k with
    | zero => exact List.mem_map_of_mem he
    | succ k =>
      have hbelow := ih henter (Nat.lt_of_succ_lt_succ hk)
      rwa [List.append_assoc, List.singleton_append] at hbelow

/-- A way goes down through different entries of the tree, so there is time for each of its
steps. -/
theorem Visits.length_le (hlinks : t.HasNoLinks) (h : w.Visits t p names kind)
    (hopen : t.open? p.path = .ok (l, .directory)) : names.length ≤ maxSteps t := by
  -- the locations on the way have different lengths
  let way := (List.range names.length).map fun k => l ++ names.take (k + 1)
  have hnodup : way.Nodup := by
    refine List.Nodup.map_on ?_ List.nodup_range
    intro i hi j hj heq
    have hlen := congrArg List.length heq
    rw [List.mem_range] at hi hj
    simp only [List.length_append, List.length_take] at hlen
    omega
  have hsub : way ⊆ t.entries.map Prod.fst := by
    intro x hx
    obtain ⟨k, hk, rfl⟩ := List.mem_map.mp hx
    exact h.mem_entries hlinks hopen (List.mem_range.mp hk)
  have hle := (hnodup.subperm hsub).length_le
  simp only [way, List.length_map, List.length_range] at hle
  calc names.length ≤ t.entries.length + 1 := Nat.le_succ_of_le hle
    _ ≤ (t.entries.length + 1) * (t.entries.length + 2) :=
      Nat.le_mul_of_pos_right _ (Nat.succ_pos _)

/-! ### Files in two trees -/

variable {path : Path}

/-- The name at the end of a location has none of the extensions. -/
def IsUnwanted (extensions : List Text) (l : Location) : Prop :=
  ∃ s : Text, IsName (Utf8.encode s) ∧ l.getLast? = some (Utf8.encode s) ∧
    ∀ e, Path.extensionOfName s = some e → Text.lower e ∉ extensions

theorem Finds.getLast?_ne (h : w.Finds t path names) (hunwanted : IsUnwanted w.extensions l₀) :
    names.getLast? ≠ l₀.getLast? := by
  obtain ⟨s, hs, hl₀, hext⟩ := hunwanted
  rw [hl₀]
  intro hlast
  obtain ⟨init, rfl⟩ := List.getLast?_eq_some_iff.mp hlast
  have hpath : (FileTree.pieces (Utf8.encode path)).getLast? = some (Utf8.encode s) := by
    rw [h.encode_eq, List.foldl_append]
    exact getLast?_pieces_joinName _ hs
  obtain ⟨s', hs', hfile⟩ := Path.exists_fileName? hpath hs
  have hsame : Path.extension? path = Path.extensionOfName s := by
    rw [Path.extension?, hfile, Utf8.encode_injective hs', Option.bind_some]
  have hfound := h.extension
  unfold hasExtension at hfound
  split at hfound
  · next e he => exact hext e (hsame.symm.trans he) (List.contains_iff_mem.mp hfound)
  · cases hfound

theorem Finds.differ (hrespect : w.respectIgnoreFiles = false) (hdiffer : DifferAt l₀ t t')
    (hunwanted : IsUnwanted w.extensions l₀)
    (hopen : t.open? (Utf8.encode w.root) = .ok (l, .directory))
    (h : w.Finds t path names) :
    w.Finds t' path names ∧ t'.read (Utf8.encode path) = t.read (Utf8.encode path) := by
  have hlast := h.getLast?_ne hunwanted
  have hopen' := hdiffer.open?_directory hopen
  obtain ⟨-, hvisits⟩ := (reachesFile_iff_of_directory hopen).mp h.reaches
  obtain ⟨hvisits', hend⟩ := hvisits.differ hrespect hdiffer hopen hlast
  have hlen := hvisits'.length_le hdiffer.links' hopen'
  rw [← startAt_eq hrespect] at hvisits'
  refine ⟨⟨h.root, .under hopen' hlen hvisits', h.path, h.extension⟩, ?_⟩
  have hsame : t'.open? (Utf8.encode path) = t.open? (Utf8.encode path) := by
    rw [h.encode_eq]
    exact hend
  rw [FileTree.read, FileTree.read, hsame]

theorem nodup_files {paths : List Path} (h : w.files t = .ok paths) : paths.Nodup :=
  (files_relative h).imp fun hne heq => hne (by rw [heq])

/-- Two trees that differ in a file with none of the extensions have the same files for a walk, with
the same contents. -/
theorem files_differ (hrespect : w.respectIgnoreFiles = false) (hdiffer : DifferAt l₀ t t')
    (hunwanted : IsUnwanted w.extensions l₀)
    (hopen : t.open? (Utf8.encode w.root) = .ok (l, .directory))
    {paths paths' : List Path} (h : w.files t = .ok paths) (h' : w.files t' = .ok paths') :
    paths'.Perm paths ∧ ∀ q ∈ paths, t'.read (Utf8.encode q) = t.read (Utf8.encode q) := by
  have hthere : ∀ q ∈ paths, q ∈ paths' ∧ t'.read (Utf8.encode q) = t.read (Utf8.encode q) := by
    intro q hq
    obtain ⟨names, hfinds⟩ := finds_of_mem_files h hq
    obtain ⟨hfinds', hread⟩ := hfinds.differ hrespect hdiffer hunwanted hopen
    exact ⟨(mem_files_iff h').mpr ⟨names, hfinds'⟩, hread⟩
  have hback : ∀ q ∈ paths', q ∈ paths := by
    intro q hq
    obtain ⟨names, hfinds⟩ := finds_of_mem_files h' hq
    obtain ⟨hfinds', -⟩ := hfinds.differ hrespect hdiffer.symm hunwanted
      (hdiffer.open?_directory hopen)
    exact (mem_files_iff h).mpr ⟨names, hfinds'⟩
  refine ⟨?_, fun q hq => (hthere q hq).2⟩
  exact (List.perm_ext_iff_of_nodup (nodup_files h') (nodup_files h)).mpr fun q =>
    ⟨hback q, fun hq => (hthere q hq).1⟩

end Walk

/-! ### Scans of two trees -/

theorem FileTree.exists_open?_of_isDirectory {path : Bytes} (h : t.isDirectory path = true) :
    ∃ l, t.open? path = .ok (l, .directory) := by
  unfold isDirectory at h
  split at h
  · next l hopen => exact ⟨l, hopen⟩
  · cases h

theorem Walk.eq_of_ofSettings {s : Settings} {w : Walk} (h : ofSettings s = .ok w) :
    w.root = s.root ∧ w.extensions = s.wantedExtensions ∧
      w.respectIgnoreFiles = s.respectIgnoreFiles := by
  unfold ofSettings at h
  cases hrules : excludeSet s.ignore with
  | error f =>
    rw [hrules] at h
    cases h
  | ok rules =>
    rw [hrules] at h
    cases h
    exact ⟨rfl, rfl, rfl⟩

theorem Inspector.summaryAt_eq {a : Inspector} {path : Path}
    (h : t'.read (Utf8.encode path) = t.read (Utf8.encode path)) :
    a.summaryAt t' path = a.summaryAt t path := by
  unfold summaryAt inspect
  rw [h]

namespace Scan

variable {s : Settings} {o : Outcome}

/-- The findings in files do not depend on the order of the files. -/
theorem sort_findings_perm (a : Inspector) (t : FileTree) {paths paths' : List Path}
    (hperm : paths'.Perm paths)
    (hne : paths.Pairwise fun p q => Path.relative a.root p ≠ Path.relative a.root q) :
    Finding.sort (paths'.flatMap fun p => (a.summaryAt t p).findings) =
      Finding.sort (paths.flatMap fun p => (a.summaryAt t p).findings) := by
  obtain ⟨order, horder, hlt⟩ := exists_order hne
  have hfile : ∀ p, ∀ f ∈ (a.summaryAt t p).findings, f.file = Path.relative a.root p :=
    fun p f hf => Inspector.file_of_mem_summaryAt hf
  have hblock := Inspector.precedes_summaryAt a t
  rw [Finding.sort_flatMap hfile hblock (hperm.trans horder.symm) hlt,
    Finding.sort_flatMap hfile hblock horder.symm hlt]

theorem prepare_eq (h : s.IsAccepted t) (h' : s.IsAccepted t') : prepare t' s = prepare t s := by
  unfold prepare
  rw [Settings.check_of_isDirectory h.concurrency h.root,
    Settings.check_of_isDirectory h'.concurrency h'.root]

theorem findings_differ {ready : Scan} (hready : prepare t s = .ok ready)
    (hrespect : s.respectIgnoreFiles = false)
    (hdiffer : DifferAt l₀ t t') (hunwanted : Walk.IsUnwanted s.wantedExtensions l₀) {o' : Outcome}
    (h : (ready.run t).2 = .ok o) (h' : (ready.run t').2 = .ok o') : o'.findings = o.findings := by
  obtain ⟨paths, hfiles, hfindings⟩ := exists_of_run h
  obtain ⟨paths', hfiles', hfindings'⟩ := exists_of_run h'
  obtain ⟨hroot, hextensions, hrespect'⟩ := Walk.eq_of_ofSettings (eq_of_prepare hready).2
  obtain ⟨l, hopen⟩ := exists_open?_of_isDirectory (Settings.isAccepted_of_prepare hready).root
  rw [← hroot] at hopen
  rw [← hextensions] at hunwanted
  obtain ⟨hperm, hread⟩ :=
    Walk.files_differ (hrespect'.trans hrespect) hdiffer hunwanted hopen hfiles hfiles'
  have hne := Walk.files_relative hfiles
  rw [root_of_prepare hready] at hne
  have hsummaries : (paths'.flatMap fun p => (ready.inspector.summaryAt t' p).findings) =
      paths'.flatMap fun p => (ready.inspector.summaryAt t p).findings := by
    refine List.flatMap_congr fun p hp => ?_
    rw [Inspector.summaryAt_eq (hread p (hperm.mem_iff.mp hp))]
  rw [hfindings', hfindings, hsummaries]
  exact sort_findings_perm ready.inspector t hperm hne

/-- A scan finds the same in two trees that differ in a file which it does not look at. -/
theorem exists_scan_differ (hrespect : s.respectIgnoreFiles = false) (hdiffer : DifferAt l₀ t t')
    (hunwanted : Walk.IsUnwanted s.wantedExtensions l₀) (h : scan t s = .ok o) :
    ∃ o', scan t' s = .ok o' ∧ o'.findings = o.findings := by
  unfold scan at h
  cases hready : prepare t s with
  | error f =>
    rw [hready] at h
    cases h
  | ok ready =>
    rw [hready] at h
    have haccepted := Settings.isAccepted_of_prepare hready
    obtain ⟨l, hopen⟩ := exists_open?_of_isDirectory haccepted.root
    have hroot : t'.isDirectory (Utf8.encode s.root) = true := by
      rw [FileTree.isDirectory, hdiffer.open?_directory hopen]
    have haccepted' : s.IsAccepted t' := ⟨haccepted.concurrency, hroot, haccepted.ignore⟩
    obtain ⟨o', ho'⟩ := scan_of_isAccepted haccepted'
    have hrun : (ready.run t').2 = .ok o' := by
      rw [scan, prepare_eq haccepted haccepted', hready] at ho'
      exact ho'
    exact ⟨o', ho', findings_differ hready hrespect hdiffer hunwanted h hrun⟩

end Scan

/-! ### Runs -/

theorem Arguments.settings_respectIgnoreFiles (a : Arguments) :
    a.settings.respectIgnoreFiles = a.respectIgnoreFiles := by
  unfold settings
  dsimp only
  split <;> split_ifs <;> rfl

namespace Program

variable {env : Option Text} {words : List Text} {a : Arguments}

theorem differAt_put (hlinks : t.HasNoLinks) {path : Bytes} {l : Location}
    (hlocate : t.locate .creation path = .ok l) (hend : t.IsEnd l) (content : Bytes) :
    DifferAt l t (t.put l (.file content)) :=
  ⟨agreeExceptAt_put (isPlace_of_locate hlocate hend.ne_nil) hend content, hlinks,
    hlinks.put l content⟩

/-- The file that a path leads to has the extension of the path. -/
theorem isUnwanted_of_locate (hlinks : t.HasNoLinks) {out : Path} {l : Location}
    (hlocate : t.locate .creation (Utf8.encode out) = .ok l) (hend : t.IsEnd l)
    {extensions : List Text}
    (hext : ∀ e, Path.extension? out = some e → Text.lower e ∉ extensions) :
    Walk.IsUnwanted extensions l := by
  obtain ⟨n, hout, hl⟩ := (locate_eq_ok_iff.mp hlocate).2.getLast? hlinks (isWay_nil t) hend
  rw [getLast?_fromTop] at hout
  have hn := (isPlace_of_locate hlocate hend.ne_nil).2 n (List.mem_of_getLast? hl)
  obtain ⟨s, rfl, hfile⟩ := Path.exists_fileName? hout hn
  refine ⟨s, hn, hl, fun e he => hext e ?_⟩
  rw [Path.extension?, hfile, Option.bind_some, he]

/-- What a run that succeeds and prints nothing has done. -/
theorem exists_of_execute (hout : a.writesStandardOutput = false) (hexit : (execute t a).exit = 0) :
    ∃ o l, scan t a.settings = .ok o ∧ t.locate .creation (Utf8.encode a.out) = .ok l ∧ t.IsEnd l ∧
      execute t a = ⟨0, [], [],
        t.put l (.file (Utf8.encode (Report.render a.format o.findings)))⟩ := by
  unfold execute at hexit ⊢
  cases hscan : scan t a.settings with
  | error f =>
    rw [hscan] at hexit
    cases hexit
  | ok o =>
    rw [hscan] at hexit
    dsimp only at hexit ⊢
    rcases deliver_cases t a (Report.render a.format o.findings) with
      ⟨hprints, -⟩ | ⟨-, l, hlocate, hend, heq⟩ | ⟨-, errors, heq⟩
    · rw [hout] at hprints
      cases hprints
    · exact ⟨o, l, rfl, hlocate, hend, heq⟩
    · rw [heq] at hexit
      cases hexit

/-- **A run that is repeated** changes nothing. Where no entry is a link, a run that writes its
report to a file whose extension it does not scan, and that honours no ignore files, writes the same
report if it is repeated, to the same file, with the same success; so the tree stays as the first
run left it. -/
theorem run_again (hlinks : t.HasNoLinks) (h : Arguments.parse env words = .ok a)
    (hrespect : a.respectIgnoreFiles = false)
    (hext : ∀ e, Path.extension? a.out = some e → Text.lower e ∉ a.settings.wantedExtensions)
    (hdry : a.dryRun = false) (hdash : a.out ≠ Arguments.standardOutput)
    (hexit : (run t env words).exit = 0) :
    let first := run t env words
    let second := run first.tree env words
    second = first ∧ ∃ l report, t.IsWritten first.tree (Utf8.encode a.out) (Utf8.encode report) l ∧
      first.tree.IsWritten second.tree (Utf8.encode a.out) (Utf8.encode report) l := by
  intro first second
  have hout : a.writesStandardOutput = false := by
    simp [Arguments.writesStandardOutput, hdry, hdash]
  rw [run_of_parse t h] at hexit
  obtain ⟨o, l, hscan, hlocate, hend, heq⟩ := exists_of_execute hout hexit
  set report := Report.render a.format o.findings
  have hfirst : first = ⟨0, [], [], t.put l (.file (Utf8.encode report))⟩ :=
    (run_of_parse t h).trans heq
  have hdiffer := differAt_put hlinks hlocate hend (Utf8.encode report)
  have hunwanted := isUnwanted_of_locate hlinks hlocate hend hext
  have hrespect' := a.settings_respectIgnoreFiles.trans hrespect
  obtain ⟨o', hscan', hfindings⟩ := Scan.exists_scan_differ hrespect' hdiffer hunwanted hscan
  have hlocate' :
      (t.put l (.file (Utf8.encode report))).locate .creation (Utf8.encode a.out) = .ok l :=
    locate_put hlocate hend _ (by simp)
  have hwritten := isWritten_put hlocate' hdiffer.after (Utf8.encode report)
  rw [put_put] at hwritten
  have hsecond : second = ⟨0, [], [], t.put l (.file (Utf8.encode report))⟩ := by
    show run first.tree env words = _
    rw [run_of_parse first.tree h, hfirst, execute, hscan']
    dsimp only
    rw [hfindings, deliver_of_locate hout hlocate' hdiffer.after, put_put]
  rw [hsecond, hfirst]
  exact ⟨rfl, l, report, isWritten_put hlocate hend _, hwritten⟩

/-- The report goes to a new file in a directory that is scanned, beside a file with a tag. -/
theorem run_again_inside :
    let t : FileTree := { entries :=
      [([Utf8.encode "a.sh".toList], .file (Utf8.encode "# TODO x".toList)),
        ([[0x64]], .directory)] }
    let words := ["-esh".toList, "-i=".toList, "-od/r.md".toList]
    let first := run t none words
    t.HasNoLinks ∧ first.exit = 0 ∧ run first.tree none words = first ∧
      ∃ l report, t.IsWritten first.tree (Utf8.encode "d/r.md".toList) (Utf8.encode report) l := by
  intro t words first
  let a : Arguments := ⟨['.'], "d/r.md".toList, ["sh".toList], [[]], .markdown, none, false, false,
    false, false⟩
  let s : Scan := ⟨{ Settings.ofRoot ['.'] with extensions := ["sh".toList], ignore := [] },
    ⟨['.'], ["sh".toList], [], false, false⟩, Tally.zero⟩
  let o : Outcome := ⟨[⟨.todo, "a.sh".toList, some 1, "x".toList, "# TODO x".toList, none⟩],
    ⟨1, 1, 0, 1, 0, 1⟩, []⟩
  have hparse : Arguments.parse none words = .ok a := by decide +kernel
  have hprepare : Scan.prepare t a.settings = .ok s := rfl
  have hfiles : s.walk.files t = .ok ["./a.sh".toList] :=
    Walk.collect_eq_ok (by decide +kernel) (by decide +kernel) (by decide +kernel)
  have hrun : (s.run t).2 = .ok o :=
    Scan.run_eq_ok hfiles rfl (by decide +kernel) (by decide +kernel) (by decide +kernel)
      (by decide +kernel)
  have hscan : scan t a.settings = .ok o := by rw [scan, hprepare]; exact hrun
  have hlinks : t.HasNoLinks := by simp [HasNoLinks, t]
  have hnew : Arrives t .creation maxLinks [] [[0x64], Utf8.encode "r.md".toList]
      [[0x64], Utf8.encode "r.md".toList] :=
    .directory ⟨rfl, rfl, by decide⟩ rfl (.new ⟨rfl, rfl, by decide⟩ rfl rfl)
  have hlocate : t.locate .creation (Utf8.encode a.out) = .ok [[0x64], Utf8.encode "r.md".toList] :=
    locate_eq_ok_iff.mpr ⟨⟨by decide, by decide, by decide⟩, hnew⟩
  have hexit : first.exit = 0 := by
    have hdeliver := deliver_of_locate (a := a) rfl hlocate (Or.inl rfl)
      (Report.render a.format o.findings)
    show (run t none words).exit = 0
    rw [run_of_parse t hparse, execute, hscan]
    exact congrArg ProgramResult.exit hdeliver
  have hwanted : a.settings.wantedExtensions = ["sh".toList] := by decide
  have hmd : Path.extension? a.out = some "md".toList := by decide
  have hext : ∀ e, Path.extension? a.out = some e → Text.lower e ∉ a.settings.wantedExtensions := by
    intro e he
    cases hmd.symm.trans he
    rw [hwanted]
    decide
  obtain ⟨hagain, l, report, hwritten, -⟩ := run_again hlinks hparse rfl hext rfl (by decide) hexit
  exact ⟨hlinks, hexit, hagain, l, report, hwritten⟩

end Program

end ActionItems
