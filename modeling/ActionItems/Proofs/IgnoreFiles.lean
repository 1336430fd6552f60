import ActionItems.Proofs.WalkFilters

/-!
# Ignore files and hidden files

A walk that honours ignore files finds nothing new among the files that are not hidden: on a way
without hidden names the walk that looks at no ignore file leaves out no more (`Visits.plain`). That
walk never goes through a hidden name (`Visits.not_isHidden`).

A rule that keeps entries keeps hidden ones too. So a walk that honours ignore files may find files
that are found in no other way, but only if one of the ignore files has such a rule
(`Visits.hasKeepRule`).
-/

namespace ActionItems

open FileTree

/-! ### Hidden paths -/

def Path.Component.isHidden : Component → Bool
  | .name s => s.head? == some '.'
  | _ => false

/-- Whether one of the steps of a path below a root is hidden. -/
def Path.isHiddenBelow (root p : Path) : Bool :=
  ((components p).drop (components root).length).any Component.isHidden

/-- All rules in the files of a directory. -/
def DirectoryRules.all (d : DirectoryRules) : List IgnoreRule := d.general ++ d.shared ++ d.personal

/-- One of the ignore files of a tree has a rule that keeps entries. -/
def FileTree.HasKeepRule (t : FileTree) : Prop :=
  ∃ dir isAbove l, ∃ r ∈ (DirectoryRules.load t dir isAbove l).all, r.keeps = true

namespace Walk

variable {w : Walk} {t : FileTree}

theorem isHidden_encode (s : Text) : isHidden (Utf8.encode s) = (s.head? == some '.') := by
  rw [Bool.eq_iff_iff]
  unfold isHidden
  simp only [beq_iff_eq]
  constructor
  · intro h
    obtain ⟨x, hx⟩ := List.head?_eq_some_iff.mp h
    have hdot : Utf8.encode ['.'] ++ x = Utf8.encode s := hx.symm
    obtain ⟨q, rfl, -⟩ := Utf8.exists_of_encode_append hdot
    rfl
  · intro h
    obtain ⟨q, rfl⟩ := List.head?_eq_some_iff.mp h
    rfl

/-- A path that is found is hidden just if one of the names on the way to it is. -/
theorem Finds.isHiddenBelow_eq {p : Path} {names : List Name} (h : w.Finds t p names) :
    Path.isHiddenBelow w.root p = names.any isHidden := by
  obtain ⟨texts, rfl, hcomponents⟩ :=
    Path.exists_components h.reaches.root_ne_nil h.reaches.isName h.encode_eq
  have hhidden : ∀ s : Text, Path.Component.isHidden (.name s) = isHidden (Utf8.encode s) :=
    fun s => (isHidden_encode s).symm
  rw [Path.isHiddenBelow, hcomponents, List.drop_left, List.any_map, List.any_map]
  exact congrArg texts.any (funext hhidden)

/-! ### Walks that look at no ignore file -/

/-- The walk that looks at no ignore file. -/
def plain (w : Walk) : Walk := { w with respectIgnoreFiles := false }

/-- The place without rules. -/
def Place.plain (p : Place) : Place := { p with rules := [] }

theorem skips_plain (p : Place) (name : Name) (isDirectory : Bool) :
    w.plain.skips p.plain name isDirectory =
    (w.excluded (dropDot (joinName p.path name)) isDirectory || isHidden name) := rfl

theorem enter_plain (p : Place) (name : Name) (l : Location) :
    p.plain.enter w.plain t name l = (p.enter w t name l).plain := rfl

theorem startAt_plain (l : Location) : w.plain.startAt t l = (w.startAt t l).plain := rfl

theorem skips_plain_eq_false {p : Place} {name : Name} {isDirectory : Bool}
    (h : w.skips p name isDirectory = false)
    (hname : isHidden name = false) : w.plain.skips p.plain name isDirectory = false := by
  have hexcluded : w.excluded (dropDot (joinName p.path name)) isDirectory = false :=
    (Bool.or_eq_false_iff.mp h).1
  rw [skips_plain, hexcluded, hname]
  rfl

theorem isHidden_of_skips_plain {p : Place} {name : Name} {isDirectory : Bool}
    (h : w.plain.skips p.plain name isDirectory = false) : isHidden name = false := by
  rw [skips_plain, Bool.or_eq_false_iff] at h
  exact h.2

/-- Without hidden names the way to an entry is also open without ignore files. -/
theorem Visits.plain {p : Place} {names : List Name} {kind : EntryKind}
    (h : w.Visits t p names kind)
    (hnames : ∀ n ∈ names, isHidden n = false) : w.plain.Visits t p.plain names kind := by
  induction h with
  | entry hopen hname hkind hskip =>
    exact .entry hopen hname hkind (skips_plain_eq_false hskip (hnames _ List.mem_cons_self))
  | under hopen hname hkind hskip henter _ ih =>
    have hskip' := skips_plain_eq_false hskip (hnames _ List.mem_cons_self)
    have hbelow := ih fun n hn => hnames n (List.mem_cons_of_mem _ hn)
    rw [← enter_plain] at hbelow
    exact .under hopen hname hkind hskip' henter hbelow

theorem Visits.not_isHidden {p : Place} {names : List Name} {kind : EntryKind}
    (h : w.plain.Visits t p.plain names kind) : ∀ n ∈ names, isHidden n = false := by
  -- the places on the way are all without rules
  generalize hp : p.plain = p' at h
  induction h generalizing p with
  | entry _ _ _ hskip =>
    subst hp
    intro n hn
    rw [List.mem_singleton.mp hn]
    exact isHidden_of_skips_plain hskip
  | under _ _ _ hskip _ _ ih =>
    subst hp
    intro n hn
    rcases List.mem_cons.mp hn with rfl | hn
    · exact isHidden_of_skips_plain hskip
    · exact ih (enter_plain p _ _).symm n hn

theorem Finds.plain {p : Path} {names : List Name} (h : w.Finds t p names)
    (hnames : ∀ n ∈ names, isHidden n = false) :
    w.plain.Finds t p names := by
  obtain ⟨hroot, hreaches, hpath, hext⟩ := h
  refine ⟨hroot, ?_, hpath, hext⟩
  cases hreaches with
  | root hopen hd => exact .root hopen hd
  | under hopen hlen hvisits =>
    exact .under hopen hlen (startAt_plain (w := w) _ ▸ hvisits.plain hnames)

theorem Finds.not_isHidden {p : Path} {names : List Name} (h : w.plain.Finds t p names) :
    ∀ n ∈ names, isHidden n = false := by
  cases h.reaches with
  | root _ _ => simp
  | under _ _ hvisits => exact (startAt_plain (w := w) _ ▸ hvisits).not_isHidden

/-! ### Rules that keep -/

/-- Rules that were read from the ignore files of a directory. -/
def AreLoaded (t : FileTree) (rules : List DirectoryRules) : Prop :=
  ∀ d ∈ rules, ∃ dir isAbove l, d = DirectoryRules.load t dir isAbove l

theorem areLoaded_rulesIn {rules : List DirectoryRules} (h : AreLoaded t rules) (path : Bytes)
    (l : Location) :
    AreLoaded t (w.rulesIn t path l rules) := by
  unfold rulesIn
  split_ifs
  · intro d hd
    rcases List.mem_cons.mp hd with rfl | hd
    · exact ⟨path, false, l, rfl⟩
    · exact h d hd
  · intro d hd
    cases hd

theorem areLoaded_above (t : FileTree) (l : Location) : AreLoaded t (DirectoryRules.above t l) := by
  intro d hd
  obtain ⟨n, -, rfl⟩ := List.mem_map.mp hd
  exact ⟨_, _, _, rfl⟩

theorem areLoaded_startAt (l : Location) : AreLoaded t (w.startAt t l).rules := by
  refine areLoaded_rulesIn ?_ _ _
  split_ifs
  · exact areLoaded_above t l
  · intro d hd
    cases hd

theorem hasKeepRule_of_verdictOf {rank : DirectoryRules → List IgnoreRule}
    (hrank : ∀ d, rank d ⊆ d.all)
    {rules : List DirectoryRules} (hrules : AreLoaded t rules) {path full : Bytes}
    {isDirectory : Bool}
    (h : DirectoryRules.verdictOf rank rules path full isDirectory = some .keep) :
    t.HasKeepRule := by
  obtain ⟨d, hd, hverdict⟩ := List.exists_of_findSome?_eq_some h
  obtain ⟨r, hfind, hkeep⟩ := Option.map_eq_some_iff.mp hverdict
  obtain ⟨dir, isAbove, l, rfl⟩ := hrules d hd
  refine ⟨dir, isAbove, l, r, hrank _ (List.mem_reverse.mp (List.mem_of_find?_eq_some hfind)), ?_⟩
  by_contra hnot
  rw [if_neg hnot] at hkeep
  cases hkeep

theorem hasKeepRule_of_verdict {rules : List DirectoryRules} (hrules : AreLoaded t rules)
    {path full : Bytes}
    {isDirectory : Bool} (h : DirectoryRules.verdict rules path full isDirectory = some .keep) :
    t.HasKeepRule := by
  unfold DirectoryRules.verdict at h
  rw [Option.or_eq_some_iff, Option.or_eq_some_iff] at h
  rcases h with h | ⟨-, h | ⟨-, h⟩⟩
  · exact hasKeepRule_of_verdictOf (fun d => by simp [DirectoryRules.all]) hrules h
  · exact hasKeepRule_of_verdictOf (fun d => by simp [DirectoryRules.all]) hrules h
  · exact hasKeepRule_of_verdictOf (fun d => by simp [DirectoryRules.all]) hrules h

theorem hasKeepRule_of_skips {p : Place} (hrules : AreLoaded t p.rules) {name : Name}
    {isDirectory : Bool}
    (hskip : w.skips p name isDirectory = false) (hhidden : isHidden name = true) :
    t.HasKeepRule := by
  have hverdict := (Bool.or_eq_false_iff.mp hskip).2
  split at hverdict
  · cases hverdict
  · next h => exact hasKeepRule_of_verdict hrules h
  · rw [hhidden] at hverdict
    cases hverdict

/-- A hidden name on the way was kept by a rule. -/
theorem Visits.hasKeepRule {p : Place} {names : List Name} {kind : EntryKind}
    (h : w.Visits t p names kind)
    (hrules : AreLoaded t p.rules) {n : Name} (hn : n ∈ names) (hhidden : isHidden n = true) :
    t.HasKeepRule := by
  induction h with
  | entry _ _ _ hskip =>
    rw [List.mem_singleton.mp hn] at hhidden
    exact hasKeepRule_of_skips hrules hskip hhidden
  | under _ _ _ hskip _ _ ih =>
    rcases List.mem_cons.mp hn with rfl | hn
    · exact hasKeepRule_of_skips hrules hskip hhidden
    · exact ih (areLoaded_rulesIn hrules _ _) hn

theorem Finds.hasKeepRule {p : Path} {names : List Name} (h : w.Finds t p names) {n : Name}
    (hn : n ∈ names)
    (hhidden : isHidden n = true) : t.HasKeepRule := by
  cases h.reaches with
  | root _ _ => cases hn
  | under _ _ hvisits => exact hvisits.hasKeepRule (areLoaded_startAt _) hn hhidden

/-! ### Files -/

variable {found all : List Path} {p : Path}

theorem isHiddenBelow_of_mem_plain (hall : w.plain.files t = .ok all) (hp : p ∈ all) :
    Path.isHiddenBelow w.root p = false := by
  obtain ⟨names, hfinds⟩ := finds_of_mem_files hall hp
  have heq : Path.isHiddenBelow w.root p = names.any isHidden := hfinds.isHiddenBelow_eq
  rw [heq]
  simpa using hfinds.not_isHidden

theorem mem_plain_iff (hfound : w.files t = .ok found) (hall : w.plain.files t = .ok all)
    (hp : p ∈ found) : p ∈ all ↔ Path.isHiddenBelow w.root p = false := by
  refine ⟨isHiddenBelow_of_mem_plain hall, fun hhidden => ?_⟩
  obtain ⟨names, hfinds⟩ := finds_of_mem_files hfound hp
  rw [hfinds.isHiddenBelow_eq] at hhidden
  exact (mem_files_iff hall).mpr ⟨names, hfinds.plain (by simpa using hhidden)⟩

theorem mem_plain_of_not_hasKeepRule (hfound : w.files t = .ok found)
    (hall : w.plain.files t = .ok all) (hkeep : ¬t.HasKeepRule) (hp : p ∈ found) : p ∈ all := by
  obtain ⟨names, hfinds⟩ := finds_of_mem_files hfound hp
  rw [mem_plain_iff hfound hall hp, hfinds.isHiddenBelow_eq, List.any_eq_false]
  exact fun n hn hhidden => hkeep (hfinds.hasKeepRule hn hhidden)

theorem ofSettings_setIgnoreFiles (s : Settings) (respect : Bool) :
    ofSettings (s.setIgnoreFiles respect) =
    (ofSettings s).map fun w => { w with respectIgnoreFiles := respect } := by
  have hignore : (s.setIgnoreFiles respect).ignore = s.ignore := rfl
  unfold ofSettings
  rw [hignore]
  cases excludeSet s.ignore <;> rfl

/-- **Ignore files take away what is not hidden, and may bring back what is.** A walk without ignore
files finds no hidden file. What a walk finds that honours them is found without them too unless it
is hidden; and it finds hidden files only if one of the ignore files has a rule that keeps
entries. -/
theorem files_honouring {s : Settings} (hglobs : ∀ g ∈ s.ignore, compiles g = true) (t : FileTree) :
    ∃ w w', ofSettings (s.setIgnoreFiles true) = .ok w ∧
      ofSettings (s.setIgnoreFiles false) = .ok w' ∧
      ∀ found, w.files t = .ok found → ∃ all, w'.files t = .ok all ∧
        (∀ p ∈ all, Path.isHiddenBelow s.root p = false) ∧
        (∀ p ∈ found, p ∈ all ↔ Path.isHiddenBelow s.root p = false) ∧
        (¬t.HasKeepRule → found ⊆ all) := by
  obtain ⟨rules, -, hwalk⟩ := exists_ofSettings hglobs
  set w : Walk := ⟨s.root, s.wantedExtensions, rules, s.followLinks, true⟩
  have hhonouring : ofSettings (s.setIgnoreFiles true) = .ok w := by
    rw [ofSettings_setIgnoreFiles, hwalk]; rfl
  have hplain : ofSettings (s.setIgnoreFiles false) = .ok w.plain := by
    rw [ofSettings_setIgnoreFiles, hwalk]; rfl
  refine ⟨w, w.plain, hhonouring, hplain, fun found hfound => ?_⟩
  have hends := exists_files_iff.mp ⟨found, hfound⟩
  obtain ⟨all, hall⟩ : ∃ all, w.plain.files t = .ok all := exists_files_iff.mpr hends
  exact ⟨all, hall, fun p hp => isHiddenBelow_of_mem_plain hall hp,
    fun p hp => mem_plain_iff hfound hall hp,
    fun hkeep p hp => mem_plain_of_not_hasKeepRule hfound hall hkeep hp⟩

/-- A directory with an ignore file that leaves out one file and keeps a hidden one. -/
theorem files_honouring_nested :
    let s : Settings := { Settings.ofRoot ['.'] with
      extensions := ["ts".toList], ignore := ["/e".toList] }
    let t : FileTree := { entries := [([[0x64]], .directory),
      ([[0x64], Utf8.encode ".ignore".toList], .file (Utf8.encode "!/.b.ts\n/c.ts\n".toList)),
      ([[0x64], Utf8.encode ".b.ts".toList], .file []),
      ([[0x64], Utf8.encode "c.ts".toList], .file []),
      ([[0x64], Utf8.encode "d.ts".toList], .file [])] }
    (∀ g ∈ s.ignore, compiles g = true) ∧
      ∃ w w', ofSettings (s.setIgnoreFiles true) = .ok w ∧
        ofSettings (s.setIgnoreFiles false) = .ok w' ∧
        w.files t = .ok ["./d/.b.ts".toList, "./d/d.ts".toList] ∧
        ∃ all, w'.files t = .ok all ∧ "./d/.b.ts".toList ∉ all ∧ "./d/d.ts".toList ∈ all := by
  intro s t
  have hglobs : ∀ g ∈ s.ignore, compiles g = true := List.all_eq_true.mp (by decide +kernel)
  obtain ⟨w, w', hw, hw', h⟩ := files_honouring hglobs t
  have hfound : (ofSettings (s.setIgnoreFiles true)).map (·.found t) =
      .ok (none, ["./d/.b.ts".toList, "./d/d.ts".toList]) := by decide +kernel
  rw [hw] at hfound
  have hfiles : w.files t = .ok ["./d/.b.ts".toList, "./d/d.ts".toList] :=
    files_eq_ok (Except.ok.inj hfound) (.refl _) (by decide +kernel)
  obtain ⟨all, hall, -, hiff, -⟩ := h _ hfiles
  have hhidden : Path.isHiddenBelow s.root "./d/.b.ts".toList = true := by decide +kernel
  have hshown : Path.isHiddenBelow s.root "./d/d.ts".toList = false := by decide +kernel
  refine ⟨hglobs, w, w', hw, hw', hfiles, all, hall, fun hmem => ?_, ?_⟩
  · rw [(hiff _ (by simp)).mp hmem] at hhidden
    cases hhidden
  · exact (hiff _ (by simp)).mpr hshown

/-- A hidden file that an ignore file keeps is found, though without the ignore file it is not. -/
theorem files_kept_hidden :
    let s : Settings := { Settings.ofRoot ['.'] with extensions := ["ts".toList], ignore := [] }
    let t : FileTree := { entries :=
      [([Utf8.encode ".gitignore".toList], .file (Utf8.encode "!/.a.ts\n".toList)),
      ([Utf8.encode ".a.ts".toList], .file (Utf8.encode "// TODO x\n".toList)),
      ([Utf8.encode "b.ts".toList], .file [])] }
    (ofSettings (s.setIgnoreFiles true)).map (·.files t) =
      .ok (.ok ["./.a.ts".toList, "./b.ts".toList]) ∧
      (ofSettings (s.setIgnoreFiles false)).map (·.files t) = .ok (.ok ["./b.ts".toList]) := by
  intro s t
  let w : Walk := ⟨['.'], ["ts".toList], [], false, true⟩
  have hhonouring : w.files t = .ok ["./.a.ts".toList, "./b.ts".toList] :=
    collect_eq_ok (by decide +kernel) (by decide +kernel) (by decide +kernel)
  have hplain : w.plain.files t = .ok ["./b.ts".toList] :=
    collect_eq_ok (by decide +kernel) (by decide +kernel) (by decide +kernel)
  exact ⟨congrArg Except.ok hhonouring, congrArg Except.ok hplain⟩

end Walk

end ActionItems
