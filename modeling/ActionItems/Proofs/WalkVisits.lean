import ActionItems.Proofs.EntryNames
import ActionItems.Proofs.ScanFaults

/-!
# What a walk visits

A walk visits an entry along the names on the way to it (`Visits`): each name is one of its
directory, none of them is left out, and all but the last are those of directories.
`mem_descend_iff` says that the results of a walk are the entries that it visits in as many steps as
there are. What a walk finds (`Finds`) are the visited files whose path is text with one of the
extensions.

The list of files that a walk ends with holds the paths that it finds, up to the spelling of a path
(`finds_of_mem_files`, `exists_mem_files`), and without any difference in a tree whose entries have
names (`mem_files_iff`).
-/

namespace ActionItems.Walk

open FileTree

variable {w : Walk} {t : FileTree}

/-! ### Ways down -/

/-- An entry that is visited from a place, along the names on the way to it. -/
inductive Visits (w : Walk) (t : FileTree) : Place → List Name → EntryKind → Prop
  | entry {p : Place} {l : Location} {d : Entry} {name : Name} {kind : EntryKind}
      (hopen : t.open? p.path = .ok (l, d)) (hname : name ∈ t.names l)
      (hkind : w.kindOf t p l name = .ok kind)
      (hskip : w.skips p name (kind == .directory) = false) : Visits w t p [name] kind
  | under {p : Place} {l l' : Location} {d d' : Entry} {name : Name} {names : List Name}
      {kind : EntryKind}
      (hopen : t.open? p.path = .ok (l, d)) (hname : name ∈ t.names l)
      (hkind : w.kindOf t p l name = .ok .directory) (hskip : w.skips p name true = false)
      (henter : t.open? (joinName p.path name) = .ok (l', d'))
      (hunder : Visits w t (p.enter w t name l') names kind) : Visits w t p (name :: names) kind

theorem exists_visits_of_mem_descend {fuel : Nat} {p : Place} {e : WalkEntry}
    (h : .ok e ∈ w.descend t fuel p) :
    ∃ names, names.length ≤ fuel ∧ w.Visits t p names e.kind ∧
      e.path = names.foldl joinName p.path := by
  -- each step down uses one of the fuel and puts one name in front
  induction fuel generalizing p with
  | zero => cases h
  | succ fuel ih =>
    rw [descend] at h
    split at h
    · cases List.mem_singleton.mp h
    · next l d hopen =>
      obtain ⟨name, hname, h⟩ := List.mem_flatMap.mp h
      split at h
      · cases List.mem_singleton.mp h
      · next kind hkind =>
        split_ifs at h with hskip hdir
        · cases h
        · subst hdir
          rcases List.mem_cons.mp h with he | hrest
          · cases he
            exact ⟨[name], by simp, .entry hopen hname hkind (Bool.eq_false_iff.mpr hskip), rfl⟩
          · split at hrest
            · cases List.mem_singleton.mp hrest
            · next l' d' henter =>
              obtain ⟨names, hlen, hvisits, hpath⟩ := ih hrest
              have hskip' : w.skips p name true = false := Bool.eq_false_iff.mpr hskip
              exact ⟨name :: names, by simpa using hlen,
                .under hopen hname hkind hskip' henter hvisits, hpath⟩
        · cases List.mem_singleton.mp h
          exact ⟨[name], by simp, .entry hopen hname hkind (Bool.eq_false_iff.mpr hskip), rfl⟩

theorem Visits.mem_descend {p : Place} {names : List Name} {kind : EntryKind}
    (h : w.Visits t p names kind)
    {fuel : Nat} (hlen : names.length ≤ fuel) :
    .ok ⟨names.foldl joinName p.path, kind⟩ ∈ w.descend t fuel p := by
  induction h generalizing fuel with
  | @entry p l d name kind hopen hname hkind hskip =>
    obtain ⟨fuel, rfl⟩ : ∃ n, fuel = n + 1 := Nat.exists_eq_add_of_le' hlen
    simp only [descend, hopen, List.mem_flatMap]
    refine ⟨name, hname, ?_⟩
    simp only [hkind, hskip]
    exact List.mem_cons_self
  | @under p l l' d d' name names kind hopen hname hkind hskip henter _ ih =>
    rw [List.length_cons] at hlen
    obtain ⟨fuel, rfl⟩ : ∃ n, fuel = n + 1 :=
      Nat.exists_eq_add_of_le' (Nat.le_trans (Nat.le_add_left 1 _) hlen)
    simp only [descend, hopen, List.mem_flatMap]
    refine ⟨name, hname, ?_⟩
    have hskip' : w.skips p name (EntryKind.directory == .directory) = false := hskip
    simp only [hkind, hskip', henter]
    exact List.mem_cons_of_mem _ (ih (by omega))

/-- The results of a walk below a directory are the entries that it visits. -/
theorem mem_descend_iff {fuel : Nat} {p : Place} {e : WalkEntry} : .ok e ∈ w.descend t fuel p ↔
    ∃ names, names.length ≤ fuel ∧ w.Visits t p names e.kind ∧
      e.path = names.foldl joinName p.path := by
  refine ⟨exists_visits_of_mem_descend, ?_⟩
  rintro ⟨names, hlen, hvisits, hpath⟩
  obtain ⟨path, kind⟩ := e
  cases hpath
  exact hvisits.mem_descend hlen

theorem Visits.isName {p : Place} {names : List Name} {kind : EntryKind}
    (h : w.Visits t p names kind) : ∀ n ∈ names, IsName n := by
  induction h with
  | entry _ hname _ _ =>
    intro n hn
    rw [List.mem_singleton.mp hn]
    exact isName_of_mem_names hname
  | under _ hname _ _ _ _ ih =>
    intro n hn
    rcases List.mem_cons.mp hn with rfl | hn
    · exact isName_of_mem_names hname
    · exact ih n hn

/-! ### Files -/

/-- The place at which a walk starts. -/
def startAt (w : Walk) (t : FileTree) (l : Location) : Place where
  path := Utf8.encode w.root
  depth := 0
  way := [l]
  rules := w.rulesIn t (Utf8.encode w.root) l
    (if w.respectIgnoreFiles then DirectoryRules.above t l else [])
  base := FileTree.fullPath l

/-- A file that a walk visits along names below its root, or as its root. -/
inductive ReachesFile (w : Walk) (t : FileTree) : List Name → Prop
  | root {l : Location} {d : Entry} (hopen : t.open? (Utf8.encode w.root) = .ok (l, d))
      (hd : d ≠ .directory) :
    ReachesFile w t []
  | under {l : Location} {names : List Name}
      (hopen : t.open? (Utf8.encode w.root) = .ok (l, .directory))
      (hlen : names.length ≤ maxSteps t) (h : w.Visits t (w.startAt t l) names .file) :
      ReachesFile w t names

theorem results_of_directory {l : Location} (hroot : isStandardInput w.root = false)
    (hopen : t.open? (Utf8.encode w.root) = .ok (l, .directory)) :
    w.results t =
      .ok ⟨Utf8.encode w.root, .directory⟩ :: w.descend t (maxSteps t) (w.startAt t l) := by
  unfold results
  simp only [hroot, hopen]
  rfl

theorem results_of_file {l : Location} {d : Entry} (hroot : isStandardInput w.root = false)
    (hopen : t.open? (Utf8.encode w.root) = .ok (l, d)) (hd : d ≠ .directory) :
    w.results t = [.ok ⟨Utf8.encode w.root, .file⟩] := by
  unfold results
  cases d with
  | directory => exact absurd rfl hd
  | file content => simp only [hroot, hopen]; rfl
  | link target => simp only [hroot, hopen]; rfl
  | locked => simp only [hroot, hopen]; rfl

variable {names : List Name}

theorem ReachesFile.exists_open? (h : w.ReachesFile t names) :
    ∃ x, t.open? (Utf8.encode w.root) = .ok x := by
  cases h with
  | root hopen _ => exact ⟨_, hopen⟩
  | under hopen _ _ => exact ⟨_, hopen⟩

theorem ReachesFile.root_ne_nil (h : w.ReachesFile t names) : w.root ≠ [] := by
  intro hnil
  obtain ⟨x, hopen⟩ := h.exists_open?
  rw [hnil, Utf8.encode_nil, open?_nil] at hopen
  cases hopen

theorem reachesFile_iff_of_directory {l : Location}
    (hopen : t.open? (Utf8.encode w.root) = .ok (l, .directory)) :
    w.ReachesFile t names ↔ names.length ≤ maxSteps t ∧ w.Visits t (w.startAt t l) names .file := by
  constructor
  · intro h
    cases h with
    | root hopen' hd =>
      cases hopen.symm.trans hopen'
      exact absurd rfl hd
    | under hopen' hlen hvisits =>
      cases hopen.symm.trans hopen'
      exact ⟨hlen, hvisits⟩
  · rintro ⟨hlen, hvisits⟩
    exact .under hopen hlen hvisits

theorem reachesFile_iff_of_file {l : Location} {d : Entry}
    (hopen : t.open? (Utf8.encode w.root) = .ok (l, d))
    (hd : d ≠ .directory) : w.ReachesFile t names ↔ names = [] := by
  constructor
  · intro h
    cases h with
    | root _ _ => rfl
    | under hopen' _ _ =>
      cases hopen.symm.trans hopen'
      exact absurd rfl hd
  · rintro rfl
    exact .root hopen hd

theorem mem_results_iff {path : Bytes} : .ok ⟨path, .file⟩ ∈ w.results t ↔
    isStandardInput w.root = false ∧ ∃ names, w.ReachesFile t names ∧
      path = names.foldl joinName (Utf8.encode w.root) := by
  cases hroot : isStandardInput w.root with
  | true => simp [results, hroot]
  | false =>
    simp only [true_and]
    cases hopen : t.open? (Utf8.encode w.root) with
    | error f =>
      constructor
      · intro h
        simp [results, hroot, hopen] at h
      · rintro ⟨names, h, -⟩
        obtain ⟨x, hopen'⟩ := h.exists_open?
        rw [hopen] at hopen'
        cases hopen'
    | ok x =>
      obtain ⟨l, d⟩ := x
      by_cases hd : d = .directory
      · subst hd
        rw [results_of_directory hroot hopen, List.mem_cons, mem_descend_iff]
        simp [reachesFile_iff_of_directory hopen, startAt, and_assoc]
      · rw [results_of_file hroot hopen hd, List.mem_singleton]
        simp [reachesFile_iff_of_file hopen hd]

theorem ReachesFile.isName (h : w.ReachesFile t names) : ∀ n ∈ names, IsName n := by
  cases h with
  | root _ _ => simp
  | under _ _ hvisits => exact hvisits.isName

/-! ### What is found -/

/-- A path that a walk finds: that of a visited file, if it is text and has one of the
extensions. -/
structure Finds (w : Walk) (t : FileTree) (p : Path) (names : List Name) : Prop where
  root : isStandardInput w.root = false
  reaches : w.ReachesFile t names
  path : Utf8.decode? (names.foldl joinName (Utf8.encode w.root)) = some p
  extension : hasExtension w.extensions p = true

theorem Finds.encode_eq {p : Path} {names : List Name} (h : w.Finds t p names) :
    Utf8.encode p = names.foldl joinName (Utf8.encode w.root) := Utf8.encode_of_decode? h.path

theorem exists_finds_iff {p : Path} :
    (∃ names, w.Finds t p names) ↔
      p ∈ (entriesOf (w.results t)).filterMap (fileOf? w.extensions) := by
  rw [List.mem_filterMap]
  constructor
  · rintro ⟨names, hroot, hreaches, hpath, hext⟩
    refine ⟨⟨_, .file⟩, mem_entriesOf.mpr (mem_results_iff.mpr ⟨hroot, names, hreaches, rfl⟩), ?_⟩
    rw [fileOf?, if_pos rfl]
    exact Option.filter_eq_some_iff.mpr ⟨hpath, hext⟩
  · rintro ⟨⟨path, kind⟩, he, hfile⟩
    unfold fileOf? at hfile
    split_ifs at hfile with hkind
    cases hkind
    obtain ⟨hpath, hext⟩ := Option.filter_eq_some_iff.mp hfile
    obtain ⟨hroot, names, hreaches, rfl⟩ := mem_results_iff.mp (mem_entriesOf.mp he)
    exact ⟨names, hroot, hreaches, hpath, hext⟩

variable {paths : List Path} {p : Path}

theorem finds_of_mem_files (h : w.files t = .ok paths) (hp : p ∈ paths) :
    ∃ names, w.Finds t p names :=
  exists_finds_iff.mpr ((distinct_spec _).1 p ((files_eq h).mem_iff.mp hp))

theorem exists_mem_files (h : w.files t = .ok paths) {names : List Name} (hp : w.Finds t p names) :
    ∃ q ∈ paths, Path.components q = Path.components p := by
  obtain ⟨q, hq, heq⟩ := exists_mem_distinct (exists_finds_iff.mp ⟨names, hp⟩)
  exact ⟨q, (files_eq h).mem_iff.mpr hq, heq⟩

theorem Finds.eq_of_components {w' : Walk} {q : Path} {names names' : List Name}
    (hroot : w'.root = w.root) (hp : w.Finds t p names) (hq : w'.Finds t q names')
    (heq : Path.components p = Path.components q) : p = q :=
  Path.eq_of_components hp.reaches.root_ne_nil hp.reaches.isName hq.reaches.isName hp.encode_eq
    (hroot ▸ hq.encode_eq) heq

theorem mem_files_iff (h : w.files t = .ok paths) : p ∈ paths ↔ ∃ names, w.Finds t p names := by
  refine ⟨finds_of_mem_files h, ?_⟩
  rintro ⟨names, hp⟩
  obtain ⟨q, hq, heq⟩ := exists_mem_files h hp
  obtain ⟨names', hq'⟩ := finds_of_mem_files h hq
  rwa [hp.eq_of_components rfl hq' heq.symm]

/-! ### Walks that end -/

/-- A walk ends with files unless its root is missing. -/
theorem exists_files_iff : (∃ paths, w.files t = .ok paths) ↔
    isStandardInput w.root = true ∨ ∃ x, t.open? (Utf8.encode w.root) = .ok x := by
  cases hroot : isStandardInput w.root with
  | true =>
    have hnone : w.results t = [] := by rw [results, hroot]; rfl
    simp [files, collect, hnone, rootFault?]
  | false =>
    cases hopen : t.open? (Utf8.encode w.root) with
    | error f =>
      have herror : w.results t = [.error (refusal (Utf8.encode w.root) 0 f)] := by
        simp only [results, hroot, hopen]
        rfl
      have hfault : rootFault? (w.results t) = some (refusal (Utf8.encode w.root) 0 f) := by
        rw [herror]
        rfl
      simp [files, collect, hfault]
    | ok x =>
      obtain ⟨l, d⟩ := x
      by_cases hd : d = .directory
      · subst hd
        have hdir : t.isDirectory (Utf8.encode w.root) = true := by rw [FileTree.isDirectory, hopen]
        simpa using exists_files hdir
      · have hfile := results_of_file hroot hopen hd
        simp [files, collect, hfile, rootFault?]

end ActionItems.Walk
