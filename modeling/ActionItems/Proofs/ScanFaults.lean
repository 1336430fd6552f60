import Mathlib.Tactic.SplitIfs
import ActionItems.Proofs.FileTreeWrites
import ActionItems.Proofs.PatternSets
import ActionItems.Proofs.ScanOrder

/-!
# The scans that fail

A scan fails because of its settings or because of its root, and for no other reason.
`Settings.IsRefused` lists the faults in the order in which they are told, and `Settings.IsAccepted`
says that there is none: of the two exactly one holds (`isAccepted_or_isRefused`).

* accepted settings can be prepared (`prepare_of_isAccepted`) and refused ones cannot
  (`prepare_of_isRefused`);
* a fault below the root is never a fault of the root (`below_of_mem_descend`), so a walk from a
  directory ends with a list of files (`exists_files`), whatever the directory holds;
* the bound on the files that are read at once is not zero when it is asked for (`exists_ofLimit`).
-/

namespace ActionItems

namespace Walk

/-! ### Faults below the root -/

variable {w : Walk} {t : FileTree}

theorem below_of_kindOf {p : Place} {l : Location} {name : Name} {f : WalkFault}
    (h : w.kindOf t p l name = .error f) : f.isOfRoot = false := by
  unfold kindOf at h
  split at h
  · cases h
  · split_ifs at h with hfollow
    dsimp only at h
    split at h
    · cases h
      rfl
    · split_ifs at h with hloop
      cases h
      rfl
    · cases h
  · cases h

theorem below_of_mem_descend {f : WalkFault} {fuel : Nat} {p : Place}
    (h : .error f ∈ w.descend t fuel p) :
    f.isOfRoot = false := by
  -- all faults here are told with a depth that is a successor
  induction fuel generalizing p with
  | zero => cases h
  | succ fuel ih =>
    rw [descend] at h
    split at h
    · cases List.mem_singleton.mp h
      rfl
    · obtain ⟨name, -, hname⟩ := List.mem_flatMap.mp h
      split at hname
      · next hkind =>
        cases List.mem_singleton.mp hname
        exact below_of_kindOf hkind
      · split_ifs at hname with hskip hkind
        · cases hname
        · rcases List.mem_cons.mp hname with hentry | hname
          · cases hentry
          · split at hname
            · cases List.mem_singleton.mp hname
              rfl
            · exact ih hname
        · cases List.mem_singleton.mp hname

theorem below_of_mem_results {f : WalkFault} (hroot : t.isDirectory (Utf8.encode w.root) = true)
    (h : .error f ∈ w.results t) : f.isOfRoot = false := by
  rw [results] at h
  split at h
  · cases h
  · unfold FileTree.isDirectory at hroot
    split at hroot
    · next l hopen =>
      simp only [hopen] at h
      rcases List.mem_cons.mp h with hentry | h
      · cases hentry
      · exact below_of_mem_descend h
    · cases hroot

theorem rootFault?_eq_none {rs : List WalkResult} (h : ∀ f, .error f ∈ rs → f.isOfRoot = false) :
    rootFault? rs = none := by
  induction rs with
  | nil => rfl
  | cons r rs ih =>
    have hrest := ih fun f hf => h f (List.mem_cons_of_mem _ hf)
    cases r with
    | ok e => exact hrest
    | error f =>
      have hf := h f List.mem_cons_self
      rw [rootFault?, hf]
      exact hrest

theorem exists_files (hroot : t.isDirectory (Utf8.encode w.root) = true) :
    ∃ paths, w.files t = .ok paths := by
  have hnone := rootFault?_eq_none fun f => below_of_mem_results (f := f) hroot
  unfold files collect
  rw [hnone]
  exact ⟨_, rfl⟩

end Walk

/-! ### Settings -/

/-- The fault that settings are refused for in a file tree: of those that they have, the first in
this order. -/
inductive Settings.IsRefused (s : Settings) (t : FileTree) : SettingsFault → Prop
  | concurrency (hjobs : s.concurrency = some 0) :
    IsRefused s t (.invalidOption "concurrency".toList "must be at least 1".toList)
  | missing (hjobs : s.concurrency ≠ some 0) (hroot : t.pathExists (Utf8.encode s.root) = false) :
    IsRefused s t (.missingDirectory s.root)
  | notADirectory (hjobs : s.concurrency ≠ some 0)
      (hexists : t.pathExists (Utf8.encode s.root) = true)
      (hroot : t.isDirectory (Utf8.encode s.root) = false) : IsRefused s t (.notADirectory s.root)
  | glob (hjobs : s.concurrency ≠ some 0) (hroot : t.isDirectory (Utf8.encode s.root) = true)
      {good rest : List Text} {bad reason : Text} (hignore : s.ignore = good ++ bad :: rest)
      (hgood : ∀ g ∈ good, Walk.isReadable g = true)
      (hbad : Walk.excludeRule bad = .error (.invalidGlob bad reason)) :
    IsRefused s t (.invalidGlob bad reason)
  /-- All patterns can be read, but they make no set: then the fault names all of them at once. -/
  | set (hjobs : s.concurrency ≠ some 0) (hroot : t.isDirectory (Utf8.encode s.root) = true)
      {rules : List IgnoreRule} {reason : Text} (hrules : Walk.excludeRules s.ignore = .ok rules)
      (hset : Glob.setFault? (rules.map (·.pattern)) = some reason) :
    IsRefused s t (.invalidGlob (Text.join [','] s.ignore) reason)

structure Settings.IsAccepted (s : Settings) (t : FileTree) : Prop where
  concurrency : s.concurrency ≠ some 0
  root : t.isDirectory (Utf8.encode s.root) = true
  ignore : ∀ g ∈ s.ignore, Walk.compiles g = true

theorem FileTree.pathExists_of_isDirectory {t : FileTree} {path : Bytes}
    (h : t.isDirectory path = true) :
    t.pathExists path = true := by
  unfold isDirectory at h
  unfold pathExists
  split at h
  · next l hopen =>
    rw [hopen]
    rfl
  · cases h

namespace Settings

variable {s : Settings} {t : FileTree}

theorem isAccepted_or_isRefused (s : Settings) (t : FileTree) :
    s.IsAccepted t ∨ ∃ f, s.IsRefused t f := by
  by_cases hjobs : s.concurrency = some 0
  · exact Or.inr ⟨_, .concurrency hjobs⟩
  cases hexists : t.pathExists (Utf8.encode s.root) with
  | false => exact Or.inr ⟨_, .missing hjobs hexists⟩
  | true =>
    cases hroot : t.isDirectory (Utf8.encode s.root) with
    | false => exact Or.inr ⟨_, .notADirectory hjobs hexists hroot⟩
    | true =>
      -- the pattern that is told is the first that the search finds
      cases hfind : s.ignore.find? (!Walk.isReadable ·) with
      | none =>
        have hread : ∀ g ∈ s.ignore, Walk.isReadable g = true := fun g hg => by
          simpa using List.find?_eq_none.mp hfind g hg
        by_cases hbad : ∃ g ∈ s.ignore, Walk.compiles g = false
        · obtain ⟨rules, reason, hrules, hset⟩ := Walk.exists_setFault hread hbad
          exact Or.inr ⟨_, .set hjobs hroot hrules hset⟩
        · exact Or.inl ⟨hjobs, hroot, by simpa using hbad⟩
      | some bad =>
        obtain ⟨hbad, good, rest, hignore, hgood⟩ := List.find?_eq_some_iff_append.mp hfind
        obtain ⟨reason, hfault⟩ := Walk.exists_excludeRule_fault (by simpa using hbad)
        exact Or.inr ⟨_, .glob hjobs hroot hignore (fun g hg => by simpa using hgood g hg) hfault⟩

theorem check_of_isDirectory (hjobs : s.concurrency ≠ some 0)
    (hroot : t.isDirectory (Utf8.encode s.root) = true) : s.check t = .ok () := by
  have hexists := FileTree.pathExists_of_isDirectory hroot
  unfold check
  simp [hjobs, hroot, hexists]

theorem prepare_of_isAccepted (h : s.IsAccepted t) : ∃ scan, Scan.prepare t s = .ok scan := by
  have hcheck := check_of_isDirectory h.concurrency h.root
  obtain ⟨rules, -, hrules⟩ := Walk.excludeSet_of_compiles h.ignore
  unfold Scan.prepare Walk.ofSettings
  rw [hcheck, hrules]
  exact ⟨_, rfl⟩

theorem prepare_of_isRefused {f : SettingsFault} (h : s.IsRefused t f) :
    Scan.prepare t s = .error (.settings f) := by
  unfold Scan.prepare
  cases h with
  | concurrency hjobs => rw [check, if_pos hjobs]; rfl
  | missing hjobs hroot => simp [check, hjobs, hroot]
  | notADirectory hjobs hexists hroot => simp [check, hjobs, hexists, hroot]
  | glob hjobs hroot hignore hgood hbad =>
    have hrules := Walk.excludeRules_fault hgood hbad
    rw [check_of_isDirectory hjobs hroot]
    simp only [Walk.ofSettings, Walk.excludeSet, hignore, hrules]
    rfl
  | set hjobs hroot hrules hset =>
    rw [check_of_isDirectory hjobs hroot]
    simp only [Walk.ofSettings, Walk.excludeSet, hrules, hset]
    rfl

theorem exists_ofLimit (hjobs : s.concurrency ≠ some 0) (processors : UInt64) :
    ∃ bound, Concurrency.ofLimit (s.jobsAtOnce processors) = .ok bound := by
  have hlimit : s.jobsAtOnce processors ≠ 0 := by
    intro hzero
    unfold jobsAtOnce at hzero
    cases hgiven : s.concurrency with
    | some n =>
      rw [hgiven, Option.getD_some] at hzero
      exact hjobs (hgiven.trans (congrArg some hzero))
    | none =>
      rw [hgiven, Option.getD_none] at hzero
      have hmax : max processors leastConcurrency =
          if processors ≤ leastConcurrency then leastConcurrency else processors := rfl
      rw [hmax] at hzero
      split at hzero
      · cases hzero
      · next hle =>
        subst hzero
        exact hle (by decide)
  exact ⟨⟨_, hlimit⟩, dif_neg hlimit⟩

theorem isAccepted_of_prepare {ready : Scan} (h : Scan.prepare t s = .ok ready) :
    s.IsAccepted t := by
  rcases s.isAccepted_or_isRefused t with haccepted | ⟨f, hf⟩
  · exact haccepted
  · rw [prepare_of_isRefused hf] at h
    cases h

end Settings

/-! ### Scans -/

namespace Scan

variable {s : Settings} {t : FileTree}

theorem eq_of_prepare {ready : Scan} (h : prepare t s = .ok ready) :
    ready.settings = s ∧ Walk.ofSettings s = .ok ready.walk := by
  unfold prepare at h
  split at h
  · cases h
  · split at h
    · cases h
    · next hwalk =>
      cases h
      exact ⟨rfl, hwalk⟩

theorem exists_run {scan : Scan} (h : t.isDirectory (Utf8.encode scan.walk.root) = true) :
    ∃ o, (scan.run t).2 = .ok o := by
  obtain ⟨paths, hfiles⟩ := Walk.exists_files h
  unfold run runWith
  rw [hfiles]
  exact ⟨_, rfl⟩

theorem scan_of_isAccepted (h : s.IsAccepted t) : ∃ o, scan t s = .ok o := by
  obtain ⟨ready, hready⟩ := Settings.prepare_of_isAccepted h
  have hroot : t.isDirectory (Utf8.encode ready.walk.root) = true := by
    rw [root_of_prepare hready, (eq_of_prepare hready).1]
    exact h.root
  obtain ⟨o, ho⟩ := exists_run hroot
  refine ⟨o, ?_⟩
  rw [scan, hready]
  exact ho

theorem prepareWithin_eq (processors : UInt64) (t : FileTree) (s : Settings) :
    (prepareWithin processors t s).map Prod.fst = prepare t s := by
  unfold prepareWithin
  cases hready : prepare t s with
  | error f => rfl
  | ok ready =>
    obtain ⟨bound, hbound⟩ :=
      Settings.exists_ofLimit (Settings.isAccepted_of_prepare hready).concurrency processors
    simp only [hbound]
    rfl

end Scan

end ActionItems
