import ActionItems.Proofs.ScanFaults

/-!
# Scans that are run again

A scan is prepared once and run many times, while the file tree changes between the runs. A run
keeps the settings and the walk of the scan, so whatever happened before, the scan is still one for
its settings (`IsFor.after`); and what a run gives depends on the settings, the walk and the tree,
but not on the counters of the run before (`IsFor.run_eq`).
-/

namespace ActionItems

/-- A change of a file tree. -/
inductive FileTree.Change where
  | write (path content : Bytes)
  | mkdir (path : Bytes)
  | remove (path : Bytes)
  | symlink (path target : Bytes)

def FileTree.change (t : FileTree) : Change → FileTree
  | .write path content => t.store path content
  | .mkdir path => t.mkdir path
  | .remove path => t.remove path
  | .symlink path target => t.symlink path target

/-- A scan and the file tree around it. -/
structure Session where
  tree : FileTree
  scan : Scan

namespace Session

inductive Step where
  | change (c : FileTree.Change)
  /-- The scan is run; it may fail. -/
  | run

def step (s : Session) : Step → Session
  | .change c => { s with tree := s.tree.change c }
  | .run => { s with scan := (s.scan.run s.tree).1 }

def after (s : Session) (steps : List Step) : Session := steps.foldl step s

end Session

namespace Scan

variable {settings : Settings} {s s' : Scan} {t : FileTree}

/-- The scans that settings ask for, whatever their counters. -/
structure IsFor (settings : Settings) (s : Scan) : Prop where
  settings_eq : s.settings = settings
  walk_eq : Walk.ofSettings settings = .ok s.walk

theorem isFor_of_prepare (h : prepare t settings = .ok s) : s.IsFor settings := by
  obtain ⟨hsettings, hwalk⟩ := eq_of_prepare h
  exact ⟨hsettings, hwalk⟩

namespace IsFor

theorem run (h : s.IsFor settings) (t : FileTree) : (s.run t).1.IsFor settings := by
  obtain ⟨hwalk, hsettings⟩ := run_fst s t
  refine ⟨?_, ?_⟩
  · rw [hsettings, h.settings_eq]
  · rw [hwalk, h.walk_eq]

theorem step {x : Session} (h : x.scan.IsFor settings) (e : Session.Step) :
    (x.step e).scan.IsFor settings := by
  cases e with
  | change c => exact h
  | run => exact h.run x.tree

theorem after {x : Session} (h : x.scan.IsFor settings) (steps : List Session.Step) :
    (x.after steps).scan.IsFor settings := by
  induction steps generalizing x with
  | nil => exact h
  | cons e steps ih => exact ih (h.step e)

theorem run_eq (h : s.IsFor settings) (h' : s'.IsFor settings) (t : FileTree) :
    s.run t = s'.run t := by
  have hwalk : s.walk = s'.walk := Except.ok.inj (h.walk_eq.symm.trans h'.walk_eq)
  have hsettings := h.settings_eq.trans h'.settings_eq.symm
  obtain ⟨_, _, _⟩ := s
  obtain ⟨_, _, _⟩ := s'
  cases hwalk
  cases hsettings
  rfl

end IsFor

theorem exists_prepare_iff (h : prepare t settings = .ok s) (now : FileTree) :
    (∃ fresh, prepare now settings = .ok fresh) ↔
      now.isDirectory (Utf8.encode settings.root) = true := by
  have hthen := Settings.isAccepted_of_prepare h
  constructor
  · rintro ⟨fresh, hfresh⟩
    exact (Settings.isAccepted_of_prepare hfresh).root
  · intro hroot
    exact Settings.prepare_of_isAccepted ⟨hthen.concurrency, hroot, hthen.ignore⟩

/-- **A scan that is run again** gives what a scan gives that is prepared now, and is left the same,
whatever was changed in between and whether the runs before failed or not. It can be prepared now
just if its root is a directory, and then the run does not fail. -/
theorem run_forgets (h : prepare t settings = .ok s) (steps : List Session.Step) :
    let now := (Session.mk t s).after steps
    (∀ fresh, prepare now.tree settings = .ok fresh →
      now.scan.run now.tree = fresh.run now.tree ∧ ∃ o, (now.scan.run now.tree).2 = .ok o) ∧
    ((∃ fresh, prepare now.tree settings = .ok fresh) ↔
      now.tree.isDirectory (Utf8.encode settings.root) = true) := by
  intro now
  refine ⟨fun fresh hfresh => ?_, exists_prepare_iff h now.tree⟩
  have hnow : now.scan.IsFor settings := IsFor.after (x := ⟨t, s⟩) (isFor_of_prepare h) steps
  have hrun : now.scan.run now.tree = fresh.run now.tree :=
    hnow.run_eq (isFor_of_prepare hfresh) now.tree
  have hroot : now.tree.isDirectory (Utf8.encode fresh.walk.root) = true := by
    rw [root_of_prepare hfresh, (eq_of_prepare hfresh).1]
    exact (Settings.isAccepted_of_prepare hfresh).root
  exact ⟨hrun, by rw [hrun]; exact exists_run hroot⟩

/-- The directory `d` is scanned, removed, scanned in vain, and made again with a file. -/
theorem run_forgets_removed :
    let settings : Settings :=
      { Settings.ofRoot ['d'] with extensions := ["sh".toList], ignore := [] }
    let t : FileTree := { entries := [([[0x64]], .directory),
      ([[0x64], Utf8.encode "a.sh".toList], .file [])] }
    let s : Scan := ⟨settings, ⟨['d'], ["sh".toList], [], false, false⟩, Tally.zero⟩
    let steps : List Session.Step := [.run, .change (.remove [0x64]), .run, .change (.mkdir [0x64]),
      .change (.write (Utf8.encode "d/b.sh".toList) (Utf8.encode "# TODO x".toList))]
    let amid := (Session.mk t s).after (steps.take 2)
    let now := (Session.mk t s).after steps
    prepare t settings = .ok s ∧
      (amid.scan.run amid.tree).2 = .error (.walk (Walk.refusal [0x64] 0 .notFound)) ∧
      prepare now.tree settings = .ok s ∧ now.scan.run now.tree = s.run now.tree ∧
      ∃ o, (now.scan.run now.tree).2 = .ok o := by
  intro settings t s steps amid now
  have hthen : prepare t settings = .ok s := rfl
  have hamid : (amid.scan.run amid.tree).2 = .error (.walk (Walk.refusal [0x64] 0 .notFound)) := by
    have hfor : amid.scan.IsFor settings := IsFor.after (x := ⟨t, s⟩) (isFor_of_prepare hthen) _
    have htree : amid.tree = t.remove [0x64] := rfl
    have hopen : (t.remove [0x64]).open? (Utf8.encode ['d']) = .error .notFound := by decide +kernel
    have hnot : Walk.isStandardInput ['d'] = false := by decide +kernel
    have hfiles : s.walk.files (t.remove [0x64]) = .error (Walk.refusal [0x64] 0 .notFound) := by
      rw [Walk.files, Walk.results, hnot, hopen]
      rfl
    rw [hfor.run_eq (isFor_of_prepare hthen) amid.tree, htree, run, runWith, hfiles]
  have htree : now.tree = ((t.remove [0x64]).mkdir [0x64]).store (Utf8.encode "d/b.sh".toList)
      (Utf8.encode "# TODO x".toList) := rfl
  have hnow : prepare now.tree settings = .ok s := by
    rw [htree]
    rfl
  exact ⟨hthen, hamid, hnow, (run_forgets hthen steps).1 s hnow⟩

end Scan

end ActionItems
