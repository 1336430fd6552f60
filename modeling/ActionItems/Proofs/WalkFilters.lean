import ActionItems.Proofs.Cutting
import ActionItems.Proofs.WalkVisits

/-!
# The filters of a walk

A walk finds less if it looks for fewer extensions, leaves out by more patterns, or does not follow
links (`IsWithin`). The reason is in the choice of single entries: what the wider walk takes an
entry for, the narrower one does or passes over it (`IsWithin.kindOf`), and what the wider walk
leaves out, the narrower one leaves out (`IsWithin.skips`). So the way to a file that the narrower
walk finds is open to the wider one (`Visits.mono`).

A pattern of the settings is read behind an exclamation mark, so whatever its text, its rule leaves
out what it matches (`keeps_of_excludeRules`). Among such rules it makes no difference that the last
one which matches decides (`overruling_eq`), nor in which order they stand.
-/

namespace ActionItems.Walk

open FileTree

/-! ### Rules of patterns -/

theorem exists_trimLine (glob : Text) :
    ∃ rest, IgnoreRule.trimLine (excludeLine glob) = '!' :: rest := by
  unfold IgnoreRule.trimLine excludeLine
  split_ifs
  · exact ⟨glob, rfl⟩
  · exact ⟨Text.trimEnd glob, Text.trimEnd_append_cons (by decide) [] glob⟩

theorem keeps_dropLead (rest : Text) : (IgnoreRule.dropLead ('!' :: rest)).keeps = true := by
  cases rest with
  | nil => rfl
  | cons c rest =>
    by_cases hc : c = '/'
    · rw [hc]
      rfl
    · unfold IgnoreRule.dropLead
      split <;> simp_all

theorem keeps_dropEnd (d : IgnoreRule.Draft) : d.dropEnd.keeps = d.keeps := by
  unfold IgnoreRule.Draft.dropEnd
  split <;> rfl

/-- Whatever a pattern starts with, its rule is one with an exclamation mark. -/
theorem keeps_of_excludeRule {glob : Text} {r : IgnoreRule} (h : excludeRule glob = .ok (some r)) :
    r.keeps = true := by
  obtain ⟨rest, hline⟩ := exists_trimLine glob
  have hcomment : ¬(excludeLine glob).head? = some '#' := by simp [excludeLine]
  unfold excludeRule IgnoreRule.parse at h
  rw [if_neg hcomment, hline] at h
  dsimp only at h
  cases hparse : Glob.parse false (IgnoreRule.dropLead ('!' :: rest)).dropEnd.patternText with
  | error e =>
    rw [hparse] at h
    cases h
  | ok pattern =>
    rw [hparse] at h
    cases h
    exact (keeps_dropEnd _).trans (keeps_dropLead rest)

theorem keeps_of_excludeRules {globs : List Text} {rules : List IgnoreRule}
    (h : excludeRules globs = .ok rules) :
    ∀ r ∈ rules, r.keeps = true := by
  intro r hr
  obtain ⟨g, -, hg⟩ := (mem_excludeRules h).mp hr
  exact keeps_of_excludeRule hg

theorem excludeRules_subset {globs globs' : List Text} {rules rules' : List IgnoreRule}
    (h : excludeRules globs = .ok rules) (h' : excludeRules globs' = .ok rules')
    (hsub : globs ⊆ globs') :
    rules ⊆ rules' := by
  intro r hr
  obtain ⟨g, hg, hrule⟩ := (mem_excludeRules h).mp hr
  exact (mem_excludeRules h').mpr ⟨g, hsub hg, hrule⟩

/-- What rules that overrule all others say about a path, if the last one that applies decides: one
with an exclamation mark leaves out. One without would keep what it applies to, and leave out the
files that no rule applies to. -/
def overruling (rules : List IgnoreRule) (path : Bytes) (isDirectory : Bool) : Option Verdict :=
  match IgnoreRule.verdict rules path isDirectory with
  | some .keep => some .ignore
  | some .ignore => some .keep
  | none => if !isDirectory && rules.any (!·.keeps) then some .ignore else none

theorem overruling_eq {rules : List IgnoreRule} (h : ∀ r ∈ rules, r.keeps = true) (path : Bytes)
    (isDirectory : Bool) :
    overruling rules path isDirectory =
      if rules.any (·.applies path isDirectory) then some .ignore else none := by
  unfold overruling IgnoreRule.verdict
  cases hfind : rules.reverse.find? (·.applies path isDirectory) with
  | some r =>
    have hr : r ∈ rules := List.mem_reverse.mp (List.mem_of_find?_eq_some hfind)
    have hany : rules.any (·.applies path isDirectory) = true :=
      List.any_eq_true.mpr ⟨r, hr, by simpa using List.find?_some hfind⟩
    rw [if_pos hany]
    simp [h r hr]
  | none =>
    have hnot := List.find?_eq_none.mp hfind
    have hany : ¬rules.any (·.applies path isDirectory) = true := by
      simpa using fun r hr => by simpa using hnot r (List.mem_reverse.mpr hr)
    have hkeeps : rules.any (!·.keeps) = false := by simpa using h
    rw [if_neg hany]
    simp [hkeeps]

/-! ### Wider walks -/

/-- A walk that finds no more than another by its filters. -/
structure IsWithin (w w' : Walk) : Prop where
  root : w'.root = w.root
  respectIgnoreFiles : w'.respectIgnoreFiles = w.respectIgnoreFiles
  extensions : w.extensions ⊆ w'.extensions
  excludes : w'.excludes ⊆ w.excludes
  followLinks : w.followLinks = true → w'.followLinks = true

variable {w w' : Walk} {t : FileTree}

theorem hasExtension_mono {es es' : List Text} (h : es ⊆ es') {p : Path}
    (hp : hasExtension es p = true) :
    hasExtension es' p = true := by
  unfold hasExtension at hp ⊢
  split at hp
  · exact List.contains_iff_mem.mpr (h (List.contains_iff_mem.mp hp))
  · cases hp

namespace IsWithin

theorem excluded (h : IsWithin w w') {path : Bytes} {isDirectory : Bool}
    (hout : w'.excluded path isDirectory = true) :
    w.excluded path isDirectory = true := by
  unfold Walk.excluded at hout ⊢
  obtain ⟨r, hr, happlies⟩ := List.any_eq_true.mp hout
  exact List.any_eq_true.mpr ⟨r, h.excludes hr, h.root ▸ happlies⟩

theorem skips (h : IsWithin w w') {p : Place} {name : Name} {isDirectory : Bool}
    (hin : w.skips p name isDirectory = false) : w'.skips p name isDirectory = false := by
  unfold Walk.skips at hin ⊢
  simp only [Bool.or_eq_false_iff] at hin ⊢
  refine ⟨?_, ?_⟩
  · exact Bool.eq_false_iff.mpr fun hout => Bool.eq_false_iff.mp hin.1 (h.excluded hout)
  · unfold Walk.fullPath at hin ⊢
    rw [h.root]
    exact hin.2

/-- A link that the narrower walk does not follow is no file for it. -/
theorem kindOf (h : IsWithin w w') {p : Place} {l : Location} {name : Name} {kind : EntryKind}
    (hkind : w.kindOf t p l name = .ok kind) (hlink : kind ≠ .link) :
    w'.kindOf t p l name = .ok kind := by
  unfold Walk.kindOf at hkind ⊢
  cases hfollow : w.followLinks with
  | true =>
    rw [hfollow] at hkind
    rw [h.followLinks hfollow, hkind]
  | false =>
    -- whether the wider walk follows links is of no account here
    rw [hfollow] at hkind
    dsimp only at hkind ⊢
    split at hkind
    · exact hkind
    · cases hkind
      exact absurd rfl hlink
    · exact hkind

theorem enter (h : IsWithin w w') (p : Place) (name : Name) (l : Location) :
    p.enter w' t name l = p.enter w t name l := by
  unfold Place.enter rulesIn
  rw [h.respectIgnoreFiles]

theorem startAt (h : IsWithin w w') (l : Location) : w'.startAt t l = w.startAt t l := by
  unfold Walk.startAt rulesIn
  rw [h.respectIgnoreFiles, h.root]

end IsWithin

/-- The way to an entry stays open. -/
theorem Visits.mono (hwithin : IsWithin w w') {p : Place} {names : List Name} {kind : EntryKind}
    (h : w.Visits t p names kind) (hlink : kind ≠ .link) : w'.Visits t p names kind := by
  induction h with
  | entry hopen hname hkind hskip =>
    exact .entry hopen hname (hwithin.kindOf hkind hlink) (hwithin.skips hskip)
  | @under p l l' d d' name names kind hopen hname hkind hskip henter _ ih =>
    have hbelow := ih hlink
    rw [← hwithin.enter] at hbelow
    exact .under hopen hname (hwithin.kindOf hkind (by simp)) (hwithin.skips hskip) henter hbelow

theorem Finds.mono (hwithin : IsWithin w w') {p : Path} {names : List Name}
    (h : w.Finds t p names) :
    w'.Finds t p names := by
  obtain ⟨hroot, hreaches, hpath, hext⟩ := h
  refine ⟨hwithin.root ▸ hroot, ?_, hwithin.root ▸ hpath, hasExtension_mono hwithin.extensions hext⟩
  cases hreaches with
  | root hopen hd => exact .root (hwithin.root ▸ hopen) hd
  | under hopen hlen hvisits =>
    have hvisits' := hvisits.mono hwithin (by simp)
    rw [← hwithin.startAt] at hvisits'
    exact .under (hwithin.root ▸ hopen) hlen hvisits'

theorem IsWithin.files (hwithin : IsWithin w w') {paths : List Path} (h : w.files t = .ok paths) :
    ∃ paths', w'.files t = .ok paths' ∧ paths ⊆ paths' := by
  have hends := exists_files_iff.mp ⟨paths, h⟩
  rw [← hwithin.root] at hends
  obtain ⟨paths', h'⟩ := exists_files_iff.mpr hends
  refine ⟨paths', h', fun p hp => ?_⟩
  obtain ⟨names, hfinds⟩ := finds_of_mem_files h hp
  exact (mem_files_iff h').mpr ⟨names, hfinds.mono hwithin⟩

/-! ### The same filters -/

/-- Walks that are within each other and take links for the same give the same results. -/
theorem IsWithin.descend_eq (h : IsWithin w w') (h' : IsWithin w' w)
    (hfollow : w'.followLinks = w.followLinks)
    (fuel : Nat) (p : Place) : w'.descend t fuel p = w.descend t fuel p := by
  have hskips : ∀ p name isDirectory, w'.skips p name isDirectory = w.skips p name isDirectory := by
    intro p name isDirectory
    cases hin : w.skips p name isDirectory with
    | false => exact h.skips hin
    | true =>
      refine (Bool.not_eq_false _).mp fun hin' => ?_
      exact Bool.eq_false_iff.mp (h'.skips hin') hin
  have hkind : ∀ p l name, w'.kindOf t p l name = w.kindOf t p l name := by
    intro p l name
    unfold Walk.kindOf
    rw [hfollow]
  induction fuel generalizing p with
  | zero => rfl
  | succ fuel ih => simp only [descend, hskips, hkind, ih, h.enter]

theorem IsWithin.files_eq (h : IsWithin w w') (h' : IsWithin w' w)
    (hfollow : w'.followLinks = w.followLinks) :
    w'.files t = w.files t := by
  have hresults : w'.results t = w.results t := by
    unfold results rulesIn
    rw [h.root, h.respectIgnoreFiles]
    simp only [h.descend_eq h' hfollow]
  have hext : hasExtension w'.extensions = hasExtension w.extensions := by
    funext p
    exact Bool.eq_iff_iff.mpr ⟨hasExtension_mono h'.extensions, hasExtension_mono h.extensions⟩
  unfold Walk.files collect
  rw [hresults]
  unfold fileOf?
  rw [hext]

/-! ### Settings -/

theorem exists_ofSettings {s : Settings} (h : ∀ g ∈ s.ignore, compiles g = true) :
    ∃ rules, excludeRules s.ignore = .ok rules ∧
      ofSettings s = .ok ⟨s.root, s.wantedExtensions, rules, s.followLinks,
        s.respectIgnoreFiles⟩ := by
  obtain ⟨rules, hrules, hset⟩ := excludeSet_of_compiles h
  refine ⟨rules, hrules, ?_⟩
  rw [ofSettings, hset]
  rfl

/-- **Filters only take away.** A walk with fewer extensions, more patterns or without links finds
no other files than one with the same root that treats ignore files the same, in any tree; if the
sets of extensions and patterns are the same, the two walks end alike. A pattern never adds a file,
whatever characters it has: its rule leaves out what it matches also when the last rule that matches
decides and a rule of the other kind would leave out all the rest. -/
theorem files_filtered {s s' : Settings} (hroot : s'.root = s.root)
    (hrespect : s'.respectIgnoreFiles = s.respectIgnoreFiles)
    (hglobs : ∀ g ∈ s.ignore, compiles g = true)
    (hglobs' : ∀ g ∈ s'.ignore, compiles g = true)
    (hextensions : s.wantedExtensions ⊆ s'.wantedExtensions)
    (hignore : s'.ignore ⊆ s.ignore) (hlinks : s.followLinks = true → s'.followLinks = true) :
    ∃ w w', ofSettings s = .ok w ∧ ofSettings s' = .ok w' ∧ ∀ t : FileTree,
      (∀ paths, w.files t = .ok paths → ∃ paths', w'.files t = .ok paths' ∧ paths ⊆ paths') ∧
      (s'.wantedExtensions ⊆ s.wantedExtensions → s.ignore ⊆ s'.ignore →
        s'.followLinks = s.followLinks →
        w'.files t = w.files t) ∧
      ∀ path isDirectory, overruling w.excludes (pathBelow (Utf8.encode w.root) path) isDirectory =
        if w.excluded path isDirectory then some .ignore else none := by
  obtain ⟨rules, hrules, hwalk⟩ := exists_ofSettings hglobs
  obtain ⟨rules', hrules', hwalk'⟩ := exists_ofSettings hglobs'
  have hwithin : IsWithin ⟨s.root, s.wantedExtensions, rules, s.followLinks, s.respectIgnoreFiles⟩
      ⟨s'.root, s'.wantedExtensions, rules', s'.followLinks, s'.respectIgnoreFiles⟩ :=
    ⟨hroot, hrespect, hextensions, excludeRules_subset hrules' hrules hignore, hlinks⟩
  refine ⟨_, _, hwalk, hwalk', fun t => ⟨fun paths hpaths => hwithin.files hpaths, ?_, ?_⟩⟩
  · intro hextensions' hignore' hfollow
    have hwithin' : IsWithin
        ⟨s'.root, s'.wantedExtensions, rules', s'.followLinks, s'.respectIgnoreFiles⟩
        ⟨s.root, s.wantedExtensions, rules, s.followLinks, s.respectIgnoreFiles⟩ :=
      ⟨hroot.symm, hrespect.symm, hextensions', excludeRules_subset hrules hrules' hignore',
        fun h => hfollow ▸ h⟩
    exact hwithin.files_eq hwithin' hfollow
  · intro path isDirectory
    exact overruling_eq (keeps_of_excludeRules hrules) _ _

/-- Patterns that look like a comment and like a rule of the other kind, the pattern of a directory,
and a link. -/
theorem files_filtered_marked :
    let s : Settings := { Settings.ofRoot ['.'] with
      extensions := ["ts".toList], ignore := ["!/b.ts".toList, "#/*".toList, "/d".toList] }
    let s' : Settings := { Settings.ofRoot ['.'] with
      extensions := [".TS".toList, "js".toList], ignore := ["#/*".toList, "#/*".toList]
      followLinks := true }
    let t : FileTree := { entries := [
      ([Utf8.encode "b.ts".toList], .file []), ([[0x21]], .directory),
      ([[0x21], Utf8.encode "b.ts".toList], .file []), ([[0x23]], .directory),
      ([[0x23], Utf8.encode "c.ts".toList], .file []), ([[0x64]], .directory),
      ([[0x64], Utf8.encode "c.ts".toList], .file []),
      ([Utf8.encode "l.ts".toList], .link [0x64])] }
    (∀ g ∈ s.ignore, compiles g = true) ∧ (∀ g ∈ s'.ignore, compiles g = true) ∧
      s.wantedExtensions ⊆ s'.wantedExtensions ∧ s'.ignore ⊆ s.ignore ∧
      ∃ w w', ofSettings s = .ok w ∧ ofSettings s' = .ok w' ∧ w.files t = .ok ["./b.ts".toList] ∧
        ∃ paths', w'.files t = .ok paths' ∧ "./b.ts".toList ∈ paths' := by
  intro s s' t
  have hglobs : ∀ g ∈ s.ignore, compiles g = true := List.all_eq_true.mp (by decide +kernel)
  have hglobs' : ∀ g ∈ s'.ignore, compiles g = true := List.all_eq_true.mp (by decide +kernel)
  have hextensions : s.wantedExtensions ⊆ s'.wantedExtensions := by
    have hs : s.wantedExtensions = ["ts".toList] := by decide +kernel
    have hs' : s'.wantedExtensions = ["js".toList, "ts".toList] := by decide +kernel
    rw [hs, hs']
    simp
  have hignore : s'.ignore ⊆ s.ignore := by simp [s, s']
  refine ⟨hglobs, hglobs', hextensions, hignore, ?_⟩
  have hroot : s'.root = s.root := rfl
  have hlinks : s.followLinks = true → s'.followLinks = true := fun _ => rfl
  obtain ⟨w, w', hw, hw', h⟩ := files_filtered hroot rfl hglobs hglobs' hextensions hignore hlinks
  have hfound : (ofSettings s).map (·.found t) = .ok (none, ["./b.ts".toList]) := by
    decide +kernel
  rw [hw] at hfound
  have hfiles : w.files t = .ok ["./b.ts".toList] :=
    files_eq_ok (Except.ok.inj hfound) (.refl _) (by decide +kernel)
  obtain ⟨paths', hfiles', hfound⟩ := (h t).1 _ hfiles
  exact ⟨w, w', hw, hw', hfiles, paths', hfiles', hfound List.mem_cons_self⟩

end ActionItems.Walk
