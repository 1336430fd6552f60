import ActionItems.Walk
import ActionItems.Proofs.RelativePath
import ActionItems.Proofs.Utf8

/-! # Paths of a walk

A walk spells the path of an entry by putting the name of the entry behind the path of its
directory, so every path that it visits goes on from the spelling of the root (`Leads`,
`leads_of_mem_results`), whatever the names are. Files whose paths have the same components are
taken once. Hence the files of a walk are told apart by what is reported for them
(`files_relative`). -/

namespace ActionItems

open FileTree

/-! ### Spellings that go on from a directory -/

/-- A path that goes on from the spelling of a directory, behind a slash. -/
def Leads (dir path : Bytes) : Prop :=
  ∃ rest, path = dir ++ rest ∧ (rest = [] ∨ dir.getLast? = some slash ∨ rest.head? = some slash)

theorem Leads.refl (dir : Bytes) : Leads dir dir := ⟨[], (List.append_nil _).symm, Or.inl rfl⟩

theorem Leads.join {dir path : Bytes} (hdir : dir ≠ []) (h : Leads dir path) (name : Name) :
    Leads dir (joinName path name) := by
  obtain ⟨rest, rfl, hrest⟩ := h
  have hne : dir ++ rest ≠ [] := fun he => hdir (List.append_eq_nil_iff.mp he).1
  unfold joinName
  split_ifs with hlast
  · refine ⟨rest ++ name, List.append_assoc .., ?_⟩
    rcases hrest with rfl | hdir' | hhead
    · rw [List.append_nil] at hlast
      exact Or.inr (Or.inl (hlast.resolve_left hdir))
    · exact Or.inr (Or.inl hdir')
    · exact Or.inr (Or.inr (by rw [List.head?_append, hhead]; rfl))
  · refine ⟨rest ++ slash :: name, List.append_assoc .., Or.inr ?_⟩
    rcases hrest with rfl | hdir' | hhead
    · exact Or.inr rfl
    · exact Or.inl hdir'
    · exact Or.inr (by rw [List.head?_append, hhead]; rfl)

theorem getLast?_encodeChar {c : Char} (h : (Utf8.encodeChar c).getLast? = some slash) :
    c = '/' := by
  have hcode : c.toNat = 0x2F := by
    unfold Utf8.encodeChar at h
    dsimp only at h
    split_ifs at h <;>
      simp [slash, ← UInt8.toNat_inj, UInt8.toNat_ofNat'] at h <;> omega
  rw [← Char.ofNat_toNat c, hcode]

theorem getLast?_encode {s : Path} (h : (Utf8.encode s).getLast? = some slash) :
    s.getLast? = some '/' := by
  have hs : s ≠ [] := by
    rintro rfl
    cases h
  have hlast := List.dropLast_append_getLast hs
  rw [← hlast, Utf8.encode_append, Utf8.encode_cons, Utf8.encode_nil, List.append_nil,
    List.getLast?_append_of_ne_nil _ (Utf8.encodeChar_ne_nil _)] at h
  rw [List.getLast?_eq_some_getLast hs, getLast?_encodeChar h]

theorem head?_encode {s : Path} (h : (Utf8.encode s).head? = some slash) : s.head? = some '/' := by
  obtain ⟨x, hx⟩ := List.head?_eq_some_iff.mp h
  have hslash : Utf8.encode ['/'] ++ x = Utf8.encode s := hx.symm
  obtain ⟨q, rfl, -⟩ := Utf8.exists_of_encode_append hslash
  rfl

/-- A text goes on from a root if its bytes do. -/
theorem components_prefix_of_leads {root p : Path} (hroot : root ≠ [])
    (h : Leads (Utf8.encode root) (Utf8.encode p)) :
    Path.components root <+: Path.components p := by
  obtain ⟨rest, hp, hrest⟩ := h
  obtain ⟨q, rfl, rfl⟩ := Utf8.exists_of_encode_append hp.symm
  refine Path.components_prefix hroot ?_
  rcases hrest with hnil | hlast | hhead
  · exact Or.inl (Utf8.encode_eq_nil.mp hnil)
  · exact Or.inr (Or.inl (getLast?_encode hlast))
  · exact Or.inr (Or.inr (head?_encode hhead))

namespace Walk

/-! ### What a walk visits -/

theorem leads_of_mem_descend {w : Walk} {t : FileTree} {dir : Bytes} (hdir : dir ≠ []) :
    ∀ {fuel : Nat} {p : Place}, Leads dir p.path → ∀ {e : WalkEntry}, .ok e ∈ w.descend t fuel p →
      Leads dir e.path
  | 0, _, _, _, h => by simp [descend] at h
  | fuel + 1, p, hp, e, h => by
    rw [descend] at h
    split at h
    · simp at h
    · obtain ⟨name, -, hname⟩ := List.mem_flatMap.mp h
      have hjoin := hp.join hdir name
      split at hname
      · simp at hname
      · split_ifs at hname with hskip hkind
        · simp at hname
        · rcases List.mem_cons.mp hname with he | hname
          · cases he
            exact hjoin
          · split at hname
            · simp at hname
            · exact leads_of_mem_descend (p := p.enter w t name _) hdir hjoin hname
        · rcases List.mem_cons.mp hname with he | hname
          · cases he
            exact hjoin
          · simp at hname

theorem open?_nil (t : FileTree) : t.open? [] = .error .notFound := by
  simp [FileTree.open?, FileTree.locate]

theorem leads_of_mem_results {w : Walk} {t : FileTree} {e : WalkEntry} (h : .ok e ∈ w.results t) :
    w.root ≠ [] ∧ Leads (Utf8.encode w.root) e.path := by
  have hroot : w.root ≠ [] := by
    intro hnil
    rw [results, hnil, Utf8.encode_nil, open?_nil] at h
    simp at h
  have hdir : Utf8.encode w.root ≠ [] := fun he => hroot (Utf8.encode_eq_nil.mp he)
  refine ⟨hroot, ?_⟩
  rw [results] at h
  split at h
  · simp at h
  · split at h
    · simp at h
    · rcases List.mem_cons.mp h with he | h
      · cases he
        exact Leads.refl _
      · exact leads_of_mem_descend hdir (Leads.refl _) h
    · obtain rfl : e = ⟨Utf8.encode w.root, .file⟩ := by simpa using h
      exact Leads.refl _

theorem mem_entriesOf {e : WalkEntry} {rs : List WalkResult} :
    e ∈ entriesOf rs ↔ .ok e ∈ rs := by
  induction rs with
  | nil => simp [entriesOf]
  | cons r rs ih => cases r <;> simp [entriesOf, ih]

/-! ### The files of a walk -/

theorem encode_of_fileOf? {extensions : List Text} {e : WalkEntry} {p : Path}
    (h : fileOf? extensions e = some p) : Utf8.encode p = e.path := by
  unfold fileOf? at h
  split_ifs at h
  have hp := (Option.filter_eq_some_iff.mp h).1
  unfold Utf8.decode? at hp
  dsimp only at hp
  split_ifs at hp with henc
  cases hp
  exact henc

theorem distinct_cons (p : Path) (ps : List Path) : distinct (p :: ps) =
    p :: distinct (ps.filter fun q => Path.components q ≠ Path.components p) := by
  rw [distinct, List.eraseDupsBy_cons, distinct]
  simp

/-- Induction along `distinct`: behind a path, only what is no spelling of it is looked at. -/
theorem distinct_induct {motive : List Path → Prop} (nil : motive [])
    (cons : ∀ p ps, motive (ps.filter fun q => Path.components q ≠ Path.components p) →
      motive (p :: ps))
    (ps : List Path) : motive ps := by
  induction hn : ps.length using Nat.strong_induction_on generalizing ps with
  | _ n ih =>
    cases ps with
    | nil => exact nil
    | cons p ps =>
      refine cons p ps (ih _ ?_ _ rfl)
      rw [← hn, List.length_cons]
      exact Nat.lt_succ_of_le (List.length_filter_le ..)

/-- The paths that stay are some of the given ones, and no two of them are spellings of the same. -/
theorem distinct_spec (ps : List Path) : (∀ p ∈ distinct ps, p ∈ ps) ∧
    (distinct ps).Pairwise fun p q => Path.components p ≠ Path.components q := by
  induction ps using distinct_induct with
  | nil => exact ⟨fun p hp => hp, List.Pairwise.nil⟩
  | cons p ps ih =>
    obtain ⟨hmem, hpair⟩ := ih
    rw [distinct_cons]
    refine ⟨fun q hq => ?_, List.pairwise_cons.mpr ⟨fun q hq => ?_, hpair⟩⟩
    · rcases List.mem_cons.mp hq with rfl | hq
      · exact List.mem_cons_self ..
      · exact List.mem_cons_of_mem _ (List.mem_of_mem_filter (hmem q hq))
    · have hother := (List.mem_filter.mp (hmem q hq)).2
      exact fun he => by simp [he] at hother

/-- Of the spellings of a path one stays. -/
theorem exists_mem_distinct {ps : List Path} {p : Path} (h : p ∈ ps) :
    ∃ q ∈ distinct ps, Path.components q = Path.components p := by
  induction ps using distinct_induct with
  | nil => cases h
  | cons a ps ih =>
    rw [distinct_cons]
    by_cases ha : Path.components a = Path.components p
    · exact ⟨a, List.mem_cons_self, ha⟩
    · have hmem := (List.mem_cons.mp h).resolve_left fun he => ha (by rw [he])
      obtain ⟨q, hq, heq⟩ := ih (List.mem_filter.mpr ⟨hmem, by simpa using Ne.symm ha⟩)
      exact ⟨q, List.mem_cons_of_mem _ hq, heq⟩

theorem files_eq {w : Walk} {t : FileTree} {paths : List Path} (h : w.files t = .ok paths) :
    paths.Perm (distinct ((entriesOf (w.results t)).filterMap (fileOf? w.extensions))) := by
  unfold files collect at h
  split at h
  · cases h
  · cases h
    exact List.mergeSort_perm ..

theorem below_of_mem_files {w : Walk} {t : FileTree} {paths : List Path}
    (h : w.files t = .ok paths) {p : Path} (hp : p ∈ paths) :
    w.root ≠ [] ∧ Path.components w.root <+: Path.components p := by
  obtain ⟨e, he, hfile⟩ :=
    List.mem_filterMap.mp ((distinct_spec _).1 p ((files_eq h).mem_iff.mp hp))
  obtain ⟨hroot, hlead⟩ := leads_of_mem_results (mem_entriesOf.mp he)
  rw [← encode_of_fileOf? hfile] at hlead
  exact ⟨hroot, components_prefix_of_leads hroot hlead⟩

/-- **Files are told apart** by what is reported for them. -/
theorem files_relative {w : Walk} {t : FileTree} {paths : List Path} (h : w.files t = .ok paths) :
    paths.Pairwise fun p q => Path.relative w.root p ≠ Path.relative w.root q := by
  have hdistinct :=
    (distinct_spec ((entriesOf (w.results t)).filterMap (fileOf? w.extensions))).2
  have hne := ((files_eq h).pairwise_iff fun {p q} hpq => Ne.symm hpq).mpr hdistinct
  -- what is reported for two paths below the root determines their components
  refine hne.imp_of_mem fun {p q} hp hq hpq heq => hpq ?_
  obtain ⟨hroot, hbelow⟩ := below_of_mem_files h hp
  exact Path.components_eq_of_relative_eq hroot hbelow (below_of_mem_files h hq).2 heq

end Walk

end ActionItems
