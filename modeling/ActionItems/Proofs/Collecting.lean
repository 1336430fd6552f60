import Mathlib.Data.List.Sort
import ActionItems.Proofs.FindingOrder
import ActionItems.Proofs.WalkPaths

/-! # Collecting the files of a walk

Whatever results a walk has, in whatever order, the collection ends in one of two ways
(`collect_any_results`).

* If the root itself was refused, the first fault that says so is told. Such a fault says under any
  number of paths that it arose no steps below the root (`WalkFault.RefusesRoot`).
* Otherwise the files with one of the extensions are listed (`IsFileList`): ascending in the order
  of components, which is a strict total order up to spelling (`ltComponents_trichotomy`), each path
  in the spelling that came first. So order and repetitions of the results do not matter, but for
  spellings (`IsFileList.map_components_eq`).

The scans of the collection are put as library scans of the results first (`rootFault?_eq`,
`found_eq`). -/

namespace ActionItems

/-! ### Faults of the root -/

namespace WalkFault

/-- The root itself was refused: under any number of paths, the fault arose no steps below the
root. -/
def RefusesRoot (f : WalkFault) : Prop :=
  ∃ paths inner, f = List.foldr atPath (atDepth 0 inner) paths

theorem isOfRoot_iff {f : WalkFault} : f.isOfRoot = true ↔ f.RefusesRoot := by
  constructor
  · intro h
    fun_induction isOfRoot f with
    | case1 d inner =>
      obtain rfl : d = 0 := by simpa using h
      exact ⟨[], inner, rfl⟩
    | case2 path f ih =>
      obtain ⟨paths, inner, rfl⟩ := ih h
      exact ⟨path :: paths, inner, rfl⟩
    | case3 => simp at h
  · rintro ⟨paths, inner, rfl⟩
    induction paths with
    | nil => rfl
    | cons path paths ih => exact ih

end WalkFault

/-! ### The order of paths -/

namespace Path

theorem Component.lt_irrefl (a : Component) : ¬ a.lt a = true := by
  cases a with
  | name s => exact fun h => List.lt_irrefl s (of_decide_eq_true h)
  | _ => exact Bool.false_ne_true

theorem Component.lt_trans {a b c : Component} (hab : a.lt b = true) (hbc : b.lt c = true) :
    a.lt c = true := by
  cases a <;> cases b <;> cases c <;> simp [Component.lt, Component.rank] at *
  exact List.lt_trans hab hbc

theorem Component.lt_trichotomy (a b : Component) : a.lt b = true ∨ a = b ∨ b.lt a = true := by
  cases a <;> cases b <;> simp [Component.lt, Component.rank]
  next s t =>
    by_cases hst : s < t
    · exact Or.inl hst
    · rcases List.le_iff_lt_or_eq.mp (List.not_lt.mp hst) with hts | rfl
      · exact Or.inr (Or.inr hts)
      · exact Or.inr (Or.inl rfl)

theorem ltComponents_cons_iff {a b : Component} {r s : List Component} :
    ltComponents (a :: r) (b :: s) = true ↔ a.lt b = true ∨ a = b ∧ ltComponents r s = true := by
  simp [ltComponents]

theorem ltComponents_irrefl (cs : List Component) : ¬ ltComponents cs cs = true := by
  induction cs with
  | nil => simp [ltComponents]
  | cons a cs ih =>
    rw [ltComponents_cons_iff]
    rintro (h | ⟨-, h⟩)
    · exact Component.lt_irrefl a h
    · exact ih h

theorem ltComponents_trans {cs ds es : List Component} (h : ltComponents cs ds = true)
    (h' : ltComponents ds es = true) :
    ltComponents cs es = true := by
  induction cs generalizing ds es with
  | nil =>
    cases es with
    | nil => simp [ltComponents] at h'
    | cons e es => rfl
  | cons a cs ih =>
    cases ds with
    | nil => simp [ltComponents] at h
    | cons b ds =>
      cases es with
      | nil => simp [ltComponents] at h'
      | cons c es =>
        rw [ltComponents_cons_iff] at h h' ⊢
        rcases h with hab | ⟨rfl, hr⟩ <;> rcases h' with hbc | ⟨rfl, hs⟩
        · exact Or.inl (Component.lt_trans hab hbc)
        · exact Or.inl hab
        · exact Or.inl hbc
        · exact Or.inr ⟨rfl, ih hr hs⟩

theorem ltComponents_trichotomy (cs ds : List Component) :
    ltComponents cs ds = true ∨ cs = ds ∨ ltComponents ds cs = true := by
  induction cs generalizing ds with
  | nil => cases ds <;> simp [ltComponents]
  | cons a cs ih =>
    cases ds with
    | nil => simp [ltComponents]
    | cons b ds =>
      rw [ltComponents_cons_iff, ltComponents_cons_iff]
      rcases Component.lt_trichotomy a b with hab | rfl | hba
      · exact Or.inl (Or.inl hab)
      · rcases ih ds with h | rfl | h
        · exact Or.inl (Or.inr ⟨rfl, h⟩)
        · exact Or.inr (Or.inl rfl)
        · exact Or.inr (Or.inr (Or.inr ⟨rfl, h⟩))
      · exact Or.inr (Or.inr (Or.inl hba))

theorem ltComponents_asymm {cs ds : List Component} (h : ltComponents cs ds = true) :
    ltComponents ds cs = false :=
  Bool.eq_false_iff.mpr fun h' => ltComponents_irrefl cs (ltComponents_trans h h')

/-! ### Extensions -/

theorem extensionOfName_eq_some_iff {name x : Text} :
    extensionOfName name = some x ↔ ∃ stem, name = stem ++ '.' :: x ∧ stem ≠ [] ∧ '.' ∉ x := by
  unfold extensionOfName
  constructor
  · intro h
    split at h
    · next after before hcut =>
      split_ifs at h with hbefore
      obtain rfl := Option.some.inj h
      obtain ⟨⟨d, hd, hname⟩, hafter⟩ := Text.splitOnce_eq_some_iff.mp hcut
      obtain rfl : d = '.' := by simpa using hd
      refine ⟨before.reverse, ?_, by simpa using hbefore, fun hc => ?_⟩
      · rw [← List.reverse_reverse name, hname]
        simp
      · exact absurd (hafter _ (List.mem_reverse.mp hc)) (by decide)
    · cases h
  · rintro ⟨stem, rfl, hstem, hx⟩
    have hafter : ∀ c ∈ x.reverse, (c == '.') = false := fun c hc =>
      beq_eq_false_iff_ne.mpr (ne_of_mem_of_not_mem (List.mem_reverse.mp hc) hx)
    have hcut :
        Text.splitOnce (· == '.') (stem ++ '.' :: x).reverse = some (x.reverse, stem.reverse) := by
      rw [List.reverse_append, List.reverse_cons, List.append_assoc, List.singleton_append]
      exact Text.splitOnce_append_cons hafter rfl stem.reverse
    rw [hcut]
    simp [hstem]

end Path

namespace Walk

/-! ### What the results say -/

/-- An entry is a file to read, and its path is the text `p`: it is a regular file, its path is the
text in UTF-8, and what stands behind the last dot of its name is one of the extensions but for the
case of basic letters. -/
structure IsFileAt (extensions : List Text) (e : WalkEntry) (p : Path) : Prop where
  file : e.kind = .file
  path : Utf8.encode p = e.path
  extension : ∃ stem x, Path.fileName? p = some (stem ++ '.' :: x) ∧ stem ≠ [] ∧ '.' ∉ x ∧
    Text.lower x ∈ extensions

/-- One of the results is a file to read at the path. -/
def Lists (extensions : List Text) (rs : List WalkResult) (p : Path) : Prop :=
  ∃ e, .ok e ∈ rs ∧ IsFileAt extensions e p

theorem hasExtension_iff {extensions : List Text} {p : Path} : hasExtension extensions p = true ↔
    ∃ stem x, Path.fileName? p = some (stem ++ '.' :: x) ∧ stem ≠ [] ∧ '.' ∉ x ∧
      Text.lower x ∈ extensions := by
  have hsome : hasExtension extensions p = true ↔
    ∃ x, Path.extension? p = some x ∧ Text.lower x ∈ extensions := by
    unfold hasExtension
    cases Path.extension? p <;> simp
  rw [hsome]
  constructor
  · rintro ⟨x, hx, hmem⟩
    obtain ⟨name, hname, hext⟩ := Option.bind_eq_some_iff.mp hx
    obtain ⟨stem, rfl, hstem, hdot⟩ := Path.extensionOfName_eq_some_iff.mp hext
    exact ⟨stem, x, hname, hstem, hdot, hmem⟩
  · rintro ⟨stem, x, hname, hstem, hdot, hmem⟩
    have hext := Path.extensionOfName_eq_some_iff.mpr ⟨stem, rfl, hstem, hdot⟩
    exact ⟨x, Option.bind_eq_some_iff.mpr ⟨_, hname, hext⟩, hmem⟩

theorem fileOf?_eq_some_iff {extensions : List Text} {e : WalkEntry} {p : Path} :
    fileOf? extensions e = some p ↔ IsFileAt extensions e p := by
  unfold fileOf?
  constructor
  · intro h
    split_ifs at h with hkind
    obtain ⟨hpath, hext⟩ := Option.filter_eq_some_iff.mp h
    exact ⟨hkind, Utf8.decode?_eq_some_iff.mp hpath, hasExtension_iff.mp hext⟩
  · rintro ⟨hkind, hpath, hext⟩
    rw [if_pos hkind]
    exact Option.filter_eq_some_iff.mpr ⟨Utf8.decode?_eq_some_iff.mpr hpath,
      hasExtension_iff.mpr hext⟩

/-! ### The scans of the collection -/

/-- The fault of the root that a result tells. -/
def refusalIn? (r : WalkResult) : Option WalkFault :=
  match r with
  | .error f => if f.isOfRoot then some f else none
  | .ok _ => none

/-- The path of the file that a result tells. -/
def fileIn? (extensions : List Text) (r : WalkResult) : Option Path :=
  match r with
  | .error _ => none
  | .ok e => fileOf? extensions e

theorem rootFault?_eq (rs : List WalkResult) : rootFault? rs = rs.findSome? refusalIn? := by
  fun_induction rootFault? rs with
  | case1 => rfl
  | case2 f rest hf => simp [refusalIn?, hf]
  | case3 f rest hf ih => simp [refusalIn?, hf, ih]
  | case4 e rest ih => exact ih

theorem found_eq (extensions : List Text) (rs : List WalkResult) :
    (entriesOf rs).filterMap (fileOf? extensions) = rs.filterMap (fileIn? extensions) := by
  fun_induction entriesOf rs with
  | case1 => rfl
  | case2 f rest ih => rw [ih, List.filterMap_cons_none rfl]
  | case3 e rest ih => rw [List.filterMap_cons, List.filterMap_cons, ih, fileIn?]

theorem refusalIn?_eq_some_iff {r : WalkResult} {f : WalkFault} :
    refusalIn? r = some f ↔ r = .error f ∧ f.RefusesRoot := by
  cases r with
  | ok e => simp [refusalIn?]
  | error g =>
    have hif : refusalIn? (.error g) = if g.isOfRoot then some g else none := rfl
    rw [hif, ← WalkFault.isOfRoot_iff, Option.ite_none_right_eq_some, Option.some.injEq,
      Except.error.injEq]
    constructor
    · rintro ⟨hg, rfl⟩
      exact ⟨rfl, hg⟩
    · rintro ⟨rfl, hg⟩
      exact ⟨hg, rfl⟩

theorem refusalIn?_eq_none_iff {r : WalkResult} :
    refusalIn? r = none ↔ ∀ f, r = .error f → ¬ f.RefusesRoot := by
  rw [Option.eq_none_iff_forall_ne_some]
  exact forall_congr' fun f => by rw [Ne, refusalIn?_eq_some_iff, not_and]

theorem mem_found_iff {extensions : List Text} {rs : List WalkResult} {p : Path} :
    p ∈ rs.filterMap (fileIn? extensions) ↔ Lists extensions rs p := by
  rw [← found_eq, List.mem_filterMap]
  exact exists_congr fun e => by rw [mem_entriesOf, fileOf?_eq_some_iff]

/-- **The first refusal of the root**, if there is one. -/
theorem rootFault?_eq_some_iff {rs : List WalkResult} {f : WalkFault} : rootFault? rs = some f ↔
    ∃ before rest, rs = before ++ .error f :: rest ∧ f.RefusesRoot ∧
      ∀ g, .error g ∈ before → ¬ g.RefusesRoot := by
  rw [rootFault?_eq, List.findSome?_eq_some_iff]
  constructor
  · rintro ⟨before, r, rest, rfl, hr, hbefore⟩
    obtain ⟨rfl, hf⟩ := refusalIn?_eq_some_iff.mp hr
    exact ⟨before, rest, rfl, hf, fun g hg => refusalIn?_eq_none_iff.mp (hbefore _ hg) g rfl⟩
  · rintro ⟨before, rest, rfl, hf, hbefore⟩
    refine ⟨before, _, rest, rfl, refusalIn?_eq_some_iff.mpr ⟨rfl, hf⟩, fun r hr => ?_⟩
    exact refusalIn?_eq_none_iff.mpr fun g hg => hbefore g (hg ▸ hr)

theorem rootFault?_eq_none_iff {rs : List WalkResult} :
    rootFault? rs = none ↔ ∀ f, .error f ∈ rs → ¬ f.RefusesRoot := by
  rw [rootFault?_eq, List.findSome?_eq_none_iff]
  constructor
  · exact fun h f hf => refusalIn?_eq_none_iff.mp (h _ hf) f rfl
  · exact fun h r hr => refusalIn?_eq_none_iff.mpr fun f hf => h f (hf ▸ hr)

/-! ### Spellings of one path -/

/-- A path stays if it is the first of its spellings. -/
theorem mem_distinct_iff_find? {ps : List Path} {p : Path} :
    p ∈ distinct ps ↔ ps.find? (fun q => Path.components q = Path.components p) = some p := by
  induction ps using distinct_induct with
  | nil => simp [distinct]
  | cons a ps ih =>
    rw [distinct_cons, List.mem_cons, ih, List.find?_filter]
    by_cases ha : Path.components a = Path.components p
    · -- `a` is a spelling of `p`, and none is left behind it
      rw [List.find?_cons_of_pos (by simpa using ha), Option.some.injEq]
      constructor
      · rintro (rfl | hp)
        · rfl
        · exact absurd (List.find?_some hp) (by simp [ha])
      · exact fun h => Or.inl h.symm
    · -- `a` is no spelling of `p`, and neither is what is left out with it
      have hne : p ≠ a := fun he => ha (by rw [he])
      have hleft : ∀ q, (Path.components q ≠ Path.components a ∧
        Path.components q = Path.components p) ↔
          Path.components q = Path.components p := fun q =>
        and_iff_right_of_imp fun hq he => ha (he.symm.trans hq)
      rw [List.find?_cons_of_neg (by simpa using ha)]
      simp [hne, hleft]

/-- A path stays if no other spelling of it came before. -/
theorem mem_distinct_iff {ps : List Path} {p : Path} : p ∈ distinct ps ↔
    ∃ before rest, ps = before ++ p :: rest ∧
      ∀ q ∈ before, Path.components q ≠ Path.components p := by
  rw [mem_distinct_iff_find?, List.find?_eq_some_iff_append]
  simp

/-- A file to read, in the spelling of its path that came first. -/
def ListsFirst (extensions : List Text) (rs : List WalkResult) (p : Path) : Prop :=
  ∃ before e rest, rs = before ++ .ok e :: rest ∧ IsFileAt extensions e p ∧
    ∀ q, Lists extensions before q → Path.components q ≠ Path.components p

theorem mem_distinct_found_iff {extensions : List Text} {rs : List WalkResult} {p : Path} :
    p ∈ distinct (rs.filterMap (fileIn? extensions)) ↔ ListsFirst extensions rs p := by
  rw [mem_distinct_iff]
  constructor
  · rintro ⟨before, rest, heq, hbefore⟩
    obtain ⟨l₁, l₂, rfl, rfl, hrest⟩ := List.filterMap_eq_append_iff.mp heq
    obtain ⟨m₁, r, m₂, rfl, hm₁, hr, -⟩ := List.filterMap_eq_cons_iff.mp hrest
    cases r with
    | error f => cases hr
    | ok e =>
      refine ⟨l₁ ++ m₁, e, m₂, by simp, fileOf?_eq_some_iff.mp hr, fun q hq => hbefore q ?_⟩
      rw [← mem_found_iff, List.filterMap_append, List.filterMap_eq_nil_iff.mpr hm₁,
        List.append_nil] at hq
      exact hq
  · rintro ⟨before, e, rest, rfl, hfile, hbefore⟩
    refine ⟨before.filterMap (fileIn? extensions), rest.filterMap (fileIn? extensions), ?_,
      fun q hq => ?_⟩
    · have hp : fileIn? extensions (.ok e) = some p := fileOf?_eq_some_iff.mpr hfile
      rw [List.filterMap_append, List.filterMap_cons_some hp]
    · exact hbefore q (mem_found_iff.mp hq)

theorem ListsFirst.lists {extensions : List Text} {rs : List WalkResult} {p : Path}
    (h : ListsFirst extensions rs p) : Lists extensions rs p := by
  obtain ⟨before, e, rest, rfl, hfile, -⟩ := h
  exact ⟨e, List.mem_append_right _ List.mem_cons_self, hfile⟩

/-- Of the spellings of a path one came first. -/
theorem Lists.exists_first {extensions : List Text} {rs : List WalkResult} {p : Path}
    (h : Lists extensions rs p) :
    ∃ q, ListsFirst extensions rs q ∧ Path.components q = Path.components p := by
  obtain ⟨q, hq, heq⟩ := exists_mem_distinct (mem_found_iff.mpr h)
  exact ⟨q, mem_distinct_found_iff.mp hq, heq⟩

/-! ### The sorted list -/

theorem not_lt_trans (p q r : Path) (hpq : (!Path.lt q p) = true) (hqr : (!Path.lt r q) = true) :
    (!Path.lt r p) = true := by
  rw [Bool.not_eq_true'] at *
  rw [Bool.eq_false_iff]
  intro hrp
  -- `q` is not after `r`, so it comes before `p` too
  rcases Path.ltComponents_trichotomy (Path.components q) (Path.components r) with h | h | h
  · exact Bool.false_ne_true (hpq.symm.trans (Path.ltComponents_trans h hrp))
  · have hqp : Path.lt q p = true := by rw [Path.lt, h]; exact hrp
    exact Bool.false_ne_true (hpq.symm.trans hqp)
  · exact Bool.false_ne_true (hqr.symm.trans h)

theorem not_lt_total (p q : Path) : ((!Path.lt q p) || !Path.lt p q) = true := by
  cases h : Path.lt p q with
  | false => simp
  | true =>
    have hqp : Path.lt q p = false := Path.ltComponents_asymm h
    simp [hqp]

/-- Paths that are told apart by their components are sorted strictly. -/
theorem sortPaths_ascending {ps : List Path}
    (h : ps.Pairwise fun p q => Path.components p ≠ Path.components q) :
    (sortPaths ps).Pairwise fun p q => Path.lt p q = true := by
  have hsorted : (sortPaths ps).Pairwise fun p q => (!Path.lt q p) = true :=
    List.pairwise_mergeSort not_lt_trans not_lt_total ps
  have hne : (sortPaths ps).Pairwise fun p q => Path.components p ≠ Path.components q :=
    ((List.mergeSort_perm ps _).pairwise_iff fun {p q} hpq => Ne.symm hpq).mpr h
  refine hsorted.imp₂ (fun p q hle hne => ?_) hne
  rcases Path.ltComponents_trichotomy (Path.components p) (Path.components q) with hlt | heq | hgt
  · exact hlt
  · exact absurd heq hne
  · have hqp : Path.lt q p = true := hgt
    simp [hqp] at hle

theorem sortPaths_eq_of_perm {ps qs : List Path} (hperm : ps.Perm qs)
    (hlt : qs.Pairwise fun p q => Path.lt p q = true) : sortPaths ps = qs :=
  mergeSort_eq_of_perm not_lt_trans not_lt_total hperm
    (hlt.imp fun {p q} hpq => by rw [hpq]; rfl)

/-- A list of the files to read among results: strictly ascending, with each path in the spelling
that came first. -/
structure IsFileList (extensions : List Text) (rs : List WalkResult) (ps : List Path) : Prop where
  ascending : ps.Pairwise fun p q => Path.lt p q = true
  mem_iff : ∀ p, p ∈ ps ↔ ListsFirst extensions rs p

theorem isFileList_sortPaths (extensions : List Text) (rs : List WalkResult) :
    IsFileList extensions rs (sortPaths (distinct (rs.filterMap (fileIn? extensions)))) where
  ascending := sortPaths_ascending (distinct_spec _).2
  mem_iff p := by
    rw [sortPaths, (List.mergeSort_perm _ _).mem_iff]
    exact mem_distinct_found_iff

namespace IsFileList

variable {extensions : List Text} {rs rs' : List WalkResult} {ps ps' : List Path}

theorem ascending_components (h : IsFileList extensions rs ps) :
    (ps.map Path.components).Pairwise fun cs ds => Path.ltComponents cs ds = true :=
  List.pairwise_map.mpr h.ascending

/-- Up to spelling, the members are all files to read. -/
theorem mem_map_components_iff (h : IsFileList extensions rs ps) (cs : List Path.Component) :
    cs ∈ ps.map Path.components ↔ ∃ p, Lists extensions rs p ∧ Path.components p = cs := by
  rw [List.mem_map]
  constructor
  · rintro ⟨p, hp, hcs⟩
    exact ⟨p, ((h.mem_iff p).mp hp).lists, hcs⟩
  · rintro ⟨p, hp, rfl⟩
    obtain ⟨q, hq, heq⟩ := hp.exists_first
    exact ⟨q, (h.mem_iff q).mpr hq, heq⟩

theorem mem_iff_lists (h : IsFileList extensions rs ps)
    (hspelt : ∀ p q, Lists extensions rs p → Lists extensions rs q →
      Path.components p = Path.components q → p = q)
    (p : Path) : p ∈ ps ↔ Lists extensions rs p := by
  refine ⟨fun hp => ((h.mem_iff p).mp hp).lists, fun hp => ?_⟩
  obtain ⟨q, hq, heq⟩ := hp.exists_first
  rw [← hspelt q p hq.lists hp heq]
  exact (h.mem_iff q).mpr hq

/-- **Order and repetition do not matter**, up to spelling. -/
theorem map_components_eq (h : IsFileList extensions rs ps) (h' : IsFileList extensions rs' ps')
    (hsame : ∀ r, r ∈ rs' ↔ r ∈ rs) : ps'.map Path.components = ps.map Path.components := by
  have hlists : ∀ p, Lists extensions rs' p ↔ Lists extensions rs p := fun p =>
    exists_congr fun e => and_congr_left' (hsame (.ok e))
  have hmem : ∀ cs, cs ∈ ps'.map Path.components ↔ cs ∈ ps.map Path.components := fun cs => by
    simp only [h.mem_map_components_iff, h'.mem_map_components_iff, hlists]
  have hantisymm : Std.Antisymm fun cs ds : List Path.Component => Path.ltComponents cs ds = true :=
    ⟨fun cs ds hlt hgt => absurd (Path.ltComponents_trans hlt hgt) (Path.ltComponents_irrefl cs)⟩
  have hirrefl : Std.Irrefl fun cs ds : List Path.Component => Path.ltComponents cs ds = true :=
    ⟨Path.ltComponents_irrefl⟩
  exact h'.ascending_components.eq_of_mem_iff h.ascending_components hmem

end IsFileList

/-! ### The collection -/

theorem collect_eq_error_iff {extensions : List Text} {rs : List WalkResult} {f : WalkFault} :
    collect extensions rs = .error f ↔ rootFault? rs = some f := by
  unfold collect
  cases rootFault? rs <;> simp

theorem collect_eq_ok {extensions : List Text} {rs : List WalkResult} {ps : List Path}
    (hroot : rootFault? rs = none)
    (hperm : (distinct ((entriesOf rs).filterMap (fileOf? extensions))).Perm ps)
    (hlt : ps.Pairwise fun p q => Path.lt p q = true) : collect extensions rs = .ok ps := by
  rw [collect, hroot, sortPaths_eq_of_perm hperm hlt]

/-- What a walk finds before it is put in order, with the fault of the root. -/
def found (w : Walk) (t : FileTree) : Option WalkFault × List Path :=
  (rootFault? (w.results t), distinct ((entriesOf (w.results t)).filterMap (fileOf? w.extensions)))

theorem files_eq_ok {w : Walk} {t : FileTree} {ps qs : List Path} (h : w.found t = (none, ps))
    (hperm : ps.Perm qs) (hlt : qs.Pairwise fun p q => Path.lt p q = true) :
    w.files t = .ok qs := by
  obtain ⟨hroot, rfl⟩ := Prod.mk.inj h
  exact collect_eq_ok hroot hperm hlt

theorem collect_of_no_refusal {extensions : List Text} {rs : List WalkResult}
    (h : ∀ f, .error f ∈ rs → ¬ f.RefusesRoot) :
    ∃ ps, collect extensions rs = .ok ps ∧ IsFileList extensions rs ps := by
  refine ⟨_, ?_, isFileList_sortPaths extensions rs⟩
  rw [collect, rootFault?_eq_none_iff.mpr h, found_eq]

/-- **Collecting any results.** A fault is told just if some result says that the root was refused,
and then it is the first that does. Otherwise the files to read are listed, strictly ascending by
components; up to spelling the members are all files to read among the results, each in the spelling
that came first, and just these files where none is spelt in two ways. Results in another order or
with other repetitions give the same list, up to spelling. -/
theorem collect_any_results (s : Settings) (rs : List WalkResult) :
    ((∃ f, collect s.wantedExtensions rs = .error f) ↔ ∃ f, .error f ∈ rs ∧ f.RefusesRoot) ∧
    (∀ f, collect s.wantedExtensions rs = .error f ↔
      ∃ before rest, rs = before ++ .error f :: rest ∧ f.RefusesRoot ∧
        ∀ g, .error g ∈ before → ¬ g.RefusesRoot) ∧
    ((∀ f, .error f ∈ rs → ¬ f.RefusesRoot) →
      ∃ ps, collect s.wantedExtensions rs = .ok ps ∧ IsFileList s.wantedExtensions rs ps ∧
        (∀ cs, cs ∈ ps.map Path.components ↔
          ∃ p, Lists s.wantedExtensions rs p ∧ Path.components p = cs) ∧
        ((∀ p q, Lists s.wantedExtensions rs p → Lists s.wantedExtensions rs q →
            Path.components p = Path.components q → p = q) →
          ∀ p, p ∈ ps ↔ Lists s.wantedExtensions rs p) ∧
        ∀ rs', (∀ r, r ∈ rs' ↔ r ∈ rs) →
          ∃ ps', collect s.wantedExtensions rs' = .ok ps' ∧
            ps'.map Path.components = ps.map Path.components) := by
  refine ⟨?_, fun f => collect_eq_error_iff.trans rootFault?_eq_some_iff, fun hnone => ?_⟩
  · constructor
    · rintro ⟨f, hf⟩
      obtain ⟨before, rest, rfl, hroot, -⟩ := rootFault?_eq_some_iff.mp (collect_eq_error_iff.mp hf)
      exact ⟨f, List.mem_append_right _ List.mem_cons_self, hroot⟩
    · rintro ⟨f, hf, hroot⟩
      cases hfault : rootFault? rs with
      | none => exact absurd hroot (rootFault?_eq_none_iff.mp hfault f hf)
      | some g => exact ⟨g, collect_eq_error_iff.mpr hfault⟩
  · obtain ⟨ps, hps, hlist⟩ := collect_of_no_refusal hnone
    refine ⟨ps, hps, hlist, hlist.mem_map_components_iff, hlist.mem_iff_lists, fun rs' hsame => ?_⟩
    obtain ⟨ps', hps', hlist'⟩ := collect_of_no_refusal fun f hf => hnone f ((hsame _).mp hf)
    exact ⟨ps', hps', hlist.map_components_eq hlist' hsame⟩

/-- Results with a fault below the root, a link, a path that is no text and a file that comes
twice. -/
def mixedResults : List WalkResult :=
  [.ok ⟨Utf8.encode "./d".toList, .directory⟩,
    .error (.atPath "./d".toList (.atDepth 1 (.atDepth 0 (.system "Permission denied".toList)))),
    .ok ⟨Utf8.encode "./d.ts/b.TS".toList, .file⟩, .ok ⟨Utf8.encode "./c.ts".toList, .link⟩,
    .ok ⟨Utf8.encode "./a.ts".toList, .file⟩, .ok ⟨0xFF :: Utf8.encode ".ts".toList, .file⟩,
    .ok ⟨Utf8.encode "./d.ts/b.TS".toList, .file⟩]

/-- Without a refusal of the root two files are listed; behind two refusals the first is told. -/
theorem collect_any_results_mixed :
    let refusal : WalkFault := .atPath ".".toList (.atDepth 0 (.system "Not a directory".toList))
    (∀ f, .error f ∈ mixedResults → ¬ f.RefusesRoot) ∧
      IsFileList Settings.default.wantedExtensions mixedResults
        ["./a.ts".toList, "./d.ts/b.TS".toList] ∧
      collect Settings.default.wantedExtensions
        (mixedResults ++ [.error refusal, .error (.atDepth 0 refusal)]) =
        .error refusal := by
  intro refusal
  have hnone : ∀ f, .error f ∈ mixedResults → ¬ f.RefusesRoot := by
    intro f hf
    have heq : f = .atPath "./d".toList
      (.atDepth 1 (.atDepth 0 (.system "Permission denied".toList))) := by
      simpa [mixedResults] using hf
    rw [heq, ← WalkFault.isOfRoot_iff]
    exact Bool.false_ne_true
  have hcollect : collect Settings.default.wantedExtensions mixedResults =
      .ok ["./a.ts".toList, "./d.ts/b.TS".toList] :=
    collect_eq_ok (by decide +kernel) (by decide +kernel) (by decide +kernel)
  refine ⟨hnone, ?_, ?_⟩
  · obtain ⟨ps, hps, hlist, -⟩ := (collect_any_results Settings.default mixedResults).2.2 hnone
    rw [hcollect] at hps
    rw [Except.ok.inj hps]
    exact hlist
  · exact ((collect_any_results Settings.default _).2.1 refusal).mpr
      ⟨mixedResults, _, rfl, ⟨[".".toList], _, rfl⟩, hnone⟩

end Walk

end ActionItems
