import ActionItems.Path
import ActionItems.Proofs.Cutting

/-! # Paths below a root

A path that starts with a root has the components of the root in front (`components_prefix`). What
is reported for it, `relative root p`, has the components after those of the root: the slashes and
lone dots that are taken off at its two ends are no components (`components_eq_append`). So two
paths below a root that are reported alike have the same components
(`components_eq_of_relative_eq`). -/

namespace ActionItems.Path

open Text

/-! ### Components of the rest of a path -/

/-- The components of a path that is the rest of a longer one. -/
def later (p : Path) : List Component := (pieces p).filterMap (ofPiece false)

theorem later_nil : later [] = [] := rfl

theorem later_dot : later ['.'] = [] := rfl

theorem later_append_slash (s x : Path) : later (s ++ '/' :: x) = later s ++ later x := by
  unfold later pieces
  rw [splitAll_append_cons rfl, List.filterMap_append]

theorem later_slash (x : Path) : later ('/' :: x) = later x :=
  later_append_slash [] x

theorem takeWhile_append_dropWhile_slash (p : Path) :
    p.dropWhile (· != '/') = [] ∧ p.takeWhile (· != '/') = p ∨
      ∃ x, p.dropWhile (· != '/') = '/' :: x ∧ p = p.takeWhile (· != '/') ++ '/' :: x := by
  have happ := List.takeWhile_append_dropWhile (p := (· != '/')) (l := p)
  cases hd : p.dropWhile (· != '/') with
  | nil =>
    rw [hd, List.append_nil] at happ
    exact Or.inl ⟨rfl, happ⟩
  | cons c x =>
    have hc := List.head?_dropWhile_not (· != '/') p
    rw [hd] at hc happ
    obtain rfl : c = '/' := by simpa using hc
    exact Or.inr ⟨x, rfl, happ.symm⟩

theorem pieces_takeWhile (p : Path) :
    pieces (p.takeWhile (· != '/')) = [p.takeWhile (· != '/')] := by
  refine splitAll_of_forall_not fun c hc => ?_
  have := List.mem_takeWhile_imp hc
  simpa using this

/-- The first piece and those behind it. -/
theorem pieces_eq_cons (p : Path) : ∃ ps, pieces p = p.takeWhile (· != '/') :: ps ∧
    ps.filterMap (ofPiece false) = later (p.dropWhile (· != '/')) := by
  rcases takeWhile_append_dropWhile_slash p with ⟨hd, ht⟩ | ⟨x, hd, hp⟩
  · refine ⟨[], ?_, by rw [hd, later_nil]; rfl⟩
    have := pieces_takeWhile p
    rwa [ht] at this ⊢
  · refine ⟨pieces x, ?_, by rw [hd, later_slash]; rfl⟩
    conv_lhs => rw [hp]
    unfold pieces
    rw [splitAll_append_cons rfl, ← pieces, pieces_takeWhile]
    rfl

theorem later_eq (p : Path) : later p =
    (ofPiece false (p.takeWhile (· != '/'))).toList ++ later (p.dropWhile (· != '/')) := by
  obtain ⟨ps, hps, hl⟩ := pieces_eq_cons p
  rw [later, hps, List.filterMap_cons, ← hl]
  cases ofPiece false (p.takeWhile (· != '/')) <;> rfl

/-! ### Slashes and dots at the ends -/

theorem later_dropIdle (p : Path) : later (dropIdle p) = later p := by
  fun_induction dropIdle p with
  | case1 => rfl
  | case2 p ih => rw [ih, later_slash]
  | case3 p ih => rw [ih]; exact (later_append_slash ['.'] p).symm
  | case4 => rfl
  | case5 => rfl

theorem exists_ofPiece {q : Text} (hnil : q ≠ []) (hdot : q ≠ ['.']) (leads : Bool) :
    ∃ c, ofPiece leads q = some c := by
  unfold ofPiece
  rw [if_neg hnil, if_neg hdot]
  split_ifs
  · exact ⟨_, rfl⟩
  · exact ⟨_, rfl⟩

/-- What is left starts with a component, if anything is left. -/
theorem ofPiece_dropIdle (p : Path) : dropIdle p = [] ∨
    ∃ c, ofPiece false ((dropIdle p).takeWhile (· != '/')) = some c := by
  fun_induction dropIdle p with
  | case1 => exact Or.inl rfl
  | case2 p ih => exact ih
  | case3 p ih => exact ih
  | case4 => exact Or.inl rfl
  | case5 c p hslash hdotSlash hdot =>
    have hc : c ≠ '/' := fun h => hslash h
    have htake : (c :: p).takeWhile (· != '/') = c :: p.takeWhile (· != '/') :=
      List.takeWhile_cons_of_pos (by simpa using hc)
    rw [htake]
    refine Or.inr (exists_ofPiece (by simp) (fun h => ?_) false)
    obtain ⟨rfl, hp⟩ := List.cons.inj h
    rcases takeWhile_append_dropWhile_slash p with ⟨-, ht⟩ | ⟨x, -, ht⟩
    · exact hdot rfl (ht.symm.trans hp)
    · rw [hp] at ht
      exact hdotSlash x rfl ht

theorem head?_dropIdle (p : Path) : (dropIdle p).head? ≠ some '/' := by
  intro h
  obtain ⟨x, hx⟩ := List.head?_eq_some_iff.mp h
  rcases ofPiece_dropIdle p with hp | ⟨c, hc⟩
  · simp [hp] at hx
  · rw [hx] at hc
    simp [ofPiece] at hc

theorem later_dropIdleEnd (q : Path) : later (dropIdleEnd q).reverse = later q.reverse := by
  fun_induction dropIdleEnd q with
  | case1 p ih =>
    rw [ih, List.reverse_cons, later_append_slash, later_nil, List.append_nil]
  | case2 p ih =>
    rw [ih, List.reverse_cons, List.reverse_cons, List.append_assoc, List.singleton_append,
      later_append_slash, later_dot, List.append_nil]
  | case3 => rfl

theorem later_trimEnd {p : Path} (h : p.head? ≠ some '/') : later (trimEnd p) = later p := by
  have htrim : trimEnd p = (dropIdleEnd p.reverse).reverse := by
    unfold trimEnd
    split
    · exact absurd rfl h
    · rfl
  rw [htrim, later_dropIdleEnd, List.reverse_reverse]

/-! ### Taking off components -/

theorem exists_dropComponents {cs : List Component} : ∀ {p : Path}, cs <+: later p →
    ∃ r, dropComponents cs p = some r ∧ later p = cs ++ later r := by
  induction cs with
  | nil => exact fun {p} _ => ⟨p, rfl, rfl⟩
  | cons c cs ih =>
    intro p h
    rw [← later_dropIdle] at h
    rcases ofPiece_dropIdle p with hnil | ⟨c', hc'⟩
    · rw [hnil, later_nil] at h
      exact absurd (List.prefix_nil.mp h) (List.cons_ne_nil c cs)
    · have hlater := later_eq (dropIdle p)
      rw [hc', Option.toList_some, List.singleton_append] at hlater
      rw [hlater] at h
      obtain ⟨rfl, hcs⟩ := List.cons_prefix_cons.mp h
      obtain ⟨r, hr, hl⟩ := ih hcs
      refine ⟨r, ?_, ?_⟩
      · rw [dropComponents, if_pos hc', hr]
      · rw [← later_dropIdle, hlater, hl, List.cons_append]

theorem components_slash (x : Path) : components ('/' :: x) = .root :: later x := rfl

theorem components_of_pieces {p : Path} {a : Text} {r : List Text} (h : p.head? ≠ some '/')
    (hp : pieces p = a :: r) :
    components p = (ofPiece true a).toList ++ r.filterMap (ofPiece false) := by
  unfold components
  split
  · exact absurd rfl h
  · rw [hp]

theorem components_eq {p : Path} (h : p.head? ≠ some '/') : components p =
    (ofPiece true (p.takeWhile (· != '/'))).toList ++ later (p.dropWhile (· != '/')) := by
  obtain ⟨ps, hps, hl⟩ := pieces_eq_cons p
  rw [components_of_pieces h hps, hl]

/-- A path that does not start with a slash starts with a component. -/
theorem exists_leading {p : Path} (hp : p ≠ []) (h : p.head? ≠ some '/') :
    ∃ c, ofPiece true (p.takeWhile (· != '/')) = some c := by
  have hnil : p.takeWhile (· != '/') ≠ [] := by
    intro hnil
    rcases takeWhile_append_dropWhile_slash p with ⟨-, ht⟩ | ⟨x, -, ht⟩
    · exact hp (ht.symm.trans hnil)
    · rw [hnil] at ht
      exact h (by rw [ht]; rfl)
  by_cases hdot : p.takeWhile (· != '/') = ['.']
  · rw [hdot]
    exact ⟨.current, rfl⟩
  · exact exists_ofPiece hnil hdot true

theorem exists_dropLeading {c : Component} {cs : List Component} {p : Path}
    (h : c :: cs <+: components p) :
    ∃ r, dropLeading c cs p = some r ∧ components p = c :: cs ++ later r := by
  have hp : p ≠ [] := by
    rintro rfl
    exact absurd (List.prefix_nil.mp h) (List.cons_ne_nil c cs)
  unfold dropLeading
  split
  · rw [components_slash] at h ⊢
    obtain ⟨rfl, hcs⟩ := List.cons_prefix_cons.mp h
    obtain ⟨r, hr, hl⟩ := exists_dropComponents hcs
    exact ⟨r, by rw [if_pos rfl, hr], by rw [hl, List.cons_append]⟩
  · next hslash =>
    have hhead : p.head? ≠ some '/' := by
      intro hs
      obtain ⟨x, rfl⟩ := List.head?_eq_some_iff.mp hs
      exact hslash x rfl
    obtain ⟨c', hc'⟩ := exists_leading hp hhead
    rw [components_eq hhead, hc', Option.toList_some, List.singleton_append] at h ⊢
    obtain ⟨rfl, hcs⟩ := List.cons_prefix_cons.mp h
    obtain ⟨r, hr, hl⟩ := exists_dropComponents hcs
    exact ⟨r, by rw [if_pos rfl, hr], by rw [hl, List.cons_append]⟩

theorem components_ne_nil {p : Path} (hp : p ≠ []) : components p ≠ [] := by
  by_cases hhead : p.head? = some '/'
  · obtain ⟨x, rfl⟩ := List.head?_eq_some_iff.mp hhead
    rw [components_slash]
    exact List.cons_ne_nil _ _
  · obtain ⟨c, hc⟩ := exists_leading hp hhead
    rw [components_eq hhead, hc]
    exact List.cons_ne_nil _ _

/-! ### Paths as they are reported -/

/-- **A path below a root** has the components of the root and those of what is reported for it. -/
theorem components_eq_append {root p : Path} (hroot : root ≠ [])
    (h : components root <+: components p) :
    components p = components root ++ later (relative root p) := by
  obtain ⟨c, cs, hcs⟩ := List.exists_cons_of_ne_nil (components_ne_nil hroot)
  rw [hcs] at h ⊢
  obtain ⟨r, hr, hp⟩ := exists_dropLeading h
  have hbelow : below? root p = some (trimEnd (dropIdle r)) := by
    rw [below?, hcs]
    simp only [hr, Option.map_some]
  have hlater : later (trimEnd (dropIdle r)) = later r := by
    rw [later_trimEnd (head?_dropIdle r), later_dropIdle]
  rw [hp, ← hlater, relative, hbelow]
  split
  · next hnil => rw [Option.some.inj hnil, later_nil, later_dot]
  · next hsome => rw [Option.some.inj hsome]
  · next hnone => cases hnone

theorem components_eq_of_relative_eq {root p q : Path} (hroot : root ≠ [])
    (hp : components root <+: components p) (hq : components root <+: components q)
    (h : relative root p = relative root q) : components p = components q := by
  rw [components_eq_append hroot hp, components_eq_append hroot hq, h]

/-! ### Paths that start with a root -/

theorem components_append_slash {s : Path} (hs : s ≠ []) (x : Path) :
    components (s ++ '/' :: x) = components s ++ later x := by
  obtain ⟨c, s, rfl⟩ := List.exists_cons_of_ne_nil hs
  by_cases hc : c = '/'
  · subst hc
    rw [List.cons_append, components_slash, components_slash, later_append_slash, List.cons_append]
  · obtain ⟨a, r, hpieces⟩ : ∃ a r, pieces (c :: s) = a :: r :=
      List.exists_cons_of_ne_nil (splitAll_ne_nil (· == '/') (c :: s))
    have happend : pieces (c :: s ++ '/' :: x) = a :: (r ++ pieces x) := by
      rw [← List.cons_append, ← hpieces]
      exact splitAll_append_cons rfl (c :: s) x
    rw [components_of_pieces (by simpa using hc) hpieces,
      components_of_pieces (by simpa using hc) happend, List.filterMap_append, List.append_assoc]
    rfl

/-- A path that goes on from a root behind a slash has the components of the root in front. -/
theorem components_prefix {root rest : Path} (hroot : root ≠ [])
    (h : rest = [] ∨ root.getLast? = some '/' ∨ rest.head? = some '/') :
    components root <+: components (root ++ rest) := by
  rcases h with rfl | hlast | hhead
  · simp
  · obtain ⟨s, rfl⟩ := List.getLast?_eq_some_iff.mp hlast
    rw [List.append_assoc, List.singleton_append]
    by_cases hs : s = []
    · subst hs
      exact List.cons_prefix_cons.mpr ⟨rfl, List.nil_prefix⟩
    · rw [components_append_slash hs, components_append_slash hs, later_nil, List.append_nil]
      exact List.prefix_append ..
  · obtain ⟨x, rfl⟩ := List.head?_eq_some_iff.mp hhead
    rw [components_append_slash hroot]
    exact List.prefix_append ..

end ActionItems.Path
