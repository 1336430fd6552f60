import ActionItems.Proofs.EntryNames
import ActionItems.Proofs.FileTreeWrites

/-!
# Trees without links

Where no entry is a link (`HasNoLinks`), a path that goes on from a directory is followed from where
the directory is (`follow_append`). So the path of an entry, which is the path of its directory and
the name, leads to the entry of that name in the directory, if anywhere (`eq_of_open?_joinName`),
and two trees in which this entry is the same do not differ in it (`open?_joinName_eq`).

A path at which a file is made ends with the name of the file (`Arrives.getLast?`), and a tree
without links has none with the file either (`HasNoLinks.put`).
-/

namespace ActionItems.FileTree

variable {t t' : FileTree} {purpose : Purpose} {n : Nat} {dir l : Location} {ps : List Bytes}

/-- No entry of a tree is a link. -/
def HasNoLinks (t : FileTree) : Prop := ∀ x ∈ t.entries, ∀ target, x.2 ≠ .link target

theorem HasNoLinks.find?_ne (h : t.HasNoLinks) (l : Location) (target : Bytes) :
    t.find? l ≠ some (.link target) := by
  intro hfind
  by_cases hl : l = []
  · rw [hl, find?_nil] at hfind
    cases hfind
  · rw [find?_of_ne_nil t hl] at hfind
    obtain ⟨xs, ys, hentries, -⟩ := List.lookup_eq_some_iff.mp hfind
    exact h (l, .link target) (by simp [hentries]) target rfl

/-! ### Paths that go on -/

theorem follow_append (hlinks : t.HasNoLinks) (h : t.follow .entry n dir ps = .ok l)
    (hl : t.find? l = some .directory) (qs : List Bytes) :
    t.follow .entry n dir (ps ++ qs) = t.follow .entry n l qs := by
  have harrives := arrives_of_follow h
  clear h
  induction harrives with
  | here n dir => rfl
  | idle hp _ ih => rw [List.cons_append, follow_idle hp, ih hl]
  | parent hidle hp _ ih => rw [List.cons_append, follow_parent hidle hp, ih hl]
  | new _ _ hpurpose => cases hpurpose
  | directory hp hfind _ ih => rw [List.cons_append, follow_directory hp hfind, ih hl]
  | itself _ _ hpurpose => cases hpurpose
  | link _ hfind _ _ _ => exact absurd hfind (hlinks.find?_ne _ _)
  | file _ hfind hdir _ =>
    rw [hfind] at hl
    exact absurd (Option.some.inj hl) hdir

/-- A path that stays in its directory at the end arrives there before. -/
theorem Arrives.of_append_idle {q : Bytes} (hq : isIdle q = true)
    (h : Arrives t .entry n dir (ps ++ [q]) l) :
    Arrives t .entry n dir ps l := by
  generalize hqs : ps ++ [q] = qs at h
  induction h generalizing ps with
  | here n dir => simp at hqs
  | idle hp h ih =>
    cases ps with
    | nil =>
      cases hqs
      exact h
    | cons p ps =>
      cases hqs
      exact .idle hp (ih rfl)
  | parent hidle hp _ ih =>
    cases ps with
    | nil =>
      cases hqs
      rw [hq] at hidle
      cases hidle
    | cons p ps =>
      cases hqs
      exact .parent hidle hp (ih rfl)
  | new _ _ hpurpose => cases hpurpose
  | directory hp hfind _ ih =>
    cases ps with
    | nil =>
      cases hqs
      exact absurd hq (Bool.eq_false_iff.mp hp.1)
    | cons p ps =>
      cases hqs
      exact .directory hp hfind (ih rfl)
  | itself _ _ hpurpose => cases hpurpose
  | link hp hfind hpurpose _ ih =>
    cases ps with
    | nil =>
      cases hqs
      exact absurd hq (Bool.eq_false_iff.mp hp.1)
    | cons p ps =>
      cases hqs
      exact .link hp hfind (by simp) (ih (List.append_assoc ..))
  | file hp _ _ _ =>
    cases ps with
    | nil =>
      cases hqs
      exact absurd hq (Bool.eq_false_iff.mp hp.1)
    | cons p ps => simp at hqs

/-- The pieces of the path of an entry: a slash at the end of the path of its directory does not
count. -/
theorem exists_pieces_joinName {path : Bytes} (hpath : path ≠ []) {name : Name}
    (hname : IsName name) :
    ∃ init, pieces (joinName path name) = init ++ [name] ∧
      (pieces path = init ∨ pieces path = init ++ [[]]) := by
  have hpieces : pieces name = [name] := pieces_of_not_mem hname.2.2
  by_cases hlast : path.getLast? = some slash
  · obtain ⟨init, rfl⟩ := List.getLast?_eq_some_iff.mp hlast
    refine ⟨pieces init, ?_, Or.inr (pieces_append_slash init [])⟩
    rw [joinName, if_pos (Or.inr hlast), List.append_assoc, List.singleton_append,
      pieces_append_slash, hpieces]
  · refine ⟨pieces path, ?_, Or.inl rfl⟩
    rw [joinName, if_neg (by simp [hpath, hlast]), pieces_append_slash, hpieces]

theorem isAbsolute_joinName {path : Bytes} (hpath : path ≠ []) (name : Name) :
    isAbsolute (joinName path name) = isAbsolute path := by
  obtain ⟨b, bs, rfl⟩ := List.exists_cons_of_ne_nil hpath
  unfold joinName
  split_ifs <;> rfl

/-- The same, counted from the top. -/
theorem exists_fromTop_joinName (t : FileTree) {path : Bytes} (hpath : path ≠ []) {name : Name}
    (hname : IsName name) : ∃ init, t.fromTop (joinName path name) = init ++ [name] ∧
      (t.fromTop path = init ∨ t.fromTop path = init ++ [[]]) := by
  obtain ⟨init, hjoin, hinit⟩ := exists_pieces_joinName hpath hname
  unfold fromTop
  rw [isAbsolute_joinName hpath, hjoin]
  split_ifs
  · exact ⟨init, rfl, hinit⟩
  · refine ⟨t.current ++ init, (List.append_assoc ..).symm, hinit.imp (fun h => ?_) fun h => ?_⟩
    · rw [h]
    · rw [h, List.append_assoc]

theorem getLast?_pieces_joinName (path : Bytes) {name : Name} (hname : IsName name) :
    (pieces (joinName path name)).getLast? = some name := by
  by_cases hpath : path = []
  · rw [joinName, if_pos (Or.inl hpath), hpath, List.nil_append, pieces_of_not_mem hname.2.2]
    rfl
  · obtain ⟨init, hpieces, -⟩ := exists_pieces_joinName hpath hname
    rw [hpieces, List.getLast?_concat]

theorem follow_joinName (hlinks : t.HasNoLinks) {path : Bytes}
    (hopen : t.open? path = .ok (l, .directory)) {name : Name} (hname : IsName name) :
    t.follow .entry maxLinks [] (t.fromTop (joinName path name)) =
      t.follow .entry maxLinks l [name] := by
  obtain ⟨hlocate, hfind⟩ := open?_eq_ok_iff.mp hopen
  obtain ⟨hsound, harrives⟩ := locate_eq_ok_iff.mp hlocate
  obtain ⟨init, hjoin, hinit⟩ := exists_fromTop_joinName t hsound.ne_nil hname
  have hway : Arrives t .entry maxLinks [] init l := by
    rcases hinit with heq | heq
    · exact heq ▸ harrives
    · exact (heq ▸ harrives).of_append_idle rfl
  rw [hjoin, follow_append hlinks (follow_of_arrives hway) hfind]

/-! ### Entries of a directory -/

theorem eq_of_arrives_name {name : Name} (hname : IsName name) (hlinks : t.HasNoLinks)
    (h : Arrives t .entry n dir [name] l) : l = dir ++ [name] := by
  cases h with
  | idle hp _ => exact absurd hp (Bool.eq_false_iff.mp hname.1)
  | parent _ hp _ => exact absurd hp (Bool.eq_false_iff.mp hname.2.1)
  | new _ _ _ => rfl
  | directory _ _ h =>
    cases h
    rfl
  | itself _ _ _ => rfl
  | link _ hfind _ _ => exact absurd hfind (hlinks.find?_ne _ _)
  | file _ _ _ _ => rfl

theorem eq_of_open?_joinName (hlinks : t.HasNoLinks) {path : Bytes}
    (hopen : t.open? path = .ok (l, .directory))
    {name : Name} (hname : IsName name) {l' : Location} {e : Entry}
    (h : t.open? (joinName path name) = .ok (l', e)) :
    l' = l ++ [name] ∧ t.find? (l ++ [name]) = some e := by
  obtain ⟨hlocate, hfind⟩ := open?_eq_ok_iff.mp h
  have hfollow := follow_of_arrives (locate_eq_ok_iff.mp hlocate).2
  rw [follow_joinName hlinks hopen hname] at hfollow
  have heq := eq_of_arrives_name hname hlinks (arrives_of_follow hfollow)
  exact ⟨heq, heq ▸ hfind⟩

theorem follow_name_eq (hlinks : t.HasNoLinks) {name : Name} (hname : IsName name)
    (hsame : t'.find? (dir ++ [name]) = t.find? (dir ++ [name])) :
    t'.follow .entry n dir [name] = t.follow .entry n dir [name] := by
  cases hfind : t.find? (dir ++ [name]) with
  | none =>
    rw [hfind] at hsame
    cases n <;> simp [follow, followWith, hname.1, hname.2.1, hfind, hsame]
  | some e =>
    rw [hfind] at hsame
    cases e with
    | link target => exact absurd hfind (hlinks.find?_ne _ _)
    | _ => cases n <;> simp [follow, followWith, hname.1, hname.2.1, hfind, hsame]

/-- A path that is refused as such is refused in every tree. -/
theorem locate_of_not_isSound {path : Bytes} (h : ¬IsSound path) :
    t'.locate purpose path = t.locate purpose path := by
  unfold locate
  split_ifs with hzero hnil hlen
  · rfl
  · rfl
  · rfl
  · exact absurd ⟨hzero, hnil, Nat.lt_of_not_le hlen⟩ h

/-- What the path of an entry leads to depends on the entry only. -/
theorem open?_joinName_eq (hlinks : t.HasNoLinks) (hlinks' : t'.HasNoLinks) {path : Bytes}
    (hopen : t.open? path = .ok (l, .directory)) (hopen' : t'.open? path = .ok (l, .directory))
    {name : Name}
    (hname : IsName name) (hsame : t'.find? (l ++ [name]) = t.find? (l ++ [name])) :
    t'.open? (joinName path name) = t.open? (joinName path name) := by
  have hlocate : t'.locate .entry (joinName path name) = t.locate .entry (joinName path name) := by
    by_cases hsound : IsSound (joinName path name)
    · rw [locate_of_isSound hsound, locate_of_isSound hsound, follow_joinName hlinks hopen hname,
        follow_joinName hlinks' hopen' hname, follow_name_eq hlinks hname hsame]
    · exact locate_of_not_isSound hsound
  unfold open?
  rw [hlocate]
  cases h : t.locate .entry (joinName path name) with
  | error e => rfl
  | ok m =>
    have hfollow := follow_of_arrives (locate_eq_ok_iff.mp h).2
    rw [follow_joinName hlinks hopen hname] at hfollow
    obtain rfl := eq_of_arrives_name hname hlinks (arrives_of_follow hfollow)
    simp only [hsame]

/-! ### The name of a new file -/

/-- The path of a file ends with its name. -/
theorem Arrives.getLast? (hlinks : t.HasNoLinks) (h : Arrives t purpose n dir ps l)
    (hdir : t.IsWay dir)
    (hend : t.IsEnd l) : ∃ x, ps.getLast? = some x ∧ l.getLast? = some x := by
  have hcons : ∀ {p : Bytes} {ps : List Bytes} {l : Location},
    (∃ x, ps.getLast? = some x ∧ l.getLast? = some x) →
      ∃ x, (p :: ps).getLast? = some x ∧ l.getLast? = some x := by
    rintro p ps l ⟨x, hx, hl⟩
    exact ⟨x, by rw [List.getLast?_cons, hx]; rfl, hl⟩
  induction h with
  | here n dir => exact absurd (hdir dir List.prefix_rfl) hend.ne_directory
  | idle _ _ ih => exact hcons (ih hdir hend)
  | parent _ _ _ ih => exact hcons (ih hdir.dropLast hend)
  | @new _ dir p _ _ _ => exact ⟨p, rfl, List.getLast?_concat⟩
  | directory _ hfind _ ih => exact hcons (ih (hdir.append hfind) hend)
  | @itself _ dir p _ _ _ _ => exact ⟨p, rfl, List.getLast?_concat⟩
  | link _ hfind _ _ _ => exact absurd hfind (hlinks.find?_ne _ _)
  | @file _ dir p _ _ _ _ _ => exact ⟨p, rfl, List.getLast?_concat⟩

theorem getLast?_fromTop (t : FileTree) (path : Bytes) :
    (t.fromTop path).getLast? = (pieces path).getLast? := by
  unfold fromTop
  split_ifs
  · rfl
  · exact List.getLast?_append_of_ne_nil _ (pieces_ne_nil path)

/-! ### Writing -/

theorem mem_entries_put {e : Entry} {x : Location × Entry} (h : x ∈ (t.put l e).entries) :
    x = (l, e) ∨ x ∈ t.entries := by
  by_cases hl : IsPlace l
  · rw [entries_put hl] at h
    exact (mem_putEntry h).imp_right And.left
  · rw [put_of_not_isPlace hl] at h
    exact Or.inr h

theorem HasNoLinks.put (h : t.HasNoLinks) (l : Location) (content : Bytes) :
    (t.put l (.file content)).HasNoLinks := by
  intro x hx target
  rcases mem_entries_put hx with rfl | hx
  · simp
  · exact h x hx target

end ActionItems.FileTree
