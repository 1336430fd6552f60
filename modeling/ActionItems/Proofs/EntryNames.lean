import ActionItems.Proofs.WalkPaths

/-!
# The names of entries

No entry of a file tree has an empty name, one or two dots for a name, or a slash in it
(`isName_of_mem_names`). So the path of an entry, which is spelt by putting name behind name, has
the pieces that were put together (`foldl_joinName`, `pieces_pathOf`), and its components are those
of the directory that it starts from and then the names (`exists_components`). Hence the path of an
entry is determined by its components (`eq_of_components`), and its file name is the last name
(`exists_fileName?`).
-/

namespace ActionItems

namespace FileTree

/-! ### Names -/

theorem IsName.ne_nil {n : Name} (h : IsName n) : n ≠ [] := by
  rintro rfl
  cases h.1

theorem IsName.getLast?_ne {n : Name} (h : IsName n) : n.getLast? ≠ some slash :=
  fun hlast => h.2.2 (List.mem_of_getLast? hlast)

theorem mem_names_iff {t : FileTree} {dir : Location} {name : Name} :
    name ∈ t.names dir ↔ ∃ e, (dir ++ [name], e) ∈ t.entries := by
  unfold names
  rw [List.mem_filterMap]
  constructor
  · rintro ⟨⟨l, e⟩, hmem, hname⟩
    cases hlast : l.getLast? with
    | none => simp [hlast] at hname
    | some n =>
      obtain ⟨l', rfl⟩ := List.getLast?_eq_some_iff.mp hlast
      simp only [hlast, List.dropLast_concat, Option.ite_none_right_eq_some,
        Option.some.injEq] at hname
      obtain ⟨rfl, rfl⟩ := hname
      exact ⟨e, hmem⟩
  · rintro ⟨e, hmem⟩
    exact ⟨(dir ++ [name], e), hmem, by simp⟩

theorem mem_names_iff_find? {t : FileTree} {dir : Location} {name : Name} :
    name ∈ t.names dir ↔ (t.find? (dir ++ [name])).isSome = true := by
  rw [mem_names_iff, find?, if_neg (by simp), List.lookup_isSome_iff]
  constructor
  · rintro ⟨e, hmem⟩
    exact ⟨_, hmem, beq_self_eq_true _⟩
  · rintro ⟨⟨l, e⟩, hmem, hl⟩
    obtain rfl := beq_iff_eq.mp hl
    exact ⟨e, hmem⟩

theorem isName_of_mem_names {t : FileTree} {dir : Location} {name : Name}
    (hname : name ∈ t.names dir) : IsName name := by
  obtain ⟨e, hmem⟩ := mem_names_iff.mp hname
  exact (t.isListing.2 _ hmem).2 name (by simp)

/-! ### Pieces -/

/-- The pieces are those of the standard library. -/
theorem pieces_eq_splitOnP (bs : Bytes) : pieces bs = bs.splitOnP (· == slash) := by
  induction bs with
  | nil => rfl
  | cons b bs ih =>
    rw [pieces, ih, List.splitOnP_cons_eq_if_modifyHead]
    cases h : bs.splitOnP (· == slash) with
    | nil => exact absurd h (List.splitOnP_ne_nil _ bs)
    | cons a r => by_cases hb : b = slash <;> simp [hb]

theorem pieces_append_slash (a b : Bytes) : pieces (a ++ slash :: b) = pieces a ++ pieces b := by
  simp only [pieces_eq_splitOnP]
  exact List.splitOnP_append_cons a b (beq_self_eq_true slash)

theorem pieces_of_not_mem {a : Bytes} (h : slash ∉ a) : pieces a = [a] := by
  rw [pieces_eq_splitOnP]
  refine List.splitOnP_eq_singleton fun b hb => beq_eq_false_iff_ne.mpr ?_
  rintro rfl
  exact h hb

theorem pieces_append_of_not_mem {a : Bytes} (h : slash ∉ a) (b : Bytes) :
    pieces (a ++ b) = (pieces b).modifyHead (a ++ ·) := by
  induction a with
  | nil => cases hp : pieces b <;> simp [hp]
  | cons x a ih =>
    have hx : x ≠ slash := fun he => h (he ▸ List.mem_cons_self)
    have hrest := ih fun hmem => h (List.mem_cons_of_mem _ hmem)
    obtain ⟨q, qs, hq⟩ := List.exists_cons_of_ne_nil
      (show pieces b ≠ [] by rw [pieces_eq_splitOnP]; exact List.splitOnP_ne_nil _ b)
    rw [List.cons_append, pieces, hrest, hq]
    simp [hx]

theorem slash_notMem_encodeChar {c : Char} (h : c ≠ '/') : slash ∉ Utf8.encodeChar c := by
  have hcode : c.toNat ≠ 0x2F := fun he => h (by rw [← Char.ofNat_toNat c, he])
  have hbound : c.toNat < 0x110000 := by
    rcases c.valid with hv | hv
    · exact Nat.lt_trans hv (by decide)
    · exact hv.2
  unfold Utf8.encodeChar slash
  dsimp only
  split_ifs <;> simp [← UInt8.toNat_inj, UInt8.toNat_ofNat'] <;> omega

/-- A slash is a byte of no other character, so a text and its bytes have the same pieces. -/
theorem pieces_encode (s : Path) : pieces (Utf8.encode s) = (Path.pieces s).map Utf8.encode := by
  induction s with
  | nil => rfl
  | cons c s ih =>
    rw [Utf8.encode_cons]
    by_cases hc : c = '/'
    · subst hc
      rw [show Utf8.encodeChar '/' ++ Utf8.encode s = [] ++ slash :: Utf8.encode s from rfl,
        pieces_append_slash, ih,
        Path.pieces, Path.pieces, Text.splitAll_cons_of_pos rfl]
      rfl
    · obtain ⟨a, r, hs, hcons⟩ :=
        Text.exists_splitAll_cons_of_neg (p := (· == '/')) (by simpa using hc) s
      rw [pieces_append_of_not_mem (slash_notMem_encodeChar hc), ih, Path.pieces, Path.pieces, hs,
        hcons]
      simp [Utf8.encode_cons]

theorem pieces_pathOf {names : List Name} (hne : names ≠ []) (h : ∀ n ∈ names, IsName n) :
    pieces (pathOf names) = names := by
  fun_induction pathOf names with
  | case1 => exact absurd rfl hne
  | case2 name => exact pieces_of_not_mem (h name List.mem_cons_self).2.2
  | case3 name b r ih =>
    rw [pieces_append_slash, pieces_of_not_mem (h name List.mem_cons_self).2.2,
      ih (List.cons_ne_nil b r) fun n hn => h n (List.mem_cons_of_mem _ hn)]
    rfl

/-! ### Joining -/

theorem joinName_eq (dir : Bytes) : ∃ sep, ∀ name, joinName dir name = dir ++ sep ++ name := by
  by_cases hdir : dir = [] ∨ dir.getLast? = some slash
  · exact ⟨[], fun name => by rw [joinName, if_pos hdir, List.append_nil]⟩
  · exact ⟨[slash], fun name => by rw [joinName, if_neg hdir]; simp⟩

theorem joinName_joinName (dir : Bytes) {a : Name} (ha : IsName a) (b : Bytes) :
    joinName (joinName dir a) b = joinName dir (a ++ slash :: b) := by
  obtain ⟨sep, hsep⟩ := joinName_eq dir
  have hnot : ¬(joinName dir a = [] ∨ (joinName dir a).getLast? = some slash) := by
    rw [hsep a, List.getLast?_append_of_ne_nil _ ha.ne_nil]
    rintro (hnil | hlast)
    · exact ha.ne_nil (List.append_eq_nil_iff.mp hnil).2
    · exact ha.getLast?_ne hlast
  rw [joinName, if_neg hnot, hsep, hsep]
  simp

theorem foldl_joinName (dir : Bytes) {names : List Name} (hne : names ≠ [])
    (h : ∀ n ∈ names, IsName n) :
    names.foldl joinName dir = joinName dir (pathOf names) := by
  fun_induction pathOf names generalizing dir with
  | case1 => exact absurd rfl hne
  | case2 name => rfl
  | case3 name b r ih =>
    rw [List.foldl_cons, ih (joinName dir name) (List.cons_ne_nil b r) fun n hn =>
      h n (List.mem_cons_of_mem _ hn),
      joinName_joinName dir (h name List.mem_cons_self)]

end FileTree

open FileTree

namespace Path

/-! ### Components -/

theorem components_append_of_slash {root : Path} (h : root.getLast? = some '/') (q : Path) :
    components (root ++ q) = components root ++ later q := by
  obtain ⟨s, rfl⟩ := List.getLast?_eq_some_iff.mp h
  rw [List.append_assoc, List.singleton_append]
  by_cases hs : s = []
  · subst hs
    rfl
  · rw [components_append_slash hs, components_append_slash hs, later_nil, List.append_nil]

theorem ofPiece_of_isName {s : Text} (h : IsName (Utf8.encode s)) (leads : Bool) :
    ofPiece leads s = some (.name s) := by
  obtain ⟨hidle, hparent, -⟩ := h
  have hnil : s ≠ [] := by rintro rfl; cases hidle
  have hdot : s ≠ ['.'] := by rintro rfl; cases hidle
  have hdots : s ≠ ['.', '.'] := by rintro rfl; cases hparent
  rw [ofPiece, if_neg hnil, if_neg hdot, if_neg hdots]

/-- The components of the rest of a path that puts names together. -/
theorem exists_later {q : Path} {names : List Name} (hne : names ≠ []) (h : ∀ n ∈ names, IsName n)
    (hq : Utf8.encode q = pathOf names) :
    ∃ texts : List Text, names = texts.map Utf8.encode ∧ later q = texts.map .name := by
  have hnames : (pieces q).map Utf8.encode = names := by
    rw [← pieces_encode, hq, pieces_pathOf hne h]
  refine ⟨pieces q, hnames.symm, ?_⟩
  have hname : ∀ s ∈ pieces q, ofPiece false s = some (.name s) := fun s hs =>
    ofPiece_of_isName (h _ (hnames ▸ List.mem_map_of_mem hs)) false
  rw [later, List.filterMap_congr hname]
  exact congrFun List.filterMap_eq_map _

/-- **The path of an entry** has the components of the directory that it starts from, and then its
names. -/
theorem exists_components {root p : Path} {names : List Name} (hroot : root ≠ [])
    (h : ∀ n ∈ names, IsName n)
    (hp : Utf8.encode p = names.foldl joinName (Utf8.encode root)) :
    ∃ texts : List Text, names = texts.map Utf8.encode ∧
      components p = components root ++ texts.map .name := by
  by_cases hne : names = []
  · subst hne
    rw [Utf8.encode_injective hp]
    exact ⟨[], rfl, (List.append_nil _).symm⟩
  · rw [foldl_joinName _ hne h, joinName] at hp
    split_ifs at hp with hend
    · have hlast := hend.resolve_left fun he => hroot (Utf8.encode_eq_nil.mp he)
      obtain ⟨q, rfl, hq⟩ := Utf8.exists_of_encode_append hp.symm
      obtain ⟨texts, htexts, hlater⟩ := exists_later hne h hq
      exact ⟨texts, htexts, by rw [components_append_of_slash (getLast?_encode hlast), hlater]⟩
    · obtain ⟨q', rfl, hq'⟩ := Utf8.exists_of_encode_append hp.symm
      obtain ⟨q, rfl, hq⟩ := Utf8.exists_of_encode_append (r := ['/']) hq'.symm
      obtain ⟨texts, htexts, hlater⟩ := exists_later hne h hq
      exact ⟨texts, htexts, by rw [List.singleton_append, components_append_slash hroot, hlater]⟩

/-- Two spellings of an entry's path, by its names, are one. -/
theorem eq_of_components {root p q : Path} {names names' : List Name} (hroot : root ≠ [])
    (h : ∀ n ∈ names, IsName n) (h' : ∀ n ∈ names', IsName n)
    (hp : Utf8.encode p = names.foldl joinName (Utf8.encode root))
    (hq : Utf8.encode q = names'.foldl joinName (Utf8.encode root))
    (heq : components p = components q) : p = q := by
  obtain ⟨texts, rfl, hcomponents⟩ := exists_components hroot h hp
  obtain ⟨texts', rfl, hcomponents'⟩ := exists_components hroot h' hq
  have hmap : texts.map Component.name = texts'.map Component.name := by
    rw [hcomponents, hcomponents'] at heq
    exact List.append_cancel_left heq
  have htexts : texts = texts' :=
    List.map_injective_iff.mpr (fun _ _ h => Component.name.inj h) hmap
  exact Utf8.encode_injective (by rw [hp, hq, htexts])

/-! ### File names -/

theorem exists_fileName? {p : Path} {n : Bytes}
    (hlast : (FileTree.pieces (Utf8.encode p)).getLast? = some n)
    (hn : IsName n) : ∃ s, Utf8.encode s = n ∧ fileName? p = some s := by
  rw [pieces_encode, List.getLast?_map] at hlast
  obtain ⟨s, hs, rfl⟩ := Option.map_eq_some_iff.mp hlast
  refine ⟨s, rfl, ?_⟩
  obtain ⟨ps, hps⟩ := List.getLast?_eq_some_iff.mp hs
  have hcomponents : ∃ cs, components p = cs ++ [.name s] := by
    unfold components
    split
    · next r =>
      rw [pieces, Text.splitAll_cons_of_pos rfl, ← pieces] at hps
      cases ps with
      | nil =>
        obtain ⟨rfl, -⟩ := List.cons.inj hps
        exact absurd rfl hn.ne_nil
      | cons a ps =>
        obtain ⟨-, hr⟩ := List.cons.inj hps
        exact ⟨.root :: ps.filterMap (ofPiece false), by simp [hr, ofPiece_of_isName hn]⟩
    · rw [hps]
      cases ps with
      | nil => exact ⟨[], by simp [ofPiece_of_isName hn]⟩
      | cons a ps =>
        exact ⟨(ofPiece true a).toList ++ ps.filterMap (ofPiece false),
          by simp [ofPiece_of_isName hn]⟩
  obtain ⟨cs, hcs⟩ := hcomponents
  rw [fileName?, hcs, List.getLast?_concat]

end Path

end ActionItems
