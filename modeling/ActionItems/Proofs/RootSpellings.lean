import ActionItems.Proofs.RelativePath

/-! # Roots in any spelling

A root may be spelt with repeated or trailing slashes, with lone dots, or not at all. What is
reported for an entry below it does not show: `relative root` takes off the root again from a path
that was made by joining names to it, and leaves just the names with slashes between them
(`relative_foldl_join`).

What stays behind the components of a root goes on behind whatever slash follows
(`dropLeading_append_slash`), and the root itself leaves nothing but slashes and lone dots
(`exists_dropLeading_self`). Names keep their spelling since neither end of what was joined is a
slash or a lone dot (`dropIdle_join`, `trimEnd_join`). A path whose components do not begin with
those of the root is left as it is (`below?_eq_none`). -/

namespace ActionItems.Path

open Text

/-! ### Names of entries -/

/-- A text that names an entry of a directory. -/
structure IsEntryName (s : Text) : Prop where
  nonempty : s ≠ []
  not_current : s ≠ ['.']
  not_parent : s ≠ ['.', '.']
  no_slash : '/' ∉ s

theorem IsEntryName.ofPiece_eq {s : Text} (h : IsEntryName s) (leads : Bool) :
    ofPiece leads s = some (.name s) := by
  rw [ofPiece, if_neg h.nonempty, if_neg h.not_current, if_neg h.not_parent]

/-! ### What stays behind a slash -/

theorem takeWhile_append_slash (x q : Path) :
    (x ++ '/' :: q).takeWhile (· != '/') = x.takeWhile (· != '/') := by
  rw [List.takeWhile_append, List.takeWhile_cons_of_neg (by decide), List.append_nil]
  split_ifs with hlen
  · exact ((List.takeWhile_prefix _).eq_of_length hlen).symm
  · rfl

theorem dropWhile_append_slash (x q : Path) :
    (x ++ '/' :: q).dropWhile (· != '/') = x.dropWhile (· != '/') ++ '/' :: q := by
  rw [List.dropWhile_append, List.dropWhile_cons_of_neg (by decide)]
  split_ifs with hempty
  · rw [List.isEmpty_iff.mp hempty, List.nil_append]
  · rfl

theorem dropIdle_append_slash (p q : Path) :
    dropIdle (p ++ '/' :: q) = dropIdle (dropIdle p ++ '/' :: q) := by
  fun_induction dropIdle p with
  | case1 => rfl
  | case2 p ih => exact ih
  | case3 p ih => exact ih
  | case4 => rfl
  | case5 => rfl

/-- A path that begins with a component has nothing idle in front. -/
theorem dropIdle_eq_self {p : Path} {c : Component}
    (h : ofPiece false (p.takeWhile (· != '/')) = some c) :
    dropIdle p = p := by
  fun_cases dropIdle p with
  | case1 => rfl
  | case2 p => simp [ofPiece] at h
  | case3 p => simp [ofPiece] at h
  | case4 => simp [ofPiece] at h
  | case5 => rfl

theorem dropComponents_append_slash {cs : List Component} {p r : Path}
    (h : dropComponents cs p = some r) (q : Path) :
    dropComponents cs (p ++ '/' :: q) = some (r ++ '/' :: q) := by
  induction cs generalizing p with
  | nil =>
    obtain rfl : p = r := Option.some.inj h
    rfl
  | cons c cs ih =>
    rw [dropComponents] at h
    split_ifs at h with hc
    have hlead : ofPiece false ((dropIdle p ++ '/' :: q).takeWhile (· != '/')) = some c := by
      rw [takeWhile_append_slash, hc]
    have hidle : dropIdle (p ++ '/' :: q) = dropIdle p ++ '/' :: q := by
      rw [dropIdle_append_slash, dropIdle_eq_self hlead]
    rw [dropComponents, hidle]
    simp only [hlead, if_true]
    rw [dropWhile_append_slash]
    exact ih h

theorem dropLeading_append_slash {c : Component} {cs : List Component} {p r : Path}
    (h : dropLeading c cs p = some r)
    (q : Path) : dropLeading c cs (p ++ '/' :: q) = some (r ++ '/' :: q) := by
  cases p with
  | nil => simp [dropLeading, ofPiece] at h
  | cons d p =>
    by_cases hd : d = '/'
    · subst hd
      simp only [dropLeading, List.cons_append] at h ⊢
      split_ifs at h with hc
      rw [if_pos hc]
      exact dropComponents_append_slash h q
    · have hlead : ∀ x, dropLeading c cs (d :: x) =
          if ofPiece true ((d :: x).takeWhile (· != '/')) = some c then
            dropComponents cs ((d :: x).dropWhile (· != '/'))
          else none := by
        intro x
        unfold dropLeading
        split
        · next heq => exact absurd (List.cons.inj heq).1 hd
        · rfl
      rw [hlead] at h
      split_ifs at h with hc
      rw [List.cons_append, hlead, ← List.cons_append, takeWhile_append_slash,
        dropWhile_append_slash, if_pos hc]
      exact dropComponents_append_slash h q

/-! ### The root itself -/

theorem dropIdle_eq_nil {r : Path} (h : later r = []) : dropIdle r = [] := by
  rcases ofPiece_dropIdle r with hnil | ⟨c, hc⟩
  · exact hnil
  · have hlater := later_eq (dropIdle r)
    rw [later_dropIdle, h, hc] at hlater
    simp at hlater

/-- A path without its own components is idle. -/
theorem exists_dropLeading_self {c : Component} {cs : List Component} {p : Path}
    (h : components p = c :: cs) :
    ∃ r, dropLeading c cs p = some r ∧ dropIdle r = [] := by
  obtain ⟨r, hr, hp⟩ := exists_dropLeading (h ▸ List.prefix_rfl : c :: cs <+: components p)
  have hlater : later r = [] := by
    rw [h] at hp
    exact List.append_right_eq_self.mp hp.symm
  exact ⟨r, hr, dropIdle_eq_nil hlater⟩

theorem below?_self (root : Path) : below? root root = some [] := by
  cases hroot : components root with
  | nil =>
    have hnil : root = [] := by
      by_contra hne
      exact components_ne_nil hne hroot
    subst hnil
    rfl
  | cons c cs =>
    obtain ⟨r, hr, hidle⟩ := exists_dropLeading_self hroot
    simp only [below?, hroot, hr, Option.map_some, hidle]
    rfl

/-- What follows the slash behind a spelling of the root is below the root. -/
theorem below?_append_slash {root s : Path} (hs : s ≠ []) (h : components s = components root)
    (q : Path) :
    below? root (s ++ '/' :: q) = some (trimEnd (dropIdle q)) := by
  obtain ⟨c, cs, hcs⟩ := List.exists_cons_of_ne_nil (components_ne_nil hs)
  obtain ⟨r, hr, hidle⟩ := exists_dropLeading_self hcs
  have hdrop : dropLeading c cs (s ++ '/' :: q) = some (r ++ '/' :: q) :=
    dropLeading_append_slash hr q
  have hrest : dropIdle (r ++ '/' :: q) = dropIdle q := by
    rw [dropIdle_append_slash, hidle]
    rfl
  simp only [below?, ← h, hcs, hdrop, Option.map_some, hrest]

theorem below?_join {root : Path} (hroot : root ≠ []) (q : Path) :
    below? root (join root q) = some (trimEnd (dropIdle q)) := by
  unfold join
  split
  · next hlast => exact absurd (List.getLast?_eq_none_iff.mp hlast) hroot
  · next hlast =>
    obtain ⟨s, rfl⟩ := List.getLast?_eq_some_iff.mp hlast
    rw [List.append_assoc, List.singleton_append]
    by_cases hs : s = []
    · subst hs
      rfl
    · refine below?_append_slash hs ?_ q
      rw [components_append_slash hs, later_nil, List.append_nil]
  · exact below?_append_slash hroot rfl q

/-! ### Names joined to a root -/

theorem join_eq (dir : Path) : ∃ sep, ∀ q, join dir q = dir ++ sep ++ q := by
  unfold join
  split
  · next hlast =>
    rw [List.getLast?_eq_none_iff.mp hlast]
    exact ⟨[], fun q => rfl⟩
  · exact ⟨[], fun q => by rw [List.append_nil]⟩
  · exact ⟨['/'], fun q => by rw [List.append_assoc, List.singleton_append]⟩

theorem join_join (dir : Path) {a : Text} (ha : IsEntryName a) (q : Path) :
    join (join dir a) q = join dir (a ++ '/' :: q) := by
  obtain ⟨sep, hsep⟩ := join_eq dir
  have hlast : (join dir a).getLast? = a.getLast? := by
    rw [hsep, List.getLast?_append_of_ne_nil _ ha.nonempty]
  rw [join, hlast, hsep, hsep]
  split
  · next hnone => exact absurd (List.getLast?_eq_none_iff.mp hnone) ha.nonempty
  · next hslash => exact absurd (List.mem_of_getLast? hslash) ha.no_slash
  · simp

theorem foldl_join (dir : Path) {names : List Text} (hne : names ≠ [])
    (h : ∀ n ∈ names, IsEntryName n) :
    names.foldl join dir = join dir (Text.join ['/'] names) := by
  fun_induction Text.join ['/'] names generalizing dir with
  | case1 => exact absurd rfl hne
  | case2 name => rfl
  | case3 name b r ih =>
    rw [List.foldl_cons, ih (join dir name) (List.cons_ne_nil b r) fun n hn =>
      h n (List.mem_cons_of_mem _ hn),
      join_join dir (h name List.mem_cons_self)]
    simp

theorem exists_join_cons (n : Text) (names : List Text) :
    ∃ y, Text.join ['/'] (n :: names) = n ++ y ∧ (y = [] ∨ ∃ x, y = '/' :: x) := by
  cases names with
  | nil => exact ⟨[], (List.append_nil n).symm, Or.inl rfl⟩
  | cons b r =>
    refine ⟨'/' :: Text.join ['/'] (b :: r), ?_, Or.inr ⟨_, rfl⟩⟩
    rw [Text.join, List.append_assoc, List.singleton_append]

theorem exists_join_concat (names : List Text) (n : Text) :
    ∃ x, Text.join ['/'] (names ++ [n]) = x ++ n := by
  induction names with
  | nil => exact ⟨[], rfl⟩
  | cons a names ih =>
    obtain ⟨x, hx⟩ := ih
    obtain ⟨b, r, hbr⟩ := List.exists_cons_of_ne_nil
      (List.append_ne_nil_of_right_ne_nil names (List.cons_ne_nil n []))
    refine ⟨a ++ ['/'] ++ x, ?_⟩
    rw [List.cons_append, hbr, Text.join, ← hbr, hx, List.append_assoc, List.append_assoc,
      List.append_assoc]

theorem join_ne_nil {names : List Text} (hne : names ≠ []) (h : ∀ n ∈ names, IsEntryName n) :
    Text.join ['/'] names ≠ [] := by
  obtain ⟨n, names, rfl⟩ := List.exists_cons_of_ne_nil hne
  obtain ⟨y, hy, -⟩ := exists_join_cons n names
  rw [hy]
  exact List.append_ne_nil_of_left_ne_nil (h n List.mem_cons_self).nonempty y

theorem dropIdle_join {names : List Text} (hne : names ≠ []) (h : ∀ n ∈ names, IsEntryName n) :
    dropIdle (Text.join ['/'] names) = Text.join ['/'] names := by
  obtain ⟨n, names, rfl⟩ := List.exists_cons_of_ne_nil hne
  have hn := h n List.mem_cons_self
  have hall : ∀ c ∈ n, (c != '/') = true := fun c hc => by
    simpa using ne_of_mem_of_not_mem hc hn.no_slash
  obtain ⟨y, hy, hend⟩ := exists_join_cons n names
  have htake : (n ++ y).takeWhile (· != '/') = n := by
    rw [List.takeWhile_append_of_pos hall]
    rcases hend with rfl | ⟨x, rfl⟩
    · exact List.append_nil n
    · exact List.append_nil n
  rw [hy]
  exact dropIdle_eq_self (c := .name n) (by rw [htake, hn.ofPiece_eq])

theorem dropIdleEnd_of_isEntryName {n : Text} (h : IsEntryName n) (x : Path) :
    dropIdleEnd (n.reverse ++ x) = n.reverse ++ x := by
  have hslash : '/' ∉ n.reverse := fun hc => h.no_slash (List.mem_reverse.mp hc)
  have hdot : n.reverse ≠ ['.'] := fun he => h.not_current (List.reverse_eq_iff.mp he)
  obtain ⟨c, m, hm⟩ := List.exists_cons_of_ne_nil (List.reverse_ne_nil_iff.mpr h.nonempty)
  rw [hm] at hslash hdot ⊢
  have hc : c ≠ '/' := fun he => hslash (he ▸ List.mem_cons_self)
  rw [List.cons_append]
  unfold dropIdleEnd
  split
  · next heq => exact absurd (List.cons.inj heq).1 hc
  · next heq =>
    obtain ⟨rfl, hrest⟩ := List.cons.inj heq
    cases m with
    | nil => exact absurd rfl hdot
    | cons d m =>
      obtain ⟨rfl, -⟩ := List.cons.inj hrest
      simp at hslash
  · rfl

theorem trimEnd_join {names : List Text} (hne : names ≠ []) (h : ∀ n ∈ names, IsEntryName n) :
    trimEnd (Text.join ['/'] names) = Text.join ['/'] names := by
  have hhead : (Text.join ['/'] names).head? ≠ some '/' := dropIdle_join hne h ▸ head?_dropIdle _
  have hlast := h _ (List.getLast_mem hne)
  obtain ⟨x, hx⟩ := exists_join_concat names.dropLast (names.getLast hne)
  rw [List.dropLast_append_getLast] at hx
  unfold trimEnd
  split
  · next heq => exact absurd (by rw [heq]; rfl) hhead
  · rw [hx, List.reverse_append, dropIdleEnd_of_isEntryName hlast, ← List.reverse_append,
      List.reverse_reverse]

/-! ### Paths outside a root -/

theorem prefix_of_dropComponents {cs : List Component} {p r : Path}
    (h : dropComponents cs p = some r) :
    cs <+: later p := by
  induction cs generalizing p with
  | nil => exact List.nil_prefix
  | cons c cs ih =>
    rw [dropComponents] at h
    split_ifs at h with hc
    rw [← later_dropIdle, later_eq, hc, Option.toList_some, List.singleton_append]
    exact List.cons_prefix_cons.mpr ⟨rfl, ih h⟩

theorem prefix_of_dropLeading {c : Component} {cs : List Component} {p r : Path}
    (h : dropLeading c cs p = some r) :
    c :: cs <+: components p := by
  unfold dropLeading at h
  split at h
  · next x =>
    split_ifs at h with hc
    rw [components_slash, hc]
    exact List.cons_prefix_cons.mpr ⟨rfl, prefix_of_dropComponents h⟩
  · next hslash =>
    have hhead : p.head? ≠ some '/' := by
      intro hs
      obtain ⟨x, rfl⟩ := List.head?_eq_some_iff.mp hs
      exact hslash x rfl
    split_ifs at h with hc
    rw [components_eq hhead, hc, Option.toList_some, List.singleton_append]
    exact List.cons_prefix_cons.mpr ⟨rfl, prefix_of_dropComponents h⟩

theorem below?_eq_none {root p : Path} (h : ¬ components root <+: components p) :
    below? root p = none := by
  cases hroot : components root with
  | nil =>
    rw [hroot] at h
    exact absurd List.nil_prefix h
  | cons c cs =>
    rw [hroot] at h
    cases hdrop : dropLeading c cs p with
    | none => simp only [below?, hroot, hdrop, Option.map_none]
    | some r => exact absurd (prefix_of_dropLeading hdrop) h

/-! ### What is reported -/

theorem relative_of_below {root p r : Path} (h : below? root p = some r) (hr : r ≠ []) :
    relative root p = r := by
  rw [relative, h]
  split
  · next hnil => exact absurd (Option.some.inj hnil) hr
  · next hsome => exact (Option.some.inj hsome).symm
  · next hnone => cases hnone

theorem relative_foldl_join (root : Path) {names : List Text} (hne : names ≠ [])
    (h : ∀ n ∈ names, IsEntryName n) :
    relative root (names.foldl join root) = Text.join ['/'] names := by
  have hbelow : below? root (names.foldl join root) = some (Text.join ['/'] names) := by
    rw [foldl_join root hne h]
    by_cases hroot : root = []
    · subst hroot
      exact congrArg some (trimEnd_join hne h)
    · rw [below?_join hroot, dropIdle_join hne h, trimEnd_join hne h]
  exact relative_of_below hbelow (join_ne_nil hne h)

/-- **Reported paths do not show how the root is spelt.** For an entry below the root its names are
reported, with slashes between them; for the root a dot; and a path whose components do not begin
with those of the root is reported as it is. -/
theorem relative_of_any_root (root : Path) :
    (∀ names : List Text, names ≠ [] → (∀ n ∈ names, IsEntryName n) →
      relative root (names.foldl join root) = Text.join ['/'] names) ∧
    relative root root = ['.'] ∧
    ∀ p, ¬ components root <+: components p → relative root p = p := by
  refine ⟨fun names hne h => relative_foldl_join root hne h, ?_, fun p hp => ?_⟩
  · rw [relative, below?_self]
  · rw [relative, below?_eq_none hp]

/-- A root with an idle dot and slashes at its end, an entry two names below it, and a path that
only shares letters with the root. -/
theorem relative_of_any_root_trailing :
    (["src".toList, "a.ts".toList] ≠ [] ∧ ∀ n ∈ ["src".toList, "a.ts".toList], IsEntryName n) ∧
    ¬ components "/repo/.//".toList <+: components "/repo2/a".toList ∧
    relative "/repo/.//".toList "/repo/.//src/a.ts".toList = "src/a.ts".toList ∧
    relative "/repo/.//".toList "/repo/.//".toList = ".".toList ∧
    relative "/repo/.//".toList "/repo2/a".toList = "/repo2/a".toList := by
  have hne : ["src".toList, "a.ts".toList] ≠ [] := List.cons_ne_nil _ _
  have hnames : ∀ n ∈ ["src".toList, "a.ts".toList], IsEntryName n := by
    simp only [List.forall_mem_cons]
    exact ⟨⟨by decide, by decide, by decide, by decide⟩,
      ⟨by decide, by decide, by decide, by decide⟩, by simp⟩
  have houtside : ¬ components "/repo/.//".toList <+: components "/repo2/a".toList := by decide
  obtain ⟨hbelow, hself, hother⟩ := relative_of_any_root "/repo/.//".toList
  exact ⟨⟨hne, hnames⟩, houtside, hbelow _ hne hnames, hself, hother _ houtside⟩

end ActionItems.Path
