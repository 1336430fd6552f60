import Mathlib.Tactic.SplitIfs
import ActionItems.FileTree

/-!
# Files that are written

The pieces of a path lead from a directory to a location by steps, one for each piece (`Arrives`);
`follow_eq_ok_iff` says that a path is followed to just the locations that it arrives at.

* writing a file changes the entry at one location, which held a file or nothing
  (`exists_of_write`), and no other (`find?_put_of_ne`);
* no path goes on from such a location, so whatever else a path arrives at, it still arrives at
  afterwards (`Arrives.agree`), and the path that was written to arrives at the file
  (`Arrives.written`).
-/

namespace ActionItems.FileTree

/-! ### Entries -/

theorem find?_nil (t : FileTree) : t.find? [] = some .directory := if_pos rfl

theorem find?_of_ne_nil (t : FileTree) {l : Location} (h : l ≠ []) :
    t.find? l = t.entries.lookup l := if_neg h

theorem lookup_map_replaceAt {l k : Location} (h : k ≠ l) (e : Entry)
    (xs : List (Location × Entry)) :
    (xs.map (replaceAt l e)).lookup k = xs.lookup k := by
  induction xs with
  | nil => rfl
  | cons x xs ih =>
    obtain ⟨a, b⟩ := x
    by_cases ha : a = l
    · have hk : (k == a) = false := beq_eq_false_iff_ne.mpr (ha ▸ h)
      have hx : replaceAt l e (a, b) = (a, e) := by rw [replaceAt, if_pos (beq_iff_eq.mpr ha), ha]
      rw [List.map_cons, hx, List.lookup_cons, List.lookup_cons, hk, ih]
    · have hx : replaceAt l e (a, b) = (a, b) := if_neg (by simpa using ha)
      rw [List.map_cons, hx, List.lookup_cons, List.lookup_cons, ih]

theorem lookup_map_replaceAt_self (l : Location) (e : Entry) {xs : List (Location × Entry)}
    (h : xs.any (·.1 == l) = true) : (xs.map (replaceAt l e)).lookup l = some e := by
  induction xs with
  | nil => cases h
  | cons x xs ih =>
    obtain ⟨a, b⟩ := x
    by_cases ha : a = l
    · have hx : replaceAt l e (a, b) = (l, e) := if_pos (beq_iff_eq.mpr ha)
      rw [List.map_cons, hx, List.lookup_cons_self]
    · have hx : replaceAt l e (a, b) = (a, b) := if_neg (by simpa using ha)
      have hl : (l == a) = false := beq_eq_false_iff_ne.mpr (Ne.symm ha)
      have hrest : xs.any (·.1 == l) = true := by simpa [ha] using h
      rw [List.map_cons, hx, List.lookup_cons, hl, ih hrest]

theorem putEntry_of_any {l : Location} {xs : List (Location × Entry)}
    (h : xs.any (·.1 == l) = true) (e : Entry) : putEntry l e xs = xs.map (replaceAt l e) :=
  if_pos h

theorem putEntry_of_not_any {l : Location} {xs : List (Location × Entry)}
    (h : ¬xs.any (·.1 == l) = true) (e : Entry) : putEntry l e xs = xs ++ [(l, e)] := if_neg h

theorem lookup_putEntry_self (l : Location) (e : Entry) (xs : List (Location × Entry)) :
    (putEntry l e xs).lookup l = some e := by
  by_cases hany : xs.any (·.1 == l) = true
  · rw [putEntry_of_any hany]
    exact lookup_map_replaceAt_self l e hany
  · have hnone : xs.lookup l = none := by
      rw [List.lookup_eq_none_iff]
      intro x hx
      rw [bne_iff_ne]
      rintro rfl
      exact hany (List.any_eq_true.mpr ⟨x, hx, beq_self_eq_true _⟩)
    rw [putEntry_of_not_any hany, List.lookup_append, hnone, Option.none_or, List.lookup_cons_self]

theorem lookup_putEntry_of_ne {l k : Location} (h : k ≠ l) (e : Entry)
    (xs : List (Location × Entry)) : (putEntry l e xs).lookup k = xs.lookup k := by
  by_cases hany : xs.any (·.1 == l) = true
  · rw [putEntry_of_any hany]
    exact lookup_map_replaceAt h e xs
  · have hlast : [(l, e)].lookup k = none := by
      rw [List.lookup_cons, beq_eq_false_iff_ne.mpr h, List.lookup_nil]
    rw [putEntry_of_not_any hany, List.lookup_append, hlast, Option.or_none]

theorem mem_putEntry {l : Location} {e : Entry} {x : Location × Entry}
    {xs : List (Location × Entry)} (h : x ∈ putEntry l e xs) : x = (l, e) ∨ x ∈ xs ∧ x.1 ≠ l := by
  by_cases hany : xs.any (·.1 == l) = true
  · rw [putEntry_of_any hany] at h
    obtain ⟨y, hy, rfl⟩ := List.mem_map.mp h
    unfold replaceAt
    split_ifs with hyl
    · exact Or.inl rfl
    · exact Or.inr ⟨hy, by simpa using hyl⟩
  · rw [putEntry_of_not_any hany] at h
    rcases List.mem_append.mp h with h | h
    · refine Or.inr ⟨h, fun hxl => hany (List.any_eq_true.mpr ⟨x, h, beq_iff_eq.mpr hxl⟩)⟩
    · exact Or.inl (List.mem_singleton.mp h)

theorem putEntry_putEntry (l : Location) (e : Entry) (xs : List (Location × Entry)) :
    putEntry l e (putEntry l e xs) = putEntry l e xs := by
  have hany : (putEntry l e xs).any (·.1 == l) = true := by
    have hmem := List.lookup_isSome_iff.mp (by rw [lookup_putEntry_self l e xs]; rfl)
    obtain ⟨x, hx, hxl⟩ := hmem
    exact List.any_eq_true.mpr ⟨x, hx, by rwa [BEq.comm]⟩
  have hfix : ∀ x ∈ putEntry l e xs, replaceAt l e x = x := by
    intro x hx
    unfold replaceAt
    split_ifs with hxl
    · exact ((mem_putEntry hx).resolve_right fun h => h.2 (beq_iff_eq.mp hxl)).symm
    · rfl
  rw [putEntry_of_any hany, List.map_congr_left hfix, List.map_id']

/-! ### Trees with an entry put into them -/

theorem entries_put {t : FileTree} {l : Location} (hl : IsPlace l) (e : Entry) :
    (t.put l e).entries = putEntry l e t.entries := by
  rw [put, dif_pos hl]

theorem put_of_not_isPlace {t : FileTree} {l : Location} (hl : ¬IsPlace l) (e : Entry) :
    t.put l e = t := dif_neg hl

theorem current_put (t : FileTree) (l : Location) (e : Entry) :
    (t.put l e).current = t.current := by
  unfold put
  split <;> rfl

theorem find?_put_self (t : FileTree) {l : Location} (hl : IsPlace l) (e : Entry) :
    (t.put l e).find? l = some e := by
  rw [find?_of_ne_nil _ hl.1, entries_put hl]
  exact lookup_putEntry_self l e t.entries

theorem find?_put_of_ne (t : FileTree) {l k : Location} (h : k ≠ l) (e : Entry) :
    (t.put l e).find? k = t.find? k := by
  by_cases hl : IsPlace l
  · by_cases hk : k = []
    · rw [hk, find?_nil, find?_nil]
    · rw [find?_of_ne_nil _ hk, find?_of_ne_nil _ hk, entries_put hl]
      exact lookup_putEntry_of_ne h e t.entries
  · rw [put_of_not_isPlace hl]

/-- Writing the same again changes nothing. -/
theorem put_put (t : FileTree) (l : Location) (e : Entry) : (t.put l e).put l e = t.put l e := by
  by_cases hl : IsPlace l
  · refine FileTree.ext ?_ (current_put _ l e)
    rw [entries_put hl, entries_put hl, putEntry_putEntry]
  · rw [put_of_not_isPlace hl]

/-! ### Ways of paths -/

/-- A piece of a path that names an entry. -/
def IsStep (p : Bytes) : Prop := isIdle p = false ∧ isParent p = false ∧ p.length ≤ 255

theorem isStep_of_not {p : Bytes} (hidle : ¬isIdle p = true) (hparent : ¬isParent p = true)
    (hlen : ¬255 < p.length) : IsStep p :=
  ⟨Bool.eq_false_iff.mpr hidle, Bool.eq_false_iff.mpr hparent, Nat.le_of_not_lt hlen⟩

/-- The location that pieces of a path lead to from a directory, step by step. -/
inductive Arrives (t : FileTree) (purpose : Purpose) : Nat → Location → List Bytes → Location → Prop
  | here (n : Nat) (dir : Location) : Arrives t purpose n dir [] dir
  | idle {n : Nat} {dir l : Location} {p : Bytes} {ps : List Bytes} (hp : isIdle p = true)
      (h : Arrives t purpose n dir ps l) : Arrives t purpose n dir (p :: ps) l
  | parent {n : Nat} {dir l : Location} {p : Bytes} {ps : List Bytes} (hidle : isIdle p = false)
      (hp : isParent p = true) (h : Arrives t purpose n dir.dropLast ps l) :
      Arrives t purpose n dir (p :: ps) l
  | new {n : Nat} {dir : Location} {p : Bytes} (hp : IsStep p) (hfind : t.find? (dir ++ [p]) = none)
      (hpurpose : purpose = .creation) : Arrives t purpose n dir [p] (dir ++ [p])
  | directory {n : Nat} {dir l : Location} {p : Bytes} {ps : List Bytes} (hp : IsStep p)
      (hfind : t.find? (dir ++ [p]) = some .directory) (h : Arrives t purpose n (dir ++ [p]) ps l) :
      Arrives t purpose n dir (p :: ps) l
  | itself {n : Nat} {dir : Location} {p : Bytes} {target : Bytes} (hp : IsStep p)
      (hfind : t.find? (dir ++ [p]) = some (.link target)) (hpurpose : purpose = .itself) :
      Arrives t purpose n dir [p] (dir ++ [p])
  | link {n : Nat} {dir l : Location} {p : Bytes} {ps : List Bytes} {target : Bytes} (hp : IsStep p)
      (hfind : t.find? (dir ++ [p]) = some (.link target))
      (hpurpose : ¬(ps = [] ∧ purpose = .itself))
      (h : Arrives t purpose n (if isAbsolute target then [] else dir) (pieces target ++ ps) l) :
      Arrives t purpose (n + 1) dir (p :: ps) l
  | file {n : Nat} {dir : Location} {p : Bytes} {e : Entry} (hp : IsStep p)
      (hfind : t.find? (dir ++ [p]) = some e) (hdir : e ≠ .directory)
      (hlink : ∀ target, e ≠ .link target) : Arrives t purpose n dir [p] (dir ++ [p])

variable {t t' : FileTree} {purpose : Purpose} {n : Nat} {dir l : Location} {ps : List Bytes}

/-- At a link a path arrives where it goes on to. -/
theorem arrives_of_followWith {jump : Location → List Bytes → Except SystemError Location}
    (hjump : ∀ {dir ps l}, jump dir ps = .ok l → ∃ m, n = m + 1 ∧ Arrives t purpose m dir ps l)
    (h : t.followWith purpose jump dir ps = .ok l) : Arrives t purpose n dir ps l := by
  fun_induction followWith t purpose jump dir ps with
  | case1 dir =>
    cases h
    exact .here n _
  | case2 dir p ps hp ih => exact .idle hp (ih h)
  | case3 dir p ps hidle hp ih => exact .parent (Bool.eq_false_iff.mpr hidle) hp (ih h)
  | case5 dir p ps hidle hparent hlen hfind hnew =>
    cases h
    obtain ⟨hpurpose, rfl⟩ := hnew
    exact .new (isStep_of_not hidle hparent hlen) hfind hpurpose
  | case8 dir p ps hidle hparent hlen hfind ih =>
    exact .directory (isStep_of_not hidle hparent hlen) hfind (ih h)
  | case9 dir p ps hidle hparent hlen target hfind hitself =>
    cases h
    obtain ⟨rfl, hpurpose⟩ := hitself
    exact .itself (isStep_of_not hidle hparent hlen) hfind hpurpose
  | case10 dir p ps hidle hparent hlen target hfind hitself =>
    obtain ⟨m, rfl, hrest⟩ := hjump h
    exact .link (isStep_of_not hidle hparent hlen) hfind hitself hrest
  | case11 dir p hidle hparent hlen e hdir hlink hfind =>
    cases h
    exact .file (isStep_of_not hidle hparent hlen) hfind hdir hlink
  | _ => cases h

theorem arrives_of_follow (h : t.follow purpose n dir ps = .ok l) :
    Arrives t purpose n dir ps l := by
  induction n generalizing dir ps l with
  | zero => exact arrives_of_followWith (fun hjump => by cases hjump) h
  | succ n ih => exact arrives_of_followWith (fun hjump => ⟨n, rfl, ih hjump⟩) h

section Steps

variable {p : Bytes}

theorem follow_nil (t : FileTree) (purpose : Purpose) (n : Nat) (dir : Location) :
    t.follow purpose n dir [] = .ok dir := by
  cases n <;> rfl

theorem follow_idle (hp : isIdle p = true) :
    t.follow purpose n dir (p :: ps) = t.follow purpose n dir ps := by
  cases n <;> exact if_pos hp

theorem follow_parent (hidle : isIdle p = false) (hp : isParent p = true) :
    t.follow purpose n dir (p :: ps) = t.follow purpose n dir.dropLast ps := by
  cases n <;> simp [follow, followWith, hidle, hp]

theorem follow_directory (hp : IsStep p) (hfind : t.find? (dir ++ [p]) = some .directory) :
    t.follow purpose n dir (p :: ps) = t.follow purpose n (dir ++ [p]) ps := by
  obtain ⟨hidle, hparent, hlen⟩ := hp
  cases n <;> simp [follow, followWith, hidle, hparent, Nat.not_lt.mpr hlen, hfind]

theorem follow_link {target : Bytes} (hp : IsStep p)
    (hfind : t.find? (dir ++ [p]) = some (.link target))
    (hpurpose : ¬(ps = [] ∧ purpose = .itself)) :
    t.follow purpose (n + 1) dir (p :: ps) =
      t.follow purpose n (if isAbsolute target then [] else dir) (pieces target ++ ps) := by
  obtain ⟨hidle, hparent, hlen⟩ := hp
  rw [follow, followWith, if_neg (by simp [hidle]), if_neg (by simp [hparent]),
    if_neg (Nat.not_lt.mpr hlen), hfind]
  exact if_neg hpurpose

end Steps

theorem follow_of_arrives (h : Arrives t purpose n dir ps l) :
    t.follow purpose n dir ps = .ok l := by
  induction h with
  | here n dir => exact follow_nil t purpose n dir
  | idle hp _ ih => rw [follow_idle hp, ih]
  | parent hidle hp _ ih => rw [follow_parent hidle hp, ih]
  | @new n _ _ hp hfind hpurpose =>
    obtain ⟨hidle, hparent, hlen⟩ := hp
    cases n <;>
      simp [follow, followWith, hidle, hparent, Nat.not_lt.mpr hlen, hfind, hpurpose]
  | directory hp hfind _ ih => rw [follow_directory hp hfind, ih]
  | @itself n _ _ _ hp hfind hpurpose =>
    obtain ⟨hidle, hparent, hlen⟩ := hp
    cases n <;>
      simp [follow, followWith, hidle, hparent, Nat.not_lt.mpr hlen, hfind, hpurpose]
  | link hp hfind hpurpose _ ih => rw [follow_link hp hfind hpurpose, ih]
  | @file n _ _ e hp hfind hdir hlink =>
    obtain ⟨hidle, hparent, hlen⟩ := hp
    cases e with
    | directory => exact absurd rfl hdir
    | link target => exact absurd rfl (hlink target)
    | _ => cases n <;> simp [follow, followWith, hidle, hparent, Nat.not_lt.mpr hlen, hfind]

theorem follow_eq_ok_iff : t.follow purpose n dir ps = .ok l ↔ Arrives t purpose n dir ps l :=
  ⟨arrives_of_follow, follow_of_arrives⟩

/-! ### Names on the way -/

theorem pieces_ne_nil (bs : Bytes) : pieces bs ≠ [] := by
  cases bs with
  | nil => simp [pieces]
  | cons b bs =>
    rw [pieces]
    split
    · simp
    · split_ifs <;> simp

theorem slash_notMem_of_mem_pieces {bs q : Bytes} (h : q ∈ pieces bs) : slash ∉ q := by
  induction bs generalizing q with
  | nil =>
    rw [pieces, List.mem_singleton] at h
    simp [h]
  | cons b bs ih =>
    rw [pieces] at h
    cases hrest : pieces bs with
    | nil => exact absurd hrest (pieces_ne_nil bs)
    | cons p ps =>
      rw [hrest] at h ih
      dsimp only at h
      split_ifs at h with hb
      · rcases List.mem_cons.mp h with rfl | h
        · simp
        · exact ih h
      · rcases List.mem_cons.mp h with rfl | h
        · have hp := ih List.mem_cons_self
          simp [Ne.symm hb, hp]
        · exact ih (List.mem_cons_of_mem _ h)

theorem IsWayDown.dropLast (h : IsWayDown dir) : IsWayDown dir.dropLast :=
  fun x hx => h x ((List.dropLast_prefix _).subset hx)

theorem IsWayDown.append (h : IsWayDown dir) {p : Bytes} (hp : IsStep p) (hslash : slash ∉ p) :
    IsWayDown (dir ++ [p]) := by
  intro x hx
  rcases List.mem_append.mp hx with hx | hx
  · exact h x hx
  · rw [List.mem_singleton.mp hx]
    exact ⟨hp.1, hp.2.1, hslash⟩

/-- A path arrives at a location whose names are names of entries. -/
theorem Arrives.isWayDown (h : Arrives t purpose n dir ps l) (hps : ∀ q ∈ ps, slash ∉ q)
    (hdir : IsWayDown dir) : IsWayDown l := by
  induction h with
  | here n dir => exact hdir
  | idle _ _ ih => exact ih (fun q hq => hps q (List.mem_cons_of_mem _ hq)) hdir
  | parent _ _ _ ih => exact ih (fun q hq => hps q (List.mem_cons_of_mem _ hq)) hdir.dropLast
  | new hp _ _ => exact hdir.append hp (hps _ List.mem_cons_self)
  | directory hp _ _ ih =>
    exact ih (fun q hq => hps q (List.mem_cons_of_mem _ hq))
      (hdir.append hp (hps _ List.mem_cons_self))
  | itself hp _ _ => exact hdir.append hp (hps _ List.mem_cons_self)
  | link _ _ _ _ ih =>
    refine ih (fun q hq => ?_) ?_
    · rcases List.mem_append.mp hq with hq | hq
      · exact slash_notMem_of_mem_pieces hq
      · exact hps q (List.mem_cons_of_mem _ hq)
    · split_ifs
      · exact fun x hx => absurd hx List.not_mem_nil
      · exact hdir
  | file hp _ _ _ => exact hdir.append hp (hps _ List.mem_cons_self)

theorem slash_notMem_of_mem_fromTop {path q : Bytes} (h : q ∈ t.fromTop path) : slash ∉ q := by
  unfold fromTop at h
  split_ifs at h
  · exact slash_notMem_of_mem_pieces h
  · rcases List.mem_append.mp h with h | h
    · exact (t.isWayDown_current q h).2.2
    · exact slash_notMem_of_mem_pieces h

/-! ### Directories on the way -/

/-- A location that is a directory, as are all above it. -/
def IsWay (t : FileTree) (dir : Location) : Prop := ∀ d, d <+: dir → t.find? d = some .directory

theorem isWay_nil (t : FileTree) : t.IsWay [] := by
  intro d hd
  rw [List.prefix_nil.mp hd, find?_nil]

theorem IsWay.dropLast (h : t.IsWay dir) : t.IsWay dir.dropLast :=
  fun d hd => h d (hd.trans (List.dropLast_prefix dir))

theorem IsWay.append (h : t.IsWay dir) {p : Bytes}
    (hfind : t.find? (dir ++ [p]) = some .directory) :
    t.IsWay (dir ++ [p]) := by
  intro d hd
  rcases List.prefix_concat_iff.mp hd with rfl | hd
  · exact hfind
  · exact h d hd

theorem IsWay.start (h : t.IsWay dir) (target : Bytes) :
    t.IsWay (if isAbsolute target then [] else dir) := by
  split_ifs
  · exact isWay_nil t
  · exact h

/-- A location that no path goes on from: there is a file that may be written, or nothing. -/
def IsEnd (t : FileTree) (l : Location) : Prop :=
  t.find? l = none ∨ ∃ content, t.find? l = some (.file content)

theorem IsEnd.ne_directory (h : t.IsEnd l) : t.find? l ≠ some .directory := by
  rintro hdir
  rcases h with h | ⟨content, h⟩ <;> rw [h] at hdir <;> cases hdir

theorem IsEnd.ne_link (h : t.IsEnd l) (target : Bytes) : t.find? l ≠ some (.link target) := by
  rintro hlink
  rcases h with h | ⟨content, h⟩ <;> rw [h] at hlink <;> cases hlink

theorem IsEnd.ne_nil (h : t.IsEnd l) : l ≠ [] := by
  rintro rfl
  exact h.ne_directory (find?_nil t)

/-- A path that is followed to make a file does not end with a link. -/
theorem Arrives.ne_link (h : Arrives t .creation n dir ps l) (hdir : t.IsWay dir)
    (target : Bytes) : t.find? l ≠ some (.link target) := by
  induction h with
  | here n dir =>
    rw [hdir dir List.prefix_rfl]
    exact fun h => by cases h
  | idle _ _ ih => exact ih hdir
  | parent _ _ _ ih => exact ih hdir.dropLast
  | new _ hfind _ =>
    rw [hfind]
    exact fun h => by cases h
  | directory _ hfind _ ih => exact ih (hdir.append hfind)
  | itself _ _ hpurpose => cases hpurpose
  | link _ _ _ _ ih => exact ih (hdir.start _)
  | file _ hfind _ hlink =>
    rw [hfind]
    exact fun h => hlink target (Option.some.inj h)

/-! ### Trees that differ in one file -/

/-- Two trees that hold the same but for one location, where each of them holds a file or
nothing. -/
structure AgreeExceptAt (l₀ : Location) (t t' : FileTree) : Prop where
  current : t'.current = t.current
  same : ∀ l, l ≠ l₀ → t'.find? l = t.find? l
  before : t.IsEnd l₀
  after : t'.IsEnd l₀

variable {l₀ : Location}

theorem AgreeExceptAt.symm (h : AgreeExceptAt l₀ t t') : AgreeExceptAt l₀ t' t :=
  ⟨h.current.symm, fun l hl => (h.same l hl).symm, h.after, h.before⟩

theorem AgreeExceptAt.find?_directory (h : AgreeExceptAt l₀ t t')
    (hfind : t.find? l = some .directory) : t'.find? l = some .directory := by
  rw [h.same l, hfind]
  rintro rfl
  exact h.before.ne_directory hfind

theorem AgreeExceptAt.find?_link (h : AgreeExceptAt l₀ t t') {target : Bytes}
    (hfind : t.find? l = some (.link target)) : t'.find? l = some (.link target) := by
  rw [h.same l, hfind]
  rintro rfl
  exact h.before.ne_link target hfind

/-- A path that arrives elsewhere does so in both trees. -/
theorem Arrives.agree (hagree : AgreeExceptAt l₀ t t') (h : Arrives t .entry n dir ps l)
    (hl : l ≠ l₀) : Arrives t' .entry n dir ps l := by
  induction h with
  | here n dir => exact .here n dir
  | idle hp _ ih => exact .idle hp (ih hl)
  | parent hidle hp _ ih => exact .parent hidle hp (ih hl)
  | new _ _ hpurpose => cases hpurpose
  | directory hp hfind _ ih => exact .directory hp (hagree.find?_directory hfind) (ih hl)
  | itself _ _ hpurpose => cases hpurpose
  | link hp hfind hpurpose _ ih => exact .link hp (hagree.find?_link hfind) hpurpose (ih hl)
  | file hp hfind hdir hlink => exact .file hp ((hagree.same _ hl).trans hfind) hdir hlink

/-- The path that a file is made at arrives at the file. -/
theorem Arrives.written (hagree : AgreeExceptAt l₀ t t') {content : Bytes}
    (hfile : t'.find? l₀ = some (.file content)) (h : Arrives t .creation n dir ps l₀)
    (hdir : t.IsWay dir) (hpurpose : purpose ≠ .itself) : Arrives t' purpose n dir ps l₀ := by
  induction h with
  | here n dir => exact absurd (hdir dir List.prefix_rfl) hagree.before.ne_directory
  | idle hp _ ih => exact .idle hp (ih hagree hfile hdir)
  | parent hidle hp _ ih => exact .parent hidle hp (ih hagree hfile hdir.dropLast)
  | new hp _ _ => exact .file hp hfile (by simp) (by simp)
  | directory hp hfind _ ih =>
    exact .directory hp (hagree.find?_directory hfind) (ih hagree hfile (hdir.append hfind))
  | itself _ _ hitself => cases hitself
  | link hp hfind _ _ ih =>
    exact .link hp (hagree.find?_link hfind) (fun h => hpurpose h.2)
      (ih hagree hfile (hdir.start _))
  | file hp _ _ _ => exact .file hp hfile (by simp) (by simp)

/-! ### Paths -/

/-- A path that the system is ready to follow. -/
structure IsSound (path : Bytes) : Prop where
  zero : ¬path.contains 0 = true
  ne_nil : path ≠ []
  length : path.length < maxPath

theorem locate_of_isSound {path : Bytes} (h : IsSound path) :
    t.locate purpose path = t.follow purpose maxLinks [] (t.fromTop path) := by
  rw [locate, if_neg h.zero, if_neg h.ne_nil, if_neg (Nat.not_le.mpr h.length)]

theorem locate_eq_ok_iff {path : Bytes} :
    t.locate purpose path = .ok l ↔
      IsSound path ∧ Arrives t purpose maxLinks [] (t.fromTop path) l := by
  rw [← follow_eq_ok_iff]
  constructor
  · intro h
    have hsound : IsSound path := by
      unfold locate at h
      split_ifs at h with hzero hnil hlen
      exact ⟨hzero, hnil, Nat.lt_of_not_le hlen⟩
    exact ⟨hsound, locate_of_isSound hsound ▸ h⟩
  · rintro ⟨hsound, h⟩
    rw [locate_of_isSound hsound, h]

theorem isPlace_of_locate {path : Bytes} (h : t.locate purpose path = .ok l) (hl : l ≠ []) :
    IsPlace l :=
  ⟨hl, (locate_eq_ok_iff.mp h).2.isWayDown (fun _ => slash_notMem_of_mem_fromTop)
    fun _ hx => absurd hx List.not_mem_nil⟩

theorem open?_eq_ok_iff {path : Bytes} {e : Entry} :
    t.open? path = .ok (l, e) ↔ t.locate .entry path = .ok l ∧ t.find? l = some e := by
  unfold open?
  constructor
  · intro h
    split at h
    · cases h
    · next hlocate =>
      split at h
      · next hfind =>
        cases h
        exact ⟨hlocate, hfind⟩
      · cases h
  · rintro ⟨hlocate, hfind⟩
    simp only [hlocate, hfind]

theorem AgreeExceptAt.fromTop_eq (h : AgreeExceptAt l₀ t t') (path : Bytes) :
    t'.fromTop path = t.fromTop path := by
  rw [fromTop, fromTop, h.current]

/-- What a path leads to elsewhere, it leads to in both trees. -/
theorem AgreeExceptAt.open?_eq (h : AgreeExceptAt l₀ t t') {path : Bytes} {e : Entry}
    (hopen : t.open? path = .ok (l, e)) (hl : l ≠ l₀) : t'.open? path = .ok (l, e) := by
  obtain ⟨hlocate, hfind⟩ := open?_eq_ok_iff.mp hopen
  obtain ⟨hsound, harrives⟩ := locate_eq_ok_iff.mp hlocate
  have harrives' := harrives.agree h hl
  rw [← h.fromTop_eq] at harrives'
  exact open?_eq_ok_iff.mpr
    ⟨locate_eq_ok_iff.mpr ⟨hsound, harrives'⟩, (h.same l hl).trans hfind⟩

theorem AgreeExceptAt.open?_directory (h : AgreeExceptAt l₀ t t') {path : Bytes}
    (hopen : t.open? path = .ok (l, .directory)) : t'.open? path = .ok (l, .directory) := by
  refine h.open?_eq hopen ?_
  rintro rfl
  exact h.before.ne_directory (open?_eq_ok_iff.mp hopen).2

/-! ### Writing -/

theorem agreeExceptAt_put (hl : IsPlace l) (h : t.IsEnd l) (content : Bytes) :
    AgreeExceptAt l t (t.put l (.file content)) :=
  ⟨current_put t l _, fun _ hk => find?_put_of_ne t hk _, h,
    Or.inr ⟨content, find?_put_self t hl _⟩⟩

/-- The second tree is the first with a file written at a path, which leads to a location. -/
structure IsWritten (t t' : FileTree) (path content : Bytes) (l : Location) : Prop where
  named : t.locate .creation path = .ok l
  found : t'.find? l = some (.file content)
  /-- The path leads to the file now. -/
  read : t'.read path = .ok content
  others : ∀ k, k ≠ l → t'.find? k = t.find? k

/-- What a file that is written leaves behind. -/
theorem exists_of_write {path content : Bytes} (h : t.write path content = .ok t') :
    ∃ l, t.locate .creation path = .ok l ∧ t.IsEnd l ∧ t' = t.put l (.file content) := by
  unfold write at h
  split at h
  · cases h
  · next l hlocate =>
    have hlink := (locate_eq_ok_iff.mp hlocate).2.ne_link (isWay_nil t)
    split at h
    · cases h
    · cases h
    · next hdir hlocked =>
      cases h
      refine ⟨l, hlocate, ?_, rfl⟩
      cases hfind : t.find? l with
      | none => exact Or.inl hfind
      | some e =>
        cases e with
        | file content => exact Or.inr ⟨content, hfind⟩
        | locked => exact absurd hfind hlocked
        | directory => exact absurd hfind hdir
        | link target => exact absurd hfind (hlink target)

theorem write_of_locate {path : Bytes} (hlocate : t.locate .creation path = .ok l)
    (hend : t.IsEnd l) (content : Bytes) :
    t.write path content = .ok (t.put l (.file content)) := by
  unfold write
  rw [hlocate]
  rcases hend with hfind | ⟨old, hfind⟩ <;> simp only [hfind]

/-- The path that was written to leads to the file, also for the next that writes. -/
theorem locate_put {path : Bytes} (hlocate : t.locate .creation path = .ok l) (hend : t.IsEnd l)
    (content : Bytes) (hpurpose : purpose ≠ .itself) :
    (t.put l (.file content)).locate purpose path = .ok l := by
  obtain ⟨hsound, harrives⟩ := locate_eq_ok_iff.mp hlocate
  have hl := isPlace_of_locate hlocate hend.ne_nil
  have hagree := agreeExceptAt_put hl hend content
  have hwritten := harrives.written hagree (find?_put_self t hl _) (isWay_nil t) hpurpose
  rw [← hagree.fromTop_eq] at hwritten
  exact locate_eq_ok_iff.mpr ⟨hsound, hwritten⟩

theorem isWritten_put {path : Bytes} (hlocate : t.locate .creation path = .ok l)
    (hend : t.IsEnd l) (content : Bytes) :
    t.IsWritten (t.put l (.file content)) path content l := by
  have hfound := find?_put_self t (isPlace_of_locate hlocate hend.ne_nil) (.file content)
  have hopen : (t.put l (.file content)).open? path = .ok (l, .file content) :=
    open?_eq_ok_iff.mpr ⟨locate_put hlocate hend content (by simp), hfound⟩
  have hread : (t.put l (.file content)).read path = .ok content := by rw [read, hopen]
  exact ⟨hlocate, hfound, hread, fun _ hk => find?_put_of_ne t hk _⟩

end ActionItems.FileTree
