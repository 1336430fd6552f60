import Mathlib.Data.Finset.Basic
import ActionItems.Settings
import ActionItems.Proofs.ReportRoundTrip

/-! # Settings from a part of their fields

An object of settings may hold any of the fields, in any order, and members that settings do not
know. Its members are read in the order of their keys; a key that occurs once keeps its member
(`Json.filter_members_perm`), also among members whose keys repeat. An unknown member changes
nothing (`readAll_filter`), and reading a field as it is written replaces that field and no other
(`read_of_mem`). So what was read is told by the set of the names alone (`readAll_of_mem`), whatever
the order. -/

namespace ActionItems

/-! ### Members that occur once -/

namespace Json

theorem filter_place_perm {p : Text → Bool} {x : Text × Json} {ms : List (Text × Json)}
    (h : p x.1 = true → ∀ m ∈ ms, m.1 ≠ x.1) :
    ((Text.place Prod.fst x ms).filter fun m => p m.1).Perm ((x :: ms).filter fun m => p m.1) := by
  induction ms with
  | nil => exact .refl _
  | cons m ms ih =>
    unfold Text.place
    split_ifs with hlt heq
    · exact .refl _
    · -- the member that gives way has the key of the new one, so neither is kept
      have hx : ¬p x.1 = true := fun hp => h hp m List.mem_cons_self heq.symm
      have hm : ¬p m.1 = true := heq ▸ hx
      rw [List.filter_cons_of_neg (by exact hx), List.filter_cons_of_neg (by exact hx),
        List.filter_cons_of_neg (by exact hm)]
    · have hrest := ih fun hp m hm => h hp m (List.mem_cons_of_mem _ hm)
      have hswap := (List.Perm.swap x m ms).filter fun m => p m.1
      refine List.Perm.trans ?_ hswap
      by_cases hp : p m.1 = true
      · rw [List.filter_cons_of_pos (by exact hp), List.filter_cons_of_pos (by exact hp)]
        exact hrest.cons _
      · rw [List.filter_cons_of_neg (by exact hp), List.filter_cons_of_neg (by exact hp)]
        exact hrest

theorem filter_foldl_place_perm {p : Text → Bool} {ms before : List (Text × Json)}
    (h : (((before ++ ms).filter fun m => p m.1).map Prod.fst).Nodup) :
    ((ms.foldl (fun r m => Text.place Prod.fst m r) before).filter fun m => p m.1).Perm
      ((before ++ ms).filter fun m => p m.1) := by
  induction ms generalizing before with
  | nil =>
    rw [List.append_nil]
    exact .refl _
  | cons x ms ih =>
    have hmiddle : ((before ++ x :: ms).filter fun m => p m.1).Perm
        ((x :: (before ++ ms)).filter fun m => p m.1) := List.perm_middle.filter _
    have hfirst := (hmiddle.map Prod.fst).nodup_iff.mp h
    have hnew : p x.1 = true → ∀ m ∈ before, m.1 ≠ x.1 := by
      intro hp m hm heq
      rw [List.filter_cons_of_pos (by exact hp), List.map_cons, List.nodup_cons] at hfirst
      have hkept : m ∈ (before ++ ms).filter fun m => p m.1 :=
        List.mem_filter.mpr ⟨List.mem_append_left _ hm, by rwa [heq]⟩
      exact hfirst.1 (List.mem_map.mpr ⟨m, hkept, heq⟩)
    have hplaced : ((Text.place Prod.fst x before ++ ms).filter fun m => p m.1).Perm
        ((before ++ x :: ms).filter fun m => p m.1) := by
      refine List.Perm.trans ?_ hmiddle.symm
      rw [List.filter_append, ← List.cons_append, List.filter_append]
      exact (filter_place_perm hnew).append_right _
    exact (ih ((hplaced.map Prod.fst).nodup_iff.mpr h)).trans hplaced

theorem filter_members_perm {p : Text → Bool} {ms : List (Text × Json)}
    (h : ((ms.filter fun m => p m.1).map Prod.fst).Nodup) :
    ((members ms).filter fun m => p m.1).Perm (ms.filter fun m => p m.1) :=
  filter_foldl_place_perm h

theorem decodeWord64_ofNat (n : UInt64) : decodeWord64 (ofNat n.toNat) = .ok n := by
  rw [decodeWord64, decodeNat_ofNat n.toNat_lt_size]
  simp [Except.map]

end Json

namespace Settings

variable {s c : Settings} {names : Finset Text}

/-! ### Fields by name -/

/-- The settings with the named fields as in `c`. -/
def replace (s c : Settings) (names : Finset Text) : Settings where
  root := if "root".toList ∈ names then c.root else s.root
  extensions := if "extensions".toList ∈ names then c.extensions else s.extensions
  ignore := if "ignore".toList ∈ names then c.ignore else s.ignore
  concurrency := if "concurrency".toList ∈ names then c.concurrency else s.concurrency
  verbose := if "verbose".toList ∈ names then c.verbose else s.verbose
  followLinks := if "follow_links".toList ∈ names then c.followLinks else s.followLinks
  respectIgnoreFiles :=
    if "respect_gitignore".toList ∈ names then c.respectIgnoreFiles else s.respectIgnoreFiles

/-- The named fields as they are written. -/
def part (c : Settings) (names : Finset Text) : List (Text × Json) :=
  c.encodeFields.filter fun m => m.1 ∈ names

theorem replace_insert (s c : Settings) (k : Text) (names : Finset Text) :
    s.replace c (insert k names) = (s.replace c {k}).replace c names := by
  have hmem : ∀ a, a ∈ insert k names ↔ a ∈ names ∨ a ∈ ({k} : Finset Text) := by
    intro a
    rw [Finset.mem_insert, Finset.mem_singleton, or_comm]
  simp only [replace, hmem, ite_or]

theorem replace_congr {A B : Finset Text} (h : ∀ k ∈ fields, k ∈ A ↔ k ∈ B) (s c : Settings) :
    s.replace c A = s.replace c B := by
  simp only [fields, List.forall_mem_cons, List.not_mem_nil, false_imp_iff, implies_true,
    and_true] at h
  obtain ⟨hroot, hextensions, hignore, hconcurrency, hverbose, hfollow, hrespect⟩ := h
  simp only [replace, hroot, hextensions, hignore, hconcurrency, hverbose, hfollow, hrespect]

theorem replace_fields (s c : Settings) : s.replace c fields.toFinset = c := rfl

theorem map_fst_encodeFields (c : Settings) : c.encodeFields.map Prod.fst = fields := rfl

theorem nodup_fields : fields.Nodup := by decide

/-! ### Reading -/

theorem decodeList_encodeTexts (ts : List Text) :
    (encodeTexts ts).decodeList (Json.decodeText .string) = .ok ts := by
  show (ts.map Json.str).mapM (Json.decodeText .string) = .ok ts
  induction ts with
  | nil => rfl
  | cons t ts ih =>
    rw [List.map_cons, List.mapM_cons, ih]
    rfl

theorem decodeOption_concurrency (n : Option UInt64) :
    (Json.ofOption (fun n => Json.ofNat n.toNat) n).decodeOption Json.decodeWord64 = .ok n := by
  cases n with
  | none => rfl
  | some n =>
    rw [Json.ofOption, Json.decodeOption_of_ne_null (by simp [Json.ofNat]), Json.decodeWord64_ofNat]
    rfl

theorem read_extensions (s : Settings) (ts : List Text) :
    s.read "extensions".toList (encodeTexts ts) = .ok { s with extensions := ts } := by
  rw [read, if_neg (by decide), if_pos rfl, decodeList_encodeTexts]
  rfl

theorem read_ignore (s : Settings) (ts : List Text) :
    s.read "ignore".toList (encodeTexts ts) = .ok { s with ignore := ts } := by
  rw [read, if_neg (by decide), if_neg (by decide), if_pos rfl, decodeList_encodeTexts]
  rfl

theorem read_concurrency (s : Settings) (n : Option UInt64) :
    s.read "concurrency".toList (Json.ofOption (fun n => Json.ofNat n.toNat) n) =
      .ok { s with concurrency := n } := by
  rw [read, if_neg (by decide), if_neg (by decide), if_neg (by decide), if_pos rfl,
    decodeOption_concurrency]
  rfl

/-- **A field as it is written** replaces that field and no other. -/
theorem read_of_mem {m : Text × Json} (h : m ∈ c.encodeFields) (s : Settings) :
    s.read m.1 m.2 = .ok (s.replace c {m.1}) := by
  simp only [encodeFields, List.mem_cons, List.not_mem_nil, or_false] at h
  rcases h with rfl | rfl | rfl | rfl | rfl | rfl | rfl
  · rfl
  · exact s.read_extensions c.extensions
  · exact s.read_ignore c.ignore
  · exact s.read_concurrency c.concurrency
  · rfl
  · rfl
  · rfl

theorem read_of_not_mem {k : Text} (h : k ∉ fields) (s : Settings) (v : Json) :
    s.read k v = .ok s := by
  simp only [fields, List.mem_cons, List.not_mem_nil, or_false, not_or] at h
  obtain ⟨hroot, hextensions, hignore, hconcurrency, hverbose, hfollow, hrespect⟩ := h
  rw [read, if_neg hroot, if_neg hextensions, if_neg hignore, if_neg hconcurrency, if_neg hverbose,
    if_neg hfollow,
    if_neg hrespect]

/-- Reads members in turn. -/
def readAll (s : Settings) (ms : List (Text × Json)) : Decoded Settings :=
  ms.foldlM (fun s (k, v) => s.read k v) s

theorem readAll_cons (s : Settings) (m : Text × Json) (ms : List (Text × Json)) :
    s.readAll (m :: ms) = s.read m.1 m.2 >>= fun s => s.readAll ms :=
  List.foldlM_cons

theorem readAll_filter (ms : List (Text × Json)) (s : Settings) :
    s.readAll ms = s.readAll (ms.filter fun m => m.1 ∈ fields) := by
  induction ms generalizing s with
  | nil => rfl
  | cons m ms ih =>
    rw [readAll_cons]
    by_cases hm : m.1 ∈ fields
    · rw [List.filter_cons_of_pos (by simpa using hm), readAll_cons]
      simp only [← ih]
    · rw [List.filter_cons_of_neg (by simpa using hm), read_of_not_mem hm, ← ih]
      rfl

theorem readAll_of_mem {ms : List (Text × Json)} (h : ∀ m ∈ ms, m ∈ c.encodeFields) (s : Settings) :
    s.readAll ms = .ok (s.replace c (ms.map Prod.fst).toFinset) := by
  induction ms generalizing s with
  | nil => rfl
  | cons m ms ih =>
    obtain ⟨hm, hms⟩ := List.forall_mem_cons.mp h
    rw [readAll_cons, read_of_mem hm]
    refine (ih hms (s.replace c {m.1})).trans ?_
    rw [List.map_cons, List.toFinset_cons, replace_insert]

/-! ### Objects -/

/-- **An object is told by its known members**, if each of them is a field as `c` has it and none
occurs twice. -/
theorem decode_of_known {ms known : List (Text × Json)}
    (hknown : (ms.filter fun m => m.1 ∈ fields).Perm known)
    (hmem : ∀ m ∈ known, m ∈ c.encodeFields) (hnodup : (known.map Prod.fst).Nodup) :
    decode (.obj ms) = .ok (default.replace c (known.map Prod.fst).toFinset) := by
  have honce := (hknown.map Prod.fst).nodup_iff.mpr hnodup
  have hread : ((Json.members ms).filter fun m => m.1 ∈ fields).Perm known :=
    (Json.filter_members_perm (p := fun k => k ∈ fields) honce).trans hknown
  have hkeys := List.toFinset_eq_of_perm _ _ (hread.map Prod.fst)
  calc decode (.obj ms) = default.readAll (Json.members ms) := rfl
    _ = default.readAll ((Json.members ms).filter fun m => m.1 ∈ fields) := readAll_filter _ _
    _ = .ok (default.replace c (known.map Prod.fst).toFinset) := by
      rw [readAll_of_mem (fun m hm => hmem m (hread.subset hm)), hkeys]

theorem map_fst_part (c : Settings) (names : Finset Text) :
    (c.part names).map Prod.fst = fields.filter fun k => k ∈ names := by
  rw [← map_fst_encodeFields c, List.filter_map]
  rfl

theorem nodup_part (c : Settings) (names : Finset Text) : ((c.part names).map Prod.fst).Nodup := by
  rw [map_fst_part]
  exact nodup_fields.filter _

theorem replace_part (s c : Settings) (names : Finset Text) :
    s.replace c ((c.part names).map Prod.fst).toFinset = s.replace c names := by
  refine replace_congr (fun k hk => ?_) s c
  rw [map_fst_part, List.mem_toFinset, List.mem_filter, and_iff_right hk, decide_eq_true_iff]

theorem filter_known {known unknown ms : List (Text × Json)} (hknown : ∀ m ∈ known, m.1 ∈ fields)
    (hunknown : ∀ m ∈ unknown, m.1 ∉ fields) (hms : ms.Perm (known ++ unknown)) :
    (ms.filter fun m => m.1 ∈ fields).Perm known := by
  have hkept : (known.filter fun m => m.1 ∈ fields) = known :=
    List.filter_eq_self.mpr (by simpa using hknown)
  have hleft : (unknown.filter fun m => m.1 ∈ fields) = [] :=
    List.filter_eq_nil_iff.mpr (by simpa using hunknown)
  have hfilter := hms.filter fun m => decide (m.1 ∈ fields)
  rwa [List.filter_append, hkept, hleft, List.append_nil] at hfilter

theorem decode_of_part {unknown ms : List (Text × Json)} (hunknown : ∀ m ∈ unknown, m.1 ∉ fields)
    (hms : ms.Perm (c.part names ++ unknown)) :
    decode (.obj ms) = .ok (default.replace c names) := by
  have hmem : ∀ m ∈ c.part names, m ∈ c.encodeFields := fun m hm => List.mem_of_mem_filter hm
  have hfields : ∀ m ∈ c.part names, m.1 ∈ fields :=
    fun m hm => List.mem_map_of_mem (f := Prod.fst) (hmem m hm)
  rw [decode_of_known (filter_known hfields hunknown hms) hmem (nodup_part c names), replace_part]

theorem decode_encode (c : Settings) : decode c.encode = .ok c := by
  have hall : c.part fields.toFinset = c.encodeFields := rfl
  have hms : c.encodeFields.Perm (c.part fields.toFinset ++ []) := by rw [hall, List.append_nil]
  rw [encode, decode_of_part (fun m hm => absurd hm List.not_mem_nil) hms, replace_fields]

/-! ### No number of files at once -/

theorem mem_encodeFields_of_ne {m : Text × Json} (h : m ∈ c.encodeFields)
    (hne : m.1 ≠ "concurrency".toList)
    (n : Option UInt64) : m ∈ { c with concurrency := n }.encodeFields := by
  simp only [encodeFields, List.mem_cons, List.not_mem_nil, or_false] at h ⊢
  rcases h with h | h | h | h | h | h | h
  case inr.inr.inr.inl => exact absurd (congrArg Prod.fst h) hne
  all_goals simp [h]

theorem replace_of_not_mem (h : "concurrency".toList ∉ names) (s c : Settings) (n : Option UInt64) :
    s.replace { c with concurrency := n } names = s.replace c names := by
  simp only [replace, if_neg h]

/-- A number that is null is one that is not given. -/
theorem decode_of_null {unknown ms : List (Text × Json)} (h : "concurrency".toList ∉ names)
    (hunknown : ∀ m ∈ unknown, m.1 ∉ fields)
    (hms : ms.Perm (("concurrency".toList, .null) :: c.part names ++ unknown)) :
    decode (.obj ms) = .ok (default.replace c names) := by
  have hnew : "concurrency".toList ∉ (c.part names).map Prod.fst := by
    rw [map_fst_part, List.mem_filter]
    exact fun hin => h (of_decide_eq_true hin.2)
  have hmem : ∀ m ∈ ("concurrency".toList, Json.null) :: c.part names,
      m ∈ { c with concurrency := none }.encodeFields := by
    refine List.forall_mem_cons.mpr ⟨by simp [encodeFields, Json.ofOption], fun m hm => ?_⟩
    refine mem_encodeFields_of_ne (List.mem_of_mem_filter hm) (fun heq => hnew ?_) none
    exact heq ▸ List.mem_map_of_mem hm
  have hfields : ∀ m ∈ ("concurrency".toList, Json.null) :: c.part names, m.1 ∈ fields :=
    fun m hm =>
    List.mem_map_of_mem (f := Prod.fst) (hmem m hm)
  have hnodup := List.nodup_cons.mpr ⟨hnew, nodup_part c names⟩
  -- the null itself leaves the default
  have hdefault : default.replace { c with concurrency := none } {"concurrency".toList} = default :=
    rfl
  rw [decode_of_known (filter_known hfields hunknown hms) hmem hnodup, List.map_cons,
    List.toFinset_cons,
    replace_insert, hdefault, replace_of_not_mem (by simpa using hnew), replace_part]

/-- **Settings from any part of their fields.** An object that holds the named fields as they are
written, in any order and among any members that settings do not know, is read as the default
settings with these fields replaced; a concurrency of null is then the same as none at all. So
settings that are written whole are read back. -/
theorem decode_any_part (c : Settings) (names : Finset Text) {unknown ms : List (Text × Json)}
    (hunknown : ∀ m ∈ unknown, m.1 ∉ fields) (hms : ms.Perm (c.part names ++ unknown)) :
    decode (.obj ms) = .ok (default.replace c names) ∧
    (∀ nulled : List (Text × Json), "concurrency".toList ∉ names →
      nulled.Perm (("concurrency".toList, .null) :: ms) → decode (.obj nulled) = decode (.obj ms)) ∧
    decode c.encode = .ok c := by
  have hpart := decode_of_part hunknown hms
  refine ⟨hpart, fun nulled hname hnulled => ?_, decode_encode c⟩
  rw [hpart]
  exact decode_of_null hname hunknown (hnulled.trans (hms.cons _))

/-- Three fields behind two members with one unknown key; the number of files at once is left out or
null. -/
theorem decode_any_part_backwards :
    let c : Settings := { default with
      root := ['d'], ignore := [[], ['*']], concurrency := some 3, verbose := true }
    let names : Finset Text := {"root".toList, "ignore".toList, "verbose".toList}
    let unknown : List (Text × Json) := [(['x'], .int 3), (['x'], .null)]
    let ms := [(['x'], .null), (['x'], .int 3), ("verbose".toList, .bool true),
      ("ignore".toList, .arr [.str [], .str ['*']]), ("root".toList, .str ['d'])]
    (∀ m ∈ unknown, m.1 ∉ fields) ∧ ms.Perm (c.part names ++ unknown) ∧
      decode (.obj ms) = .ok { c with concurrency := none } ∧
      decode (.obj (("concurrency".toList, .null) :: ms)) = .ok { c with concurrency := none } ∧
      decode c.encode = .ok c := by
  intro c names unknown ms
  have hunknown : ∀ m ∈ unknown, m.1 ∉ fields := by
    refine List.forall_mem_cons.mpr ⟨by decide, List.forall_mem_cons.mpr ⟨by decide, ?_⟩⟩
    exact fun m hm => absurd hm List.not_mem_nil
  have hms : ms.Perm (c.part names ++ unknown) := List.reverse_perm (c.part names ++ unknown)
  obtain ⟨hpart, hnull, hwhole⟩ := decode_any_part c names hunknown hms
  have hresult : default.replace c names = { c with concurrency := none } := rfl
  rw [hresult] at hpart
  refine ⟨hunknown, hms, hpart, ?_, hwhole⟩
  rw [hnull _ (by decide) (.refl _), hpart]

end Settings

end ActionItems
