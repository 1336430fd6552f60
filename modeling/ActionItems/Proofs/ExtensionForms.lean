import Mathlib.Data.Finset.Max
import Mathlib.Data.List.Sort
import ActionItems.Settings
import ActionItems.Proofs.Cutting
import ActionItems.Proofs.Utf8

/-! # The normal form of extensions, early or late

The normal form of an extension is taken in three steps, each once: blanks around it, dots in front
of it, upper case. Dropping the dots may bare a blank, as in `. ts`, and that blank is dropped only
when the form is taken again. So the form of a form is the form itself just if no blank stands
behind the dots (`plainExtension_plainExtension_iff`).

The extensions of a scan are normalised when they are set and again when they are used. What is used
is an ascending list of the forms, so it depends on the members of the given list only
(`wantedExtensions_congr`), and the first pass changes nothing just if no given extension has a
blank behind its dots: of those that have, one with a longest form is used after one pass and not
after two (`not_mem_of_longest`). -/

namespace ActionItems.Settings

open Text

/-! ### Letters -/

theorem toLower_cases (c : Char) : c.toLower = c ∨
    65 ≤ c.toNat ∧ c.toNat ≤ 90 ∧ c.toLower.toNat = c.toNat + 32 := by
  unfold Char.toLower
  split_ifs with h
  · have hlow : 65 ≤ c.toNat := h.1
    have hhigh : c.toNat ≤ 90 := h.2
    refine Or.inr ⟨hlow, hhigh, ?_⟩
    show (c.val + 32).toNat = c.toNat + 32
    rw [UInt32.toNat_add]
    exact Nat.mod_eq_of_lt (by show c.toNat + 32 < 2 ^ 32; omega)
  · exact Or.inl rfl

theorem toLower_toLower (c : Char) : c.toLower.toLower = c.toLower := by
  rcases toLower_cases c with h | ⟨hlow, hhigh, h⟩
  · rw [h, h]
  · rcases toLower_cases c.toLower with h' | ⟨hlow', hhigh', -⟩
    · exact h'
    · omega

theorem isBlank_toLower (c : Char) : isBlank c.toLower = isBlank c := by
  rcases toLower_cases c with h | ⟨hlow, hhigh, h⟩
  · rw [h]
  · have hno : ∀ d : Char, 65 ≤ d.toNat → d.toNat ≤ 122 → isBlank d = false := by
      intro d hlow hhigh
      rw [← Bool.not_eq_true]
      simp only [isBlank, Bool.or_eq_true, Bool.and_eq_true, decide_eq_true_eq, beq_iff_eq]
      omega
    rw [hno c hlow (by omega), hno c.toLower (by omega) (by omega)]

theorem eq_dot_of_toLower {c : Char} (h : c.toLower = '.') : c = '.' := by
  rcases toLower_cases c with h' | ⟨hlow, -, h'⟩
  · exact h'.symm.trans h
  · have hdot : c.toNat + 32 = 46 := by rw [← h', h]; rfl
    omega

/-! ### One extension -/

/-- A blank stands behind the dots in front of an extension. -/
def IsSpaced (raw : Text) : Prop :=
  ∃ dots b rest, trim raw = dots ++ b :: rest ∧ (∀ c ∈ dots, c = '.') ∧ isBlank b = true

/-- A form begins with a blank just if one stands behind the dots. -/
theorem isSpaced_iff {raw : Text} :
    IsSpaced raw ↔ ∃ b rest, plainExtension raw = b :: rest ∧ isBlank b = true := by
  constructor
  · rintro ⟨dots, b, rest, htrim, hdots, hb⟩
    have hdot : ¬ (b == '.') = true := by
      intro h
      rw [eq_of_beq h] at hb
      exact absurd hb (by decide)
    refine ⟨b.toLower, lower rest, ?_, by rw [isBlank_toLower, hb]⟩
    rw [plainExtension, htrim, List.dropWhile_append_of_pos fun c hc => by simp [hdots c hc],
      List.dropWhile_cons_of_neg (p := (· == '.')) hdot]
    rfl
  · rintro ⟨b, rest, hform, hb⟩
    obtain ⟨b', rest', hdrop, rfl, -⟩ := List.map_eq_cons_iff.mp hform
    rw [isBlank_toLower] at hb
    refine ⟨(trim raw).takeWhile (· == '.'), b', rest', ?_, fun c hc => ?_, hb⟩
    · rw [← hdrop, List.takeWhile_append_dropWhile]
    · simpa using List.mem_takeWhile_imp hc

theorem lower_plainExtension (raw : Text) : lower (plainExtension raw) = plainExtension raw := by
  rw [plainExtension, lower, lower, List.map_map]
  exact List.map_congr_left fun c _ => toLower_toLower c

/-- No dot stands in front of a form. -/
theorem dropWhile_plainExtension (raw : Text) :
    (plainExtension raw).dropWhile (· == '.') = plainExtension raw := by
  cases hform : plainExtension raw with
  | nil => rfl
  | cons c rest =>
    refine List.dropWhile_cons_of_neg fun hc => ?_
    obtain ⟨d, rest', hdrop, hd, -⟩ := List.map_eq_cons_iff.mp hform
    have hhead := List.head?_dropWhile_not (· == '.') (trim raw)
    rw [hdrop] at hhead
    rw [eq_dot_of_toLower (hd.trans (eq_of_beq hc))] at hhead
    simp at hhead

/-- No blank stands at the end of a form. -/
theorem not_isBlank_of_getLast? {raw : Text} {c : Char} (h : c ∈ (plainExtension raw).getLast?) :
    isBlank c = false := by
  rw [plainExtension, lower, List.getLast?_map, Option.mem_map] at h
  obtain ⟨d, hd, rfl⟩ := h
  rw [isBlank_toLower]
  refine (isTrimmed_trim raw).2 d ?_
  obtain ⟨dots, hdots⟩ := List.dropWhile_suffix (· == '.') (l := trim raw)
  rw [← hdots, List.getLast?_append, Option.mem_def.mp hd]
  rfl

theorem plainExtension_of_not_isSpaced {raw : Text} (h : ¬ IsSpaced raw) :
    plainExtension (plainExtension raw) = plainExtension raw := by
  have htrim : trim (plainExtension raw) = plainExtension raw := by
    by_cases hne : plainExtension raw = []
    · rw [hne]
      rfl
    · have htrimmed : IsTrimmed (plainExtension raw) := by
        refine ⟨fun c hc => ?_, fun c hc => not_isBlank_of_getLast? hc⟩
        obtain ⟨rest, hform⟩ := List.head?_eq_some_iff.mp hc
        rw [← Bool.not_eq_true]
        exact fun hb => h (isSpaced_iff.mpr ⟨c, rest, hform, hb⟩)
      exact trim_append_of_isTrimmed hne htrimmed []
  calc plainExtension (plainExtension raw) = lower ((plainExtension raw).dropWhile (· == '.')) := by
        rw [plainExtension, htrim]
    _ = plainExtension raw := by rw [dropWhile_plainExtension, lower_plainExtension]

theorem length_plainExtension_le (raw : Text) :
    (plainExtension raw).length ≤ (trim raw).length := by
  rw [plainExtension, lower, List.length_map]
  exact List.length_dropWhile_le _ _

theorem length_plainExtension_lt {raw : Text} (h : IsSpaced raw) :
    (plainExtension (plainExtension raw)).length < (plainExtension raw).length := by
  obtain ⟨b, rest, hform, hb⟩ := isSpaced_iff.mp h
  have htrim : trim (plainExtension raw) = trim rest := by
    rw [hform, ← List.singleton_append, trim, trim,
      trimStart_append_of_blank (List.forall_mem_singleton.mpr hb)]
  have hle := length_plainExtension_le (plainExtension raw)
  obtain ⟨x, y, hrest, -, -⟩ := exists_trim rest
  have hlen := congrArg List.length hrest
  simp only [List.length_append] at hlen
  rw [htrim] at hle
  rw [hform, List.length_cons, ← hform]
  omega

/-- **The form of a form** is the form itself just if no blank stands behind the dots. -/
theorem plainExtension_plainExtension_iff (raw : Text) :
    plainExtension (plainExtension raw) = plainExtension raw ↔ ¬ IsSpaced raw := by
  refine ⟨fun h hspaced => ?_, plainExtension_of_not_isSpaced⟩
  have hlt := length_plainExtension_lt hspaced
  rw [h] at hlt
  exact Nat.lt_irrefl _ hlt

/-! ### Lists of extensions -/

theorem mem_foldr_place {e : Text} {l : List Text} : e ∈ l.foldr (place id) [] ↔ e ∈ l := by
  induction l with
  | nil => rfl
  | cons s l ih =>
    rw [List.foldr_cons, List.mem_cons, ← ih]
    refine ⟨mem_place, fun h => ?_⟩
    by_cases hs : s = e
    · exact hs ▸ mem_place_self id s _
    · exact mem_place_of_mem (h.resolve_left (Ne.symm hs)) hs

theorem foldr_place_ascending (l : List Text) : (l.foldr (place id) []).Pairwise (· < ·) := by
  induction l with
  | nil => exact List.Pairwise.nil
  | cons s l ih => exact place_ascending s ih

theorem mem_plainExtensions_iff {raw : List Text} {e : Text} :
    e ∈ plainExtensions raw ↔ (e ≠ [] ∧ ∃ x ∈ raw, plainExtension x = e) ∨
      (∀ x ∈ raw, plainExtension x = []) ∧ e ∈ defaultExtensions := by
  have hforms : ∀ e, e ∈ (raw.map plainExtension).filter (!·.isEmpty) ↔ e ≠ [] ∧
    ∃ x ∈ raw, plainExtension x = e := by
    intro e
    rw [List.mem_filter, List.mem_map, and_comm]
    simp
  have hnil :
      (raw.map plainExtension).filter (!·.isEmpty) = [] ↔ ∀ x ∈ raw, plainExtension x = [] := by
    simp
  rw [← hforms, ← hnil]
  unfold plainExtensions
  split
  · next h => simp only [h, List.not_mem_nil, false_or, true_and]
  · next h => exact ⟨Or.inl, fun he => he.elim id fun hnone => absurd hnone.1 h⟩

theorem defaultExtensions_plain : ∀ e ∈ defaultExtensions, plainExtension e = e ∧ e ≠ [] := by
  decide

theorem plainExtensions_ne_nil (raw : List Text) : plainExtensions raw ≠ [] := by
  unfold plainExtensions
  split
  · decide
  · assumption

theorem ne_nil_of_mem_plainExtensions {raw : List Text} {e : Text} (h : e ∈ plainExtensions raw) :
    e ≠ [] := by
  rcases mem_plainExtensions_iff.mp h with ⟨hne, -⟩ | ⟨-, hdefault⟩
  · exact hne
  · exact (defaultExtensions_plain e hdefault).2

/-- Extensions in normal form are left as they are. -/
theorem mem_plainExtensions_of_plain {l : List Text} (hne : l ≠ [])
    (h : ∀ e ∈ l, plainExtension e = e ∧ e ≠ [])
    {e : Text} : e ∈ plainExtensions l ↔ e ∈ l := by
  obtain ⟨x, l', rfl⟩ := List.exists_cons_of_ne_nil hne
  rw [mem_plainExtensions_iff]
  constructor
  · rintro (⟨-, y, hy, rfl⟩ | ⟨hall, -⟩)
    · rwa [(h y hy).1]
    · have hx := h x (List.mem_cons_self ..)
      exact absurd (hx.1.symm.trans (hall x (List.mem_cons_self ..))) hx.2
  · exact fun he => Or.inl ⟨(h e he).2, e, he, (h e he).1⟩

/-- **A longest form** among those with a blank in front is lost when the forms are taken again: it
is the form of no shorter form, and a longer one has no blank in front. -/
theorem not_mem_of_longest {raw : List Text} {y : Text} (hy : y ∈ raw) (hspaced : IsSpaced y)
    (hlongest : ∀ z ∈ raw, IsSpaced z → (plainExtension z).length ≤ (plainExtension y).length) :
    plainExtension y ∉ plainExtensions (plainExtensions raw) := by
  intro hmem
  obtain ⟨b, rest, hform, -⟩ := isSpaced_iff.mp hspaced
  rcases mem_plainExtensions_iff.mp hmem with ⟨-, x, hx, hxy⟩ | ⟨-, hdefault⟩
  · rcases mem_plainExtensions_iff.mp hx with ⟨-, z, hz, rfl⟩ | ⟨hall, -⟩
    · by_cases hspaced' : IsSpaced z
      · have hlt := length_plainExtension_lt hspaced'
        have hle := hlongest z hz hspaced'
        rw [hxy] at hlt
        omega
      · rw [plainExtension_of_not_isSpaced hspaced'] at hxy
        rw [isSpaced_iff, ← hxy, ← isSpaced_iff] at hspaced
        exact hspaced' hspaced
    · simp [hall y hy] at hform
  · exact (plainExtension_plainExtension_iff y).mp (defaultExtensions_plain _ hdefault).1 hspaced

/-! ### The extensions of a scan -/

/-- A list without repetition in the order of bytes, none of whose texts is empty, and not empty
itself. -/
structure IsListing (es : List Text) : Prop where
  nonempty : es ≠ []
  ascending : es.Pairwise fun a b => Utf8.encode a < Utf8.encode b
  members : ∀ e ∈ es, e ≠ []

theorem mem_wantedExtensions_iff {s : Settings} {e : Text} :
    e ∈ s.wantedExtensions ↔ e ∈ plainExtensions s.extensions :=
  mem_foldr_place

theorem isListing_wantedExtensions (s : Settings) : IsListing s.wantedExtensions where
  nonempty := by
    obtain ⟨e, he⟩ := List.exists_mem_of_ne_nil _ (plainExtensions_ne_nil s.extensions)
    exact List.ne_nil_of_mem (mem_wantedExtensions_iff.mpr he)
  ascending := (foldr_place_ascending _).imp Utf8.encode_lt_encode
  members _ he := ne_nil_of_mem_plainExtensions (mem_wantedExtensions_iff.mp he)

theorem wantedExtensions_congr {s s' : Settings}
    (h : ∀ e, e ∈ plainExtensions s.extensions ↔ e ∈ plainExtensions s'.extensions) :
    s.wantedExtensions = s'.wantedExtensions :=
  (foldr_place_ascending _).eq_of_mem_iff (foldr_place_ascending _) fun e =>
    mem_wantedExtensions_iff.trans ((h e).trans mem_wantedExtensions_iff.symm)

theorem mem_plainExtensions_congr {raw raw' : List Text} (h : ∀ e, e ∈ raw ↔ e ∈ raw') (e : Text) :
    e ∈ plainExtensions raw ↔ e ∈ plainExtensions raw' := by
  simp only [mem_plainExtensions_iff, h]

theorem wantedExtensions_setExtensions_iff (s : Settings) (raw : List Text) :
    (s.setExtensions raw).wantedExtensions = { s with extensions := raw }.wantedExtensions ↔
      ∀ e ∈ raw, ¬ IsSpaced e := by
  classical
  constructor
  · intro heq e he hspaced
    obtain ⟨y, hy, hlongest⟩ := Finset.exists_max_image (raw.toFinset.filter IsSpaced)
      (fun x => (plainExtension x).length) ⟨e, by simp [he, hspaced]⟩
    simp only [Finset.mem_filter, List.mem_toFinset, and_imp] at hy hlongest
    obtain ⟨b, rest, hform, -⟩ := isSpaced_iff.mp hy.2
    have hlate : plainExtension y ∈ { s with extensions := raw }.wantedExtensions :=
      mem_wantedExtensions_iff.mpr
        (mem_plainExtensions_iff.mpr (Or.inl ⟨by simp [hform], y, hy.1, rfl⟩))
    rw [← heq, mem_wantedExtensions_iff] at hlate
    exact not_mem_of_longest hy.1 hy.2 hlongest hlate
  · intro hnone
    refine wantedExtensions_congr fun e =>
      mem_plainExtensions_of_plain (plainExtensions_ne_nil raw) fun x hx => ?_
    refine ⟨?_, ne_nil_of_mem_plainExtensions hx⟩
    rcases mem_plainExtensions_iff.mp hx with ⟨-, z, hz, rfl⟩ | ⟨-, hdefault⟩
    · exact plainExtension_of_not_isSpaced (hnone z hz)
    · exact (defaultExtensions_plain x hdefault).1

/-- **Early or late.** The form of a form is the form itself, and setting extensions in normal form
is the same as leaving that to their use, just if no blank stands behind the dots of an extension.
Either way the extensions of a scan are an ascending list that depends only on the members of the
list that was given. -/
theorem extensions_early_or_late (s : Settings) (raw : List Text) :
    (∀ e, plainExtension (plainExtension e) = plainExtension e ↔ ¬ IsSpaced e) ∧
    ((s.setExtensions raw).wantedExtensions = { s with extensions := raw }.wantedExtensions ↔
      ∀ e ∈ raw, ¬ IsSpaced e) ∧
    IsListing (s.setExtensions raw).wantedExtensions ∧
    IsListing { s with extensions := raw }.wantedExtensions ∧
    ∀ raw', (∀ e, e ∈ raw ↔ e ∈ raw') →
      (s.setExtensions raw).wantedExtensions = (s.setExtensions raw').wantedExtensions ∧
      { s with extensions := raw }.wantedExtensions =
        { s with extensions := raw' }.wantedExtensions := by
  refine ⟨plainExtension_plainExtension_iff, wantedExtensions_setExtensions_iff s raw,
    isListing_wantedExtensions _,
    isListing_wantedExtensions _, fun raw' hsame => ?_⟩
  have hforms := mem_plainExtensions_congr hsame
  exact ⟨wantedExtensions_congr (mem_plainExtensions_congr hforms), wantedExtensions_congr hforms⟩

/-- Two spellings of one extension, one without a form, and the same list in another order. -/
theorem extensions_early_or_late_spellings :
    let raw := [" .TS".toList, ".".toList, "tar.gz".toList, "ts".toList]
    let raw' := ["ts".toList, "tar.gz".toList, ".".toList, " .TS".toList, "ts".toList]
    (∀ e, e ∈ raw ↔ e ∈ raw') ∧ (∀ e ∈ raw, ¬ IsSpaced e) ∧
      (default.setExtensions raw).wantedExtensions =
        { default with extensions := raw }.wantedExtensions ∧
      { default with extensions := raw }.wantedExtensions = ["tar.gz".toList, "ts".toList] ∧
      { default with extensions := raw }.wantedExtensions =
        { default with extensions := raw' }.wantedExtensions := by
  intro raw raw'
  have hsame : ∀ e, e ∈ raw ↔ e ∈ raw' := by
    intro e
    simp only [raw, raw', List.mem_cons, List.not_mem_nil, or_false]
    tauto
  obtain ⟨hform, hequal, -, -, hset⟩ := extensions_early_or_late default raw
  have hplain : ∀ e ∈ raw, plainExtension (plainExtension e) = plainExtension e := by decide
  have hspaced : ∀ e ∈ raw, ¬ IsSpaced e := fun e he => (hform e).mp (hplain e he)
  exact ⟨hsame, hspaced, hequal.mpr hspaced, by decide, (hset raw' hsame).2⟩

/-- **A blank behind a dot** is left by the first pass and dropped by the second. -/
theorem blank_behind_dot :
    ¬ (∀ e, plainExtension (plainExtension e) = plainExtension e) ∧
      ¬ ∀ (s : Settings) (raw : List Text),
        (s.setExtensions raw).wantedExtensions = { s with extensions := raw }.wantedExtensions := by
  refine ⟨fun h => ?_, fun h => ?_⟩
  · exact absurd (h ". x".toList) (by decide)
  · exact absurd (h default [". x".toList]) (by decide)

end ActionItems.Settings
