import Mathlib.Data.List.Basic
import ActionItems.LineScan
import ActionItems.Proofs.TagWords

/-! # The first whole tag word of a line

A whole tag word has no word character on either side. `HoldsTag` says that a text has one
somewhere; what `firstTag` finds is one (`firstTag_eq_some`), it finds none behind another
(`exists_firstTag`), and it finds nothing only if there is none (`firstTag_eq_none_iff`).

A character that belongs to no word neither starts a tag word nor goes on with one. So behind a text
without a whole tag word, and behind characters that belong to no word, the search starts over
(`firstTag_append_of_not_word`). Blanks are such characters. -/

namespace ActionItems

open Text

/-! ### Characters that belong to no word -/

theorem Text.isWordChar_of_blank {c : Char} (h : isBlank c = true) : isWordChar c = false := by
  have htable : ∀ n ∈ [0x09, 0x0A, 0x0B, 0x0C, 0x0D, 0x20, 0x85, 0xA0, 0x1680, 0x2000, 0x2001,
      0x2002, 0x2003, 0x2004, 0x2005, 0x2006, 0x2007, 0x2008, 0x2009, 0x200A, 0x2028, 0x2029,
      0x202F, 0x205F, 0x3000], inRanges n wordRanges = false := by decide +kernel
  apply htable
  simp only [isBlank, Bool.or_eq_true, Bool.and_eq_true, decide_eq_true_eq, beq_iff_eq] at h
  simp only [List.mem_cons, List.not_mem_nil, or_false]
  omega

theorem Text.endsWord_of_blank {b : Text} (hb : ∀ c ∈ b, isBlank c) : endsWord b = true := by
  cases b with
  | nil => rfl
  | cons c b => simp [endsWord, isWordChar_of_blank (hb c (List.mem_cons_self ..))]

theorem Tag.readWhole_of_not_word {c : Char} (hc : isWordChar c = false) (s : Text) :
    readWhole (c :: s) = none := by
  rw [Option.eq_none_iff_forall_ne_some]
  rintro ⟨w, r⟩ h
  obtain ⟨hs, t, ht⟩ := of_readWhole h
  cases w with
  | nil => cases t <;> simp [name] at ht
  | cons d w =>
    obtain ⟨rfl, -⟩ := List.cons.inj hs
    have hword : isWordChar c = true := isWordChar_of_fold_mem (t := t) (by simp [← ht])
    simp [hword] at hc

namespace LineScan

/-! ### What is found -/

/-- A whole tag word stands in the text. -/
def HoldsTag (s : Text) : Prop :=
  ∃ before word rest, s = before ++ (word ++ rest) ∧ (∀ c ∈ before.getLast?, isWordChar c = false) ∧
    Tag.readWhole (word ++ rest) = some (word, rest)

/-- **What is found** is a whole tag word. -/
theorem firstTag_eq_some {inWord : Bool} {s before word rest : Text}
    (h : firstTag inWord s = some (before, word, rest)) :
    s = before ++ (word ++ rest) ∧ Tag.readWhole (word ++ rest) = some (word, rest) ∧
      (before = [] → inWord = false) ∧ ∀ c ∈ before.getLast?, isWordChar c = false := by
  induction s generalizing inWord before with
  | nil => simp [firstTag] at h
  | cons c s ih =>
    rw [firstTag] at h
    split at h
    · next w r hread =>
      obtain ⟨rfl, rfl, rfl⟩ : [] = before ∧ w = word ∧ r = rest := by simpa using h
      cases inWord with
      | true => simp at hread
      | false =>
        rw [if_neg (by simp)] at hread
        obtain ⟨hs, -⟩ := Tag.of_readWhole hread
        exact ⟨hs, hs ▸ hread, fun _ => rfl, by simp⟩
    · obtain ⟨⟨b, w, r⟩, hrest, heq⟩ := Option.map_eq_some_iff.mp h
      obtain ⟨rfl, rfl, rfl⟩ : c :: b = before ∧ w = word ∧ r = rest := by simpa using heq
      obtain ⟨rfl, hread, hnil, hlast⟩ := ih hrest
      refine ⟨rfl, hread, by simp, fun d hd => ?_⟩
      cases b with
      | nil =>
        obtain rfl : c = d := by simpa using hd
        exact hnil rfl
      | cons e b => exact hlast d (by simpa [List.getLast?_cons_cons] using hd)

theorem firstTag_of_readWhole {s word rest : Text} (h : Tag.readWhole s = some (word, rest)) :
    firstTag false s = some ([], word, rest) := by
  cases s with
  | nil => cases h
  | cons c s => rw [firstTag, if_neg (by simp), h]

/-- **Behind a whole tag word** nothing is looked for: the search ends there, or before it. -/
theorem exists_firstTag {before word rest : Text}
    (hread : Tag.readWhole (word ++ rest) = some (word, rest)) :
    ∀ inWord, (before = [] → inWord = false) → (∀ c ∈ before.getLast?, isWordChar c = false) →
      ∃ x, firstTag inWord (before ++ (word ++ rest)) = some x ∧ x.1.length ≤ before.length := by
  induction before with
  | nil =>
    intro inWord hnil _
    rw [hnil rfl, List.nil_append, firstTag_of_readWhole hread]
    exact ⟨_, rfl, Nat.le_refl 0⟩
  | cons c before ih =>
    intro inWord _ hlast
    -- the flag for the text behind `c` is that of `c`, which is the last character if no other
    -- follows
    obtain ⟨x, hx, hlen⟩ := ih (isWordChar c) (fun hnil => hlast c (by simp [hnil])) fun d hd =>
      hlast d (by
      rw [List.getLast?_cons, Option.mem_def.mp hd]
      rfl)
    rw [List.cons_append, firstTag]
    split
    · exact ⟨_, rfl, Nat.zero_le _⟩
    · rw [hx]
      exact ⟨_, rfl, Nat.succ_le_succ hlen⟩

theorem firstTag_eq_none_iff {s : Text} : firstTag false s = none ↔ ¬ HoldsTag s := by
  constructor
  · rintro hnone ⟨before, word, rest, rfl, hlast, hread⟩
    obtain ⟨x, hx, -⟩ := exists_firstTag hread false (fun _ => rfl) hlast
    simp [hx] at hnone
  · intro hno
    rw [Option.eq_none_iff_forall_ne_some]
    rintro ⟨before, word, rest⟩ hfound
    obtain ⟨hs, hread, -, hlast⟩ := firstTag_eq_some hfound
    exact hno ⟨before, word, rest, hs, hlast, hread⟩

instance : DecidablePred HoldsTag := fun s =>
  decidable_of_iff (¬ firstTag false s = none) (by rw [firstTag_eq_none_iff, not_not])

/-! ### Text in front -/

theorem firstTag_append_cons {s : Text} {c : Char} (hc : isWordChar c = false) (t : Text) :
    ∀ inWord, firstTag inWord s = none →
      firstTag inWord (s ++ c :: t) = (firstTag false t).map fun x => (s ++ c :: x.1, x.2) := by
  induction s with
  | nil =>
    intro inWord _
    rw [List.nil_append, firstTag, Tag.readWhole_of_not_word hc, hc]
    cases inWord <;> rfl
  | cons d s ih =>
    intro inWord hnone
    have hread :=
      Tag.readWhole_append (show endsWord (c :: t) = true by simp [endsWord, hc]) (d :: s)
    rw [firstTag] at hnone
    split at hnone
    · simp at hnone
    next hhead =>
    have hhead' : (if inWord = true then none else Tag.readWhole (d :: s ++ c :: t)) = none := by
      rw [hread]
      cases inWord with
      | true => rfl
      | false =>
        rw [if_neg (by simp)] at hhead
        rw [hhead]
        rfl
    rw [List.cons_append, firstTag, ← List.cons_append, hhead',
      ih _ (Option.map_eq_none_iff.mp hnone),
      Option.map_map]
    rfl

/-- **The search starts over** behind a text without a whole tag word and characters that belong to
no word. -/
theorem firstTag_append_of_not_word {a : Text} (hne : a ≠ []) (ha : ∀ c ∈ a, isWordChar c = false)
    {s : Text} {inWord : Bool} (hs : firstTag inWord s = none) (t : Text) :
    firstTag inWord (s ++ (a ++ t)) = (firstTag false t).map fun x => (s ++ (a ++ x.1), x.2) := by
  induction a generalizing s inWord with
  | nil => exact absurd rfl hne
  | cons c a ih =>
    rw [List.cons_append, firstTag_append_cons (ha c (List.mem_cons_self ..)) _ _ hs]
    by_cases hnil : a = []
    · subst hnil
      rfl
    · have htail : firstTag false ([] ++ (a ++ t)) = (firstTag false t).map fun x =>
        (a ++ x.1, x.2) :=
        ih hnil (fun x hx => ha x (List.mem_cons_of_mem _ hx)) rfl
      rw [List.nil_append] at htail
      rw [htail, Option.map_map]
      rfl

end LineScan

end ActionItems
