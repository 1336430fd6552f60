import Mathlib.Data.List.Basic
import Mathlib.Tactic.SplitIfs
import ActionItems.Tag

/-! # Tag words and what follows them

A tag word is read letter by letter: what is read at the head of a text is a word that folds to a
tag's name (`read_eq_some_iff`). Each character that folds to a letter of a tag is a word character
(`isWordChar_of_fold_mem`). So what is read does not change when text is put behind it that does not
go on with a word (`readWhole_append`). -/

namespace ActionItems.Tag

open Text

/-! ### Letters -/

theorem isWordChar_of_letter {c : Char}
    (h : 65 ≤ c.toNat ∧ c.toNat ≤ 90 ∨ 97 ≤ c.toNat ∧ c.toNat ≤ 122) : isWordChar c = true := by
  show inRanges c.toNat
    ((0x30, 0x39) :: (0x41, 0x5A) :: (0x5F, 0x5F) :: (0x61, 0x7A) :: wordRanges.drop 4) = true
  simp only [inRanges]
  split_ifs <;> first | rfl | omega

theorem toUpper_eq_or (c : Char) : c.toUpper = c ∨ 97 ≤ c.toNat ∧ c.toNat ≤ 122 := by
  unfold Char.toUpper
  split_ifs with hc
  · exact Or.inr hc
  · exact Or.inl rfl

theorem name_letters (t : Tag) : ∀ d ∈ t.name, 65 ≤ d.toNat ∧ d.toNat ≤ 90 := by
  have hall : (t.name.all fun d => 65 ≤ d.toNat && d.toNat ≤ 90) = true := by cases t <;> decide
  simpa using hall

theorem isWordChar_of_fold_mem {c : Char} {t : Tag} (h : fold c ∈ t.name) :
    isWordChar c = true := by
  have hd := name_letters t _ h
  unfold fold at hd
  split_ifs at hd with hk
  · have hc : c = Char.ofNat 0x212A := by rw [← hk, Char.ofNat_toNat]
    rw [hc]
    decide +kernel
  · rcases toUpper_eq_or c with he | hl
    · exact isWordChar_of_letter (Or.inl (he ▸ hd))
    · exact isWordChar_of_letter (Or.inr hl)

/-! ### Words that are read -/

theorem eq_of_head_name {g t : Tag} (h : g.name.head? = t.name.head?) : g = t := by
  revert h
  cases g <;> cases t <;> decide

/-- A word that spells one tag's name is read as no other tag. -/
theorem eq_of_take_fold {w : Text} {g t : Tag} (ht : w.map fold = t.name) {r : Text}
    (hg : ((w ++ r).take g.name.length).map fold = g.name) : g = t := by
  apply eq_of_head_name
  have hgpos : g.name.length ≠ 0 := by cases g <;> decide
  have htne : t.name ≠ [] := by cases t <;> decide
  cases w with
  | nil => exact absurd ht.symm htne
  | cons c w =>
    rw [← hg, ← ht, List.map_cons, List.head?_map, List.head?_take, if_neg hgpos]
    rfl

/-- **What is read** at the head of a text: a word whose letters fold to those of a tag's name. -/
theorem read_eq_some_iff {s w r : Text} :
    read s = some (w, r) ↔ s = w ++ r ∧ ∃ t : Tag, w.map fold = t.name := by
  unfold read
  constructor
  · intro h
    obtain ⟨t, -, ht⟩ := List.exists_of_findSome?_eq_some h
    dsimp only at ht
    split_ifs at ht with hname
    obtain ⟨rfl, rfl⟩ := Prod.mk.inj (Option.some.inj ht)
    exact ⟨(List.take_append_drop _ s).symm, t, eq_of_beq hname⟩
  · rintro ⟨rfl, t, ht⟩
    have hlen : t.name.length = w.length := by rw [← ht, List.length_map]
    have hstep : ∀ g : Tag, (if ((w ++ r).take g.name.length).map fold == g.name then
        some ((w ++ r).take g.name.length, (w ++ r).drop g.name.length) else none) =
          if g = t then some (w, r) else none := by
      intro g
      by_cases hg : g = t
      · subst hg
        rw [hlen, List.take_left, List.drop_left, ht, beq_self_eq_true, if_pos rfl, if_pos rfl]
      · rw [if_neg hg, if_neg]
        exact fun h => hg (eq_of_take_fold ht (eq_of_beq h))
    dsimp only
    simp only [hstep]
    cases t <;> rfl

theorem readWhole_eq_some_iff {s w r : Text} :
    readWhole s = some (w, r) ↔ read s = some (w, r) ∧ endsWord r = true := by
  rw [readWhole, Option.filter_eq_some_iff]

theorem of_readWhole {s w r : Text} (h : readWhole s = some (w, r)) :
    s = w ++ r ∧ ∃ t : Tag, w.map fold = t.name :=
  read_eq_some_iff.mp (readWhole_eq_some_iff.mp h).1

/-! ### Text behind a tag word -/

/-- Text that does not go on with a word neither completes nor breaks a tag's name. -/
theorem take_append_fold {t : Text} (ht : endsWord t = true) (s : Text) (g : Tag) :
    (((s ++ t).take g.name.length).map fold == g.name) =
      ((s.take g.name.length).map fold == g.name) := by
  by_cases hn : g.name.length ≤ s.length
  · rw [List.take_append_of_le_length hn]
  · have hs : ((s.take g.name.length).map fold == g.name) = false := by
      rw [beq_eq_false_iff_ne]
      intro he
      have := congrArg List.length he
      simp only [List.length_map, List.length_take] at this
      omega
    rw [hs]
    cases t with
    | nil => rw [List.append_nil, hs]
    | cons c t =>
      rw [beq_eq_false_iff_ne]
      intro he
      have hmem : c ∈ (s ++ c :: t).take g.name.length := by
        obtain ⟨k, hk⟩ : ∃ k, g.name.length = s.length + (k + 1) :=
          ⟨g.name.length - s.length - 1, by omega⟩
        rw [hk, List.take_length_add_append]
        simp
      have hw : isWordChar c = true := isWordChar_of_fold_mem (he ▸ List.mem_map_of_mem hmem)
      simp [endsWord, hw] at ht

theorem read_append {t : Text} (ht : endsWord t = true) (s : Text) :
    read (s ++ t) = (read s).map fun x => (x.1, x.2 ++ t) := by
  unfold read
  rw [List.map_findSome?]
  congr 1
  funext g
  dsimp only [Function.comp]
  rw [take_append_fold ht]
  split_ifs with h
  · have hn : g.name.length ≤ s.length := by
      have := congrArg List.length (eq_of_beq h)
      simp only [List.length_map, List.length_take] at this
      omega
    rw [List.take_append_of_le_length hn, List.drop_append_of_le_length hn]
    rfl
  · rfl

theorem endsWord_append {t : Text} (ht : endsWord t = true) (s : Text) :
    endsWord (s ++ t) = endsWord s := by
  cases s with
  | nil => exact ht
  | cons c s => rfl

/-- **Text that does not go on with a word** leaves the whole tag word at the head of a text. -/
theorem readWhole_append {t : Text} (ht : endsWord t = true) (s : Text) :
    readWhole (s ++ t) = (readWhole s).map fun x => (x.1, x.2 ++ t) := by
  unfold readWhole
  rw [read_append ht]
  cases h : read s with
  | none => rfl
  | some x =>
    simp only [Option.map_some, Option.filter_some, endsWord_append ht]
    split_ifs <;> rfl

end ActionItems.Tag
