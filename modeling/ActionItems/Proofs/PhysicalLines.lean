import Mathlib.Data.List.Forall2
import ActionItems.Annotation
import ActionItems.Proofs.Cutting

/-! # Physical lines and their numbers

The physical lines of a text are the pieces between its line feeds. `lineStart s n` is the number
of characters before the line with index `n`, so that a line is found again in its text at that
place (`exists_physicalLine`).

A text in the middle of a longer one keeps its lines: the line with index `i` becomes part of the
line with index `n + i`, `n` the number of line feeds in front of the text, and it stands as far
behind the start of the longer text as the lengths say (`physicalLines_append_left`,
`physicalLines_append_right`).

Line numbers stop at the greatest one: `LineNumber.ofIndex` is monotone, and below the greatest
number it is the index and one. -/

namespace ActionItems

namespace Text

/-- The pieces of a text between its line feeds, the last one possibly empty. -/
def physicalLines (s : Text) : List Text := splitAll (· == '\n') s

/-- The number of characters before the line with the given index. -/
def lineStart : Text → Nat → Nat
  | _, 0 => 0
  | [], _ + 1 => 0
  | c :: s, n + 1 => if c = '\n' then lineStart s n + 1 else lineStart s (n + 1) + 1

theorem lineStart_zero (s : Text) : lineStart s 0 = 0 := by
  cases s <;> rfl

theorem physicalLines_feed (s : Text) : physicalLines ('\n' :: s) = [] :: physicalLines s :=
  splitAll_cons_of_pos rfl s

theorem exists_physicalLines_cons {c : Char} (hc : c ≠ '\n') (s : Text) :
    ∃ q r, physicalLines s = q :: r ∧ physicalLines (c :: s) = (c :: q) :: r :=
  exists_splitAll_cons_of_neg (by simpa using hc) s

theorem physicalLines_append_feed (s t : Text) :
    physicalLines (s ++ '\n' :: t) = physicalLines s ++ physicalLines t :=
  splitAll_append_cons rfl s t

theorem physicalLines_of_not_mem {s : Text} (h : '\n' ∉ s) : physicalLines s = [s] :=
  splitAll_of_forall_not fun c hc => by
    rw [beq_eq_false_iff_ne]
    exact fun he => h (he ▸ hc)

theorem length_physicalLines (s : Text) : (physicalLines s).length = s.count '\n' + 1 :=
  length_splitAll _ s

/-- **A line in its text**: the characters before it, as many as `lineStart` says, hold as many
line feeds as its index. -/
theorem exists_physicalLine {q : Text} : ∀ {s : Text} {i : Nat}, (physicalLines s)[i]? = some q →
    ∃ a b, s = a ++ q ++ b ∧ a.length = lineStart s i ∧ a.count '\n' = i
  | [], i, h => by
    have hi : i = 0 := by
      have := (List.getElem?_eq_some_iff.mp h).1
      rw [length_physicalLines] at this
      simp at this; omega
    subst hi
    obtain rfl : q = [] := by simpa [physicalLines, splitAll] using h.symm
    exact ⟨[], [], rfl, rfl, rfl⟩
  | c :: s, i, h => by
    by_cases hc : c = '\n'
    · subst hc
      rw [physicalLines_feed] at h
      cases i with
      | zero =>
        obtain rfl : q = [] := by simpa using h.symm
        exact ⟨[], '\n' :: s, rfl, rfl, rfl⟩
      | succ i =>
        rw [List.getElem?_cons_succ] at h
        obtain ⟨a, b, hs, hl, hn⟩ := exists_physicalLine h
        exact ⟨'\n' :: a, b, by rw [hs]; rfl, by simp [lineStart, hl], by simp [hn]⟩
    · obtain ⟨x, r, hs, hcs⟩ := exists_physicalLines_cons hc s
      rw [hcs] at h
      cases i with
      | zero =>
        have hx : (physicalLines s)[0]? = some x := by rw [hs]; rfl
        obtain ⟨a, b, hab, hl, -⟩ := exists_physicalLine hx
        rw [lineStart_zero] at hl
        obtain rfl : a = [] := List.length_eq_zero_iff.mp hl
        obtain rfl : q = c :: x := by simpa using h.symm
        exact ⟨[], b, by rw [hab]; rfl, rfl, rfl⟩
      | succ i =>
        have hx : (physicalLines s)[i + 1]? = some q := by
          rw [hs, List.getElem?_cons_succ]
          rwa [List.getElem?_cons_succ] at h
        obtain ⟨a, b, hab, hl, hn⟩ := exists_physicalLine hx
        refine ⟨c :: a, b, by rw [hab]; rfl, by simp [lineStart, hc, hl], ?_⟩
        rw [List.count_cons_of_ne hc, hn]

theorem lineStart_add_length_le {s q : Text} {i : Nat} (h : (physicalLines s)[i]? = some q) :
    lineStart s i + q.length ≤ s.length := by
  obtain ⟨a, b, hs, hl, -⟩ := exists_physicalLine h
  have := congrArg List.length hs
  simp only [List.length_append] at this
  omega

/-- **Text in front** shifts the lines by its line feeds, and lengthens the first of them. -/
theorem physicalLines_append_left {s q : Text} {i : Nat} (h : (physicalLines s)[i]? = some q) :
    ∀ a : Text, ∃ u, (physicalLines (a ++ s))[a.count '\n' + i]? = some (u ++ q) ∧
      lineStart (a ++ s) (a.count '\n' + i) + u.length = a.length + lineStart s i
  | [] => ⟨[], by simpa using h, by simp⟩
  | c :: a => by
    obtain ⟨u, hu, hl⟩ := physicalLines_append_left h a
    by_cases hc : c = '\n'
    · subst hc
      rw [List.cons_append, physicalLines_feed, List.count_cons_self, Nat.add_right_comm]
      refine ⟨u, by rwa [List.getElem?_cons_succ], ?_⟩
      simp only [lineStart, List.length_cons, ↓reduceIte]
      omega
    · rw [List.cons_append, List.count_cons_of_ne hc]
      obtain ⟨x, r, hs, hcs⟩ := exists_physicalLines_cons hc (a ++ s)
      rw [hcs]
      -- the character lengthens the first line and moves the start of every later one
      cases hk : a.count '\n' + i with
      | zero =>
        rw [hk] at hu hl
        have hx : x = u ++ q := by simpa [hs] using hu
        refine ⟨c :: u, by simp [hx], ?_⟩
        rw [lineStart_zero] at hl ⊢
        simp only [List.length_cons]
        omega
      | succ k =>
        rw [hk] at hu hl
        refine ⟨u, by rwa [hs, List.getElem?_cons_succ] at hu, ?_⟩
        simp only [lineStart, hc, List.length_cons, ↓reduceIte]
        omega

/-- **Text behind** lengthens the last line and leaves the places of the lines. -/
theorem physicalLines_append_right (b : Text) {q : Text} :
    ∀ {s : Text} {i : Nat}, (physicalLines s)[i]? = some q →
      ∃ v, (physicalLines (s ++ b))[i]? = some (q ++ v) ∧ lineStart (s ++ b) i = lineStart s i
  | [], i, h => by
    obtain ⟨rfl, rfl⟩ : i = 0 ∧ q = [] := by
      cases i with
      | zero => simpa [physicalLines, splitAll] using h.symm
      | succ i => simp [physicalLines, splitAll] at h
    obtain ⟨x, r, hb⟩ := List.exists_cons_of_ne_nil (splitAll_ne_nil (· == '\n') b)
    exact ⟨x, by simp [physicalLines, hb], by simp [lineStart_zero]⟩
  | c :: s, i, h => by
    by_cases hc : c = '\n'
    · subst hc
      rw [physicalLines_feed] at h
      rw [List.cons_append, physicalLines_feed]
      cases i with
      | zero =>
        obtain rfl : q = [] := by simpa using h.symm
        exact ⟨[], rfl, rfl⟩
      | succ i =>
        rw [List.getElem?_cons_succ] at h
        obtain ⟨v, hv, hl⟩ := physicalLines_append_right b h
        exact ⟨v, by rwa [List.getElem?_cons_succ], by simp [lineStart, hl]⟩
    · obtain ⟨x, r, hs, hcs⟩ := exists_physicalLines_cons hc s
      obtain ⟨x', r', hs', hcs'⟩ := exists_physicalLines_cons hc (s ++ b)
      rw [hcs] at h
      rw [List.cons_append, hcs']
      cases i with
      | zero =>
        have hx : (physicalLines s)[0]? = some x := by rw [hs]; rfl
        obtain ⟨v, hv, -⟩ := physicalLines_append_right b hx
        obtain rfl : q = c :: x := by simpa using h.symm
        have hx' : x' = x ++ v := by simpa [hs'] using hv
        exact ⟨v, by simp [hx'], by simp [lineStart_zero]⟩
      | succ i =>
        have hq : (physicalLines s)[i + 1]? = some q := by rwa [hs]
        obtain ⟨v, hv, hl⟩ := physicalLines_append_right b hq
        refine ⟨v, by rwa [hs'] at hv, ?_⟩
        simp [lineStart, hc, hl]

/-- What a scan finds in indexed pieces is related as the indices of the pieces are. -/
theorem pairwise_filterMap_zipIdx {α β : Type} {f : α × Nat → Option β} {R : β → β → Prop}
    {l : List α} (h : ∀ x i y j a b, i < j → j < l.length → f (x, i) = some a →
      f (y, j) = some b → R a b) : (l.zipIdx.filterMap f).Pairwise R := by
  have hidx : l.zipIdx.Pairwise fun x y => x.2 < y.2 ∧ y.2 < l.length := by
    refine List.pairwise_iff_getElem.mpr fun i j hi hj hij => ?_
    rw [List.length_zipIdx] at hj
    simp only [List.getElem_zipIdx]
    omega
  refine hidx.filterMap f ?_
  rintro ⟨x, i⟩ ⟨y, j⟩ ⟨hij, hj⟩ a ha b hb
  exact h x i y j a b hij hj ha hb

/-- What a scan finds stands for the pieces in which it finds something, one by one. -/
theorem forall₂_filterMap {α β : Type} {f : α → Option β} {p : α → Bool} {R : α → β → Prop}
    {l : List α}
    (hp : ∀ x ∈ l, p x = (f x).isSome) (hR : ∀ x ∈ l, ∀ b, f x = some b → R x b) :
    List.Forall₂ R (l.filter p) (l.filterMap f) := by
  induction l with
  | nil => exact List.Forall₂.nil
  | cons x l ih =>
    have hrest := ih (fun y hy => hp y (List.mem_cons_of_mem _ hy)) fun y hy =>
      hR y (List.mem_cons_of_mem _ hy)
    have hx := hp x (List.mem_cons_self ..)
    cases hf : f x with
    | none =>
      rw [hf] at hx
      rwa [List.filter_cons_of_neg (by simp [hx]), List.filterMap_cons_none hf]
    | some b =>
      rw [hf] at hx
      rw [List.filter_cons_of_pos (by simp [hx]), List.filterMap_cons_some hf]
      exact List.Forall₂.cons (hR x (List.mem_cons_self ..) b hf) hrest

end Text

/-! ### Line numbers -/

namespace LineNumber

theorem toNat_advance (l : LineNumber) (n : Nat) :
    (advance l n).toNat = min (l.toNat + n) greatest := by
  have hg : greatest < UInt32.size := by decide
  unfold advance
  exact UInt32.toNat_ofNat_of_lt' (by omega)

theorem toNat_ofIndex (i : Nat) : (ofIndex i).toNat = min (1 + i) greatest :=
  toNat_advance 1 i

theorem advance_ofIndex (i n : Nat) : (ofIndex i).advance n = ofIndex (i + n) := by
  apply UInt32.toNat_inj.mp
  rw [toNat_advance, toNat_ofIndex, toNat_ofIndex]
  omega

theorem ofIndex_le {i j : Nat} (h : i ≤ j) : ofIndex i ≤ ofIndex j := by
  rw [UInt32.le_iff_toNat_le, toNat_ofIndex, toNat_ofIndex]
  omega

theorem ofIndex_lt {i j : Nat} (h : i < j) (hj : j < greatest) : ofIndex i < ofIndex j := by
  rw [UInt32.lt_iff_toNat_lt, toNat_ofIndex, toNat_ofIndex]
  omega

end LineNumber

end ActionItems
