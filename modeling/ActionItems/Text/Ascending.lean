import ActionItems.Text.Basic

/-! # Lists in ascending order of their keys

A new element is put in its place and takes that of an element with its key, so the keys stay
strictly ascending. -/

namespace ActionItems.Text

variable {α : Type} {key : α → Text} {x e : α} {l : List α}

/-- Puts an element in its place; it replaces the one with its key. -/
def place (key : α → Text) (x : α) : List α → List α
  | [] => [x]
  | y :: r =>
    if key x < key y then x :: y :: r
    else if key x = key y then x :: r
    else y :: place key x r

theorem mem_place_self (key : α → Text) (x : α) : ∀ l : List α, x ∈ place key x l
  | [] => List.mem_cons_self
  | y :: r => by
    unfold place
    split
    · exact List.mem_cons_self
    · split
      · exact List.mem_cons_self
      · exact List.mem_cons_of_mem y (mem_place_self key x r)

theorem place_ne_nil (key : α → Text) (x : α) (l : List α) : place key x l ≠ [] :=
  List.ne_nil_of_mem (mem_place_self key x l)

theorem mem_place (h : e ∈ place key x l) : e = x ∨ e ∈ l := by
  induction l with
  | nil => exact .inl (List.mem_singleton.mp h)
  | cons y r ih =>
    unfold place at h
    split at h
    · exact List.mem_cons.mp h
    · split at h
      · exact (List.mem_cons.mp h).imp_right (List.mem_cons_of_mem y)
      · rcases List.mem_cons.mp h with rfl | h
        · exact .inr List.mem_cons_self
        · exact (ih h).imp_right (List.mem_cons_of_mem y)

/-- Only an element with the key of the new one gives way. -/
theorem mem_place_of_mem (h : e ∈ l) (hkey : key x ≠ key e) : e ∈ place key x l := by
  induction l with
  | nil => cases h
  | cons y r ih =>
    unfold place
    split
    · exact List.mem_cons_of_mem x h
    · split
      · next heq =>
        rcases List.mem_cons.mp h with rfl | h
        · exact absurd heq hkey
        · exact List.mem_cons_of_mem x h
      · rcases List.mem_cons.mp h with rfl | h
        · exact List.mem_cons_self
        · exact List.mem_cons_of_mem y (ih h)

theorem place_ascending (x : α) (h : l.Pairwise fun a b => key a < key b) :
    (place key x l).Pairwise fun a b => key a < key b := by
  induction l with
  | nil => exact List.pairwise_singleton _ x
  | cons y r ih =>
    obtain ⟨hfirst, hrest⟩ := List.pairwise_cons.mp h
    unfold place
    split
    · next hlt =>
      refine List.pairwise_cons.mpr ⟨fun e he => ?_, h⟩
      rcases List.mem_cons.mp he with rfl | he
      · exact hlt
      · exact List.lt_trans hlt (hfirst e he)
    · next hnot =>
      split
      · next heq => exact List.pairwise_cons.mpr ⟨fun e he => heq ▸ hfirst e he, hrest⟩
      · next hne =>
        refine List.pairwise_cons.mpr ⟨fun e he => ?_, ih hrest⟩
        rcases mem_place he with rfl | he
        · exact Decidable.byContradiction fun hlt =>
            hne (List.le_antisymm (List.not_lt.mp hlt) (List.not_lt.mp hnot))
        · exact hfirst e he

/-- An element behind all others goes to the end. -/
theorem place_of_forall_lt (h : ∀ y ∈ l, key y < key x) : place key x l = l ++ [x] := by
  induction l with
  | nil => rfl
  | cons y r ih =>
    have hlt : key y < key x := h y List.mem_cons_self
    have hne : key x ≠ key y := by
      intro heq
      rw [heq] at hlt
      exact List.lt_irrefl _ hlt
    have hrest := ih fun e he => h e (List.mem_cons_of_mem y he)
    rw [place, if_neg (List.lt_asymm hlt), if_neg hne, hrest, List.cons_append]

/-- Elements that ascend already stay as they are. -/
theorem foldl_place_of_ascending {before : List α}
    (h : (before ++ l).Pairwise fun a b => key a < key b) :
    l.foldl (fun r x => place key x r) before = before ++ l := by
  induction l generalizing before with
  | nil => exact (List.append_nil before).symm
  | cons x l ih =>
    have hlt : ∀ y ∈ before, key y < key x := fun y hy =>
      (List.pairwise_append.mp h).2.2 y hy x List.mem_cons_self
    have happend : before ++ x :: l = before ++ [x] ++ l := by simp
    rw [happend] at h ⊢
    rw [List.foldl_cons, place_of_forall_lt hlt]
    exact ih h

end ActionItems.Text
