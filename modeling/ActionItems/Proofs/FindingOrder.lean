import Mathlib.Data.List.Basic
import Mathlib.Data.List.Pairwise
import ActionItems.Finding

/-! # The order of findings

Findings are sorted by file and then by line, and the sort keeps the order of findings that it does
not tell apart. A sorted list is determined by its classes of tied elements, each in its order
(`eq_of_filter_tied`), and sorting does not change them (`filter_tied_mergeSort`).

So findings that come in blocks, one block for each file and each block by ascending lines, are
sorted by sorting the files: however the blocks are put together, the sorted list is that of the
blocks in the order of their files (`sort_flatMap`). -/

namespace ActionItems

/-! ### Sorts that keep the order of ties -/

section Ties

variable {α : Type} {le : α → α → Bool}

/-- Elements that an order does not tell apart. -/
def tied (le : α → α → Bool) (a b : α) : Bool := le a b && le b a

variable (trans : ∀ a b c, le a b = true → le b c = true → le a c = true)
  (total : ∀ a b, (le a b || le b a) = true)

include trans total

/-- Sorting keeps the elements of each class in their order. -/
theorem filter_tied_mergeSort (a : α) (l : List α) :
    (l.mergeSort le).filter (tied le a) = l.filter (tied le a) := by
  have hsorted : (l.filter (tied le a)).Pairwise fun b c => le b c = true := by
    refine List.pairwise_of_forall_mem_list fun b hb c hc => ?_
    have hb' := (List.mem_filter.mp hb).2
    have hc' := (List.mem_filter.mp hc).2
    simp only [tied, Bool.and_eq_true] at hb' hc'
    exact trans b a c hb'.2 hc'.1
  have hsub := List.sublist_mergeSort trans total hsorted List.filter_sublist
  have hfilter := hsub.filter (tied le a)
  rw [List.filter_filter, List.filter_congr (fun x _ => Bool.and_self _)] at hfilter
  have hlen := ((List.mergeSort_perm l le).filter (tied le a)).length_eq
  exact (hfilter.eq_of_length hlen.symm).symm

omit trans in
theorem tied_self (a : α) : tied le a a = true := by
  have : le a a = true := by simpa using total a a
  simp [tied, this]

omit trans in
theorem mem_iff_of_filter_tied {l₁ l₂ : List α}
    (h : ∀ a, l₁.filter (tied le a) = l₂.filter (tied le a)) (a : α) : a ∈ l₁ ↔ a ∈ l₂ := by
  have hmem := congrArg (a ∈ ·) (h a)
  simpa [List.mem_filter, tied_self total a] using hmem

omit trans in
/-- **A sorted list is determined by its ties**, each class in its order. -/
theorem eq_of_filter_tied {l₁ l₂ : List α} (h₁ : l₁.Pairwise fun a b => le a b = true)
    (h₂ : l₂.Pairwise fun a b => le a b = true)
    (h : ∀ a, l₁.filter (tied le a) = l₂.filter (tied le a)) : l₁ = l₂ := by
  have hrefl : ∀ a, le a a = true := fun a => by simpa using total a a
  induction l₁ generalizing l₂ with
  | nil =>
    have hnot : ∀ a, a ∉ l₂ := fun a ha => by simpa using (mem_iff_of_filter_tied total h a).mpr ha
    exact (List.eq_nil_iff_forall_not_mem.mpr hnot).symm
  | cons x r₁ ih =>
    have hx := (mem_iff_of_filter_tied total h x).mp (List.mem_cons_self ..)
    obtain ⟨y, r₂, rfl⟩ := List.exists_cons_of_ne_nil (List.ne_nil_of_mem hx)
    have hy := (mem_iff_of_filter_tied total h y).mpr (List.mem_cons_self ..)
    obtain ⟨hle₁, hr₁⟩ := List.pairwise_cons.mp h₁
    obtain ⟨hle₂, hr₂⟩ := List.pairwise_cons.mp h₂
    -- each head is somewhere in the other list, so the two are tied
    have hxy : le x y = true := by
      rcases List.mem_cons.mp hy with rfl | hm
      · exact hrefl y
      · exact hle₁ y hm
    have hyx : le y x = true := by
      rcases List.mem_cons.mp hx with rfl | hm
      · exact hrefl x
      · exact hle₂ x hm
    have hhead := h x
    rw [List.filter_cons_of_pos (tied_self total x),
      List.filter_cons_of_pos (by simp [tied, hxy, hyx])] at hhead
    obtain ⟨rfl, -⟩ := List.cons.inj hhead
    congr 1
    refine ih hr₁ hr₂ fun a => ?_
    have htail := h a
    rw [List.filter_cons, List.filter_cons] at htail
    split_ifs at htail with ha
    · exact (List.cons.inj htail).2
    · exact htail

/-- **Without ties** the sorted list is the one that ascends. -/
theorem mergeSort_eq_of_perm {l l' : List α} (hperm : l.Perm l')
    (hlt : l'.Pairwise fun a b => le b a = false) : l.mergeSort le = l' := by
  have hle : l'.Pairwise fun a b => le a b = true :=
    hlt.imp fun {a b} hba => by simpa [hba] using total a b
  have hsymm : Std.Symm fun a b => le b a = false ∨ le a b = false := ⟨fun _ _ => Or.symm⟩
  have hapart : l'.Pairwise fun a b => le b a = false ∨ le a b = false := hlt.imp Or.inl
  refine ((List.mergeSort_perm l le).trans hperm).eq_of_pairwise (fun a b ha hb hab hba => ?_)
    (List.pairwise_mergeSort trans total l) hle
  have ha' : a ∈ l' := hperm.mem_iff.mp (List.mem_mergeSort.mp ha)
  by_contra hne
  rcases hapart.forall ha' hb hne with h | h
  · exact Bool.false_ne_true (h.symm.trans hba)
  · exact Bool.false_ne_true (h.symm.trans hab)

end Ties

namespace Finding

/-! ### Files and lines -/

/-- Whether a finding may stand before another one. -/
def precedes (a b : Finding) : Bool := (compare a b).isLE

/-- The place of a line in the order of lines: an unknown line comes last. -/
def lineRank : Option LineNumber → Nat
  | some l => l.toNat
  | none => UInt32.size

theorem isLE_compareLine (l m : Option LineNumber) :
    (compareLine l m).isLE = true ↔ lineRank l ≤ lineRank m := by
  rcases l with _ | l <;> rcases m with _ | m
  · simp [compareLine]
  · have := m.toNat_lt
    simp only [compareLine, lineRank]
    simp [UInt32.size]
    omega
  · have := l.toNat_lt
    simp only [compareLine, lineRank]
    simp [UInt32.size]
    omega
  · simp [compareLine, lineRank, Nat.isLE_compare]

theorem precedes_iff (a b : Finding) : precedes a b = true ↔
    a.file < b.file ∨ a.file = b.file ∧ lineRank a.line ≤ lineRank b.line := by
  rw [precedes, compare, compareText]
  split_ifs with hlt hgt
  · simp [hlt]
  · have hne : a.file ≠ b.file := fun h => List.lt_irrefl _ (h ▸ hgt)
    simp [hlt, hne]
  · have heq : a.file = b.file := List.le_antisymm (List.not_lt.mp hgt) (List.not_lt.mp hlt)
    have heither : a.file < b.file ∨ a.file = b.file ∧ lineRank a.line ≤ lineRank b.line ↔
        lineRank a.line ≤ lineRank b.line := by
      rw [or_iff_right hlt, and_iff_right heq]
    rw [heither]
    exact isLE_compareLine a.line b.line

theorem precedes_trans (a b c : Finding) (hab : precedes a b = true) (hbc : precedes b c = true) :
    precedes a c = true := by
  rw [precedes_iff] at *
  rcases hab with hab | ⟨hab, hl⟩ <;> rcases hbc with hbc | ⟨hbc, hm⟩
  · exact Or.inl (List.lt_trans hab hbc)
  · exact Or.inl (hbc ▸ hab)
  · exact Or.inl (hab ▸ hbc)
  · exact Or.inr ⟨hab.trans hbc, Nat.le_trans hl hm⟩

theorem precedes_total (a b : Finding) : (precedes a b || precedes b a) = true := by
  rw [Bool.or_eq_true, precedes_iff, precedes_iff]
  grind

theorem file_eq_of_tied {a b : Finding} (h : tied precedes a b = true) : b.file = a.file := by
  simp only [tied, Bool.and_eq_true, precedes_iff] at h
  grind

/-! ### Blocks of files -/

section Blocks

variable {β : Type} {file : β → Path} {block : β → List Finding}
  (hfile : ∀ x, ∀ f ∈ block x, f.file = file x)

include hfile

/-- Only the blocks of one file have findings of that file. -/
theorem filter_flatMap {p : Finding → Bool} {r : Path} (hp : ∀ f, p f = true → f.file = r)
    (xs : List β) :
    (xs.flatMap block).filter p =
      (xs.filter fun x => file x = r).flatMap fun x => (block x).filter p := by
  induction xs with
  | nil => rfl
  | cons x xs ih =>
    rw [List.flatMap_cons, List.filter_append, ih, List.filter_cons]
    split_ifs with hx
    · rw [List.flatMap_cons]
    · have hnone : (block x).filter p = [] := by
        rw [List.filter_eq_nil_iff]
        intro f hf hpf
        exact hx (by simpa using (hfile x f hf).symm.trans (hp f hpf))
      rw [hnone, List.nil_append]

omit hfile in
/-- Of blocks with different files at most one is that of a given file. -/
theorem filter_eq_of_perm {xs ys : List β} (hperm : xs.Perm ys)
    (hne : xs.Pairwise fun x y => file x ≠ file y) (r : Path) :
    (xs.filter fun x => file x = r) = ys.filter fun x => file x = r := by
  have hp := hperm.filter fun x => decide (file x = r)
  have hne' := hne.filter fun x => decide (file x = r)
  have hr : ∀ x ∈ xs.filter fun x => file x = r, file x = r := fun x hx => by
    simpa using (List.mem_filter.mp hx).2
  generalize (xs.filter fun x => file x = r) = l at hp hne' hr
  match l with
  | [] => exact hp.nil_eq
  | [x] => exact hp.singleton_eq
  | x :: y :: l =>
    have hxy := (List.pairwise_cons.mp hne').1 y (List.mem_cons_self ..)
    exact absurd ((hr x (by simp)).trans (hr y (by simp)).symm) hxy

omit hfile in
theorem filter_eq_singleton {xs : List β} (hne : xs.Pairwise fun x y => file x ≠ file y) {x : β}
    (hx : x ∈ xs) : (xs.filter fun y => file y = file x) = [x] := by
  induction xs with
  | nil => cases hx
  | cons y ys ih =>
    obtain ⟨hy, hys⟩ := List.pairwise_cons.mp hne
    rcases List.mem_cons.mp hx with rfl | hx
    · rw [List.filter_cons_of_pos (by simp), List.filter_eq_nil_iff.mpr]
      exact fun z hz he => hy z hz (by simpa using Eq.symm (of_decide_eq_true he))
    · rw [List.filter_cons_of_neg (by simpa using hy x hx), ih hys hx]

/-- The findings of a file among those of blocks with different files are its block. -/
theorem filter_file_flatMap {xs : List β} (hne : xs.Pairwise fun x y => file x ≠ file y) {x : β}
    (hx : x ∈ xs) : ((xs.flatMap block).filter fun f => f.file = file x) = block x := by
  rw [filter_flatMap hfile (fun f hf => of_decide_eq_true hf) xs, filter_eq_singleton hne hx,
    List.flatMap_singleton, List.filter_eq_self]
  exact fun f hf => decide_eq_true (hfile x f hf)

/-- Blocks by ascending files are sorted if each block is. -/
theorem pairwise_flatMap (hsorted : ∀ x, (block x).Pairwise fun f g => precedes f g = true)
    {ys : List β} (hlt : ys.Pairwise fun x y => file x < file y) :
    (ys.flatMap block).Pairwise fun f g => precedes f g = true := by
  rw [List.pairwise_flatMap]
  refine ⟨fun x _ => hsorted x, hlt.imp fun {x y} hxy f hf g hg => ?_⟩
  rw [precedes_iff, hfile x f hf, hfile y g hg]
  exact Or.inl hxy

/-- **Sorting blocks** sorts the files: the sort does not depend on the order in which the blocks
are put together, and leaves every block as it is. -/
theorem sort_flatMap (hsorted : ∀ x, (block x).Pairwise fun f g => precedes f g = true)
    {xs ys : List β} (hperm : xs.Perm ys) (hlt : ys.Pairwise fun x y => file x < file y) :
    sort (xs.flatMap block) = ys.flatMap block := by
  have hne : ys.Pairwise fun x y => file x ≠ file y := by
    refine hlt.imp fun {x y} hxy heq => ?_
    rw [heq] at hxy
    exact List.lt_irrefl _ hxy
  have hlist : (sort (xs.flatMap block)).Pairwise fun f g => precedes f g = true :=
    List.pairwise_mergeSort precedes_trans precedes_total _
  refine eq_of_filter_tied precedes_total hlist (pairwise_flatMap hfile hsorted hlt) fun a => ?_
  have hties : (sort (xs.flatMap block)).filter (tied precedes a) =
      (xs.flatMap block).filter (tied precedes a) :=
    filter_tied_mergeSort precedes_trans precedes_total a _
  rw [hties, filter_flatMap hfile (fun f => file_eq_of_tied) xs,
    filter_flatMap hfile (fun f => file_eq_of_tied) ys, filter_eq_of_perm hperm.symm hne]

end Blocks

end Finding

end ActionItems
