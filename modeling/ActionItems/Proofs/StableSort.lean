import Mathlib.Data.List.Nodup
import ActionItems.Proofs.FindingOrder
import ActionItems.Proofs.Utf8

/-! # The sort of findings is the stable one

Findings are compared by the bytes of their files and then by their lines, an unknown line being the
last of its file (`compare_ne_gt_iff`). The comparison is a total preorder that ties two findings
just if they share file and line (`compare_eq_iff`).

A stable sort of a list is the list in another order, ascending, with tied findings in the order of
their positions (`IsStableSort`). Positions tell all findings apart, so the order by finding and
then by position leaves no choice: there is one stable sort, and it is `sort` (`sort_eq_iff`). -/

namespace ActionItems.Finding

/-! ### The comparison -/

theorem compareText_swap (s t : Text) : compareText t s = (compareText s t).swap := by
  unfold compareText
  split_ifs with hts hst
  · exact absurd (List.lt_trans hts hst) (List.lt_irrefl t)
  · rfl
  · rfl
  · rfl

theorem compareText_eq_iff {s t : Text} : compareText s t = .eq ↔ s = t := by
  unfold compareText
  split_ifs with hst hts
  · have hne : s ≠ t := fun h => List.lt_irrefl t (h ▸ hst)
    simp [hne]
  · have hne : s ≠ t := fun h => List.lt_irrefl t (h ▸ hts)
    simp [hne]
  · exact ⟨fun _ => List.le_antisymm (List.not_lt.mp hts) (List.not_lt.mp hst), fun _ => rfl⟩

theorem compareLine_swap (l m : Option LineNumber) : compareLine m l = (compareLine l m).swap := by
  cases l with
  | none => cases m <;> rfl
  | some x =>
    cases m with
    | none => rfl
    | some y => exact (Nat.compare_swap x.toNat y.toNat).symm

theorem compareLine_eq_iff {l m : Option LineNumber} : compareLine l m = .eq ↔ l = m := by
  cases l with
  | none => cases m <;> simp [compareLine]
  | some x =>
    cases m with
    | none => simp [compareLine]
    | some y =>
      rw [compareLine, Nat.compare_eq_eq, Option.some.injEq]
      exact UInt32.toNat_inj

theorem compare_swap (a b : Finding) : compare b a = (compare a b).swap := by
  rw [compare, compare, Ordering.swap_then, compareText_swap a.file, compareLine_swap a.line]

theorem compare_eq_iff {a b : Finding} : compare a b = .eq ↔ a.file = b.file ∧ a.line = b.line := by
  rw [compare, Ordering.then_eq_eq, compareText_eq_iff, compareLine_eq_iff]

theorem compare_self (a : Finding) : compare a a = .eq := compare_eq_iff.mpr ⟨rfl, rfl⟩

theorem precedes_eq_true_iff {a b : Finding} : precedes a b = true ↔ compare a b ≠ .gt :=
  Ordering.isLE_iff_ne_gt

theorem compare_trans {a b c : Finding} (hab : compare a b ≠ .gt) (hbc : compare b c ≠ .gt) :
    compare a c ≠ .gt := by
  rw [← precedes_eq_true_iff] at *
  exact precedes_trans a b c hab hbc

theorem compare_total (a b : Finding) : compare a b ≠ .gt ∨ compare b a ≠ .gt := by
  rw [← precedes_eq_true_iff, ← precedes_eq_true_iff, ← Bool.or_eq_true]
  exact precedes_total a b

/-- A line that may stand before another one of its file: known lines ascend, and an unknown line
comes last. -/
def LineLe (l m : Option LineNumber) : Prop := m = none ∨ ∃ x y, l = some x ∧ m = some y ∧ x ≤ y

theorem lineRank_le_iff {l m : Option LineNumber} : lineRank l ≤ lineRank m ↔ LineLe l m := by
  cases m with
  | none =>
    refine ⟨fun _ => Or.inl rfl, fun _ => ?_⟩
    cases l with
    | none => exact Nat.le_refl _
    | some x => exact Nat.le_of_lt x.toNat_lt
  | some y =>
    cases l with
    | none =>
      have hlt : lineRank (some y) < lineRank none := y.toNat_lt
      have hnot : ¬ LineLe none (some y) := by simp [LineLe]
      exact ⟨fun h => absurd hlt (Nat.not_lt.mpr h), fun h => absurd h hnot⟩
    | some x =>
      have hle : lineRank (some x) ≤ lineRank (some y) ↔ x ≤ y := UInt32.le_iff_toNat_le.symm
      rw [hle]
      simp [LineLe]

/-- **The order of findings**: the bytes of the files, and then the lines. -/
theorem compare_ne_gt_iff {a b : Finding} : compare a b ≠ .gt ↔
    Utf8.encode a.file < Utf8.encode b.file ∨ a.file = b.file ∧ LineLe a.line b.line := by
  rw [← precedes_eq_true_iff, precedes_iff, Utf8.encode_lt_encode_iff, lineRank_le_iff]

/-! ### Findings with their positions -/

/-- Findings with the positions that they have in `fs`, sorted: all of them, ascending, and two that
share file and line in the order of their positions. -/
structure IsPlacedSort (fs : List Finding) (placed : List (Finding × Nat)) : Prop where
  perm : placed.Perm fs.zipIdx
  ascending : placed.Pairwise fun x y => compare x.1 y.1 ≠ .gt
  ties : placed.Pairwise fun x y => x.1.file = y.1.file ∧ x.1.line = y.1.line → x.2 < y.2

/-- `gs` is a stable sort of `fs`. -/
def IsStableSort (fs gs : List Finding) : Prop :=
  ∃ placed, IsPlacedSort fs placed ∧ placed.map Prod.fst = gs

/-- The order by finding and then by position. -/
theorem zipIdxLE_iff {x y : Finding × Nat} : List.zipIdxLE precedes x y = true ↔
    compare x.1 y.1 ≠ .gt ∧ (compare x.1 y.1 = .eq → x.2 ≤ y.2) := by
  have hswap := compare_swap x.1 y.1
  unfold List.zipIdxLE precedes
  cases hcompare : compare x.1 y.1 with
  | lt => simp [hswap, hcompare]
  | eq => simp [hswap, hcompare]
  | gt => simp

theorem nodup_snd_of_perm {fs : List Finding} {placed : List (Finding × Nat)}
    (h : placed.Perm fs.zipIdx) :
    (placed.map Prod.snd).Nodup := by
  refine (h.map Prod.snd).nodup_iff.mpr ?_
  rw [List.zipIdx_map_snd]
  exact List.nodup_range'

/-- The findings with their positions, sorted. -/
def sortPlaced (fs : List Finding) : List (Finding × Nat) :=
  fs.zipIdx.mergeSort (List.zipIdxLE precedes)

theorem map_fst_sortPlaced (fs : List Finding) : (sortPlaced fs).map Prod.fst = sort fs :=
  List.mergeSort_zipIdx

theorem sortPlaced_perm (fs : List Finding) : (sortPlaced fs).Perm fs.zipIdx :=
  List.mergeSort_perm ..

theorem pairwise_sortPlaced (fs : List Finding) :
    (sortPlaced fs).Pairwise fun x y => List.zipIdxLE precedes x y = true :=
  List.pairwise_mergeSort (List.zipIdxLE_trans precedes_trans)
    (List.zipIdxLE_total precedes_total) _

/-! ### The one stable sort -/

theorem isPlacedSort_sortPlaced (fs : List Finding) : IsPlacedSort fs (sortPlaced fs) where
  perm := sortPlaced_perm fs
  ascending := (pairwise_sortPlaced fs).imp fun h => (zipIdxLE_iff.mp h).1
  ties := by
    have hne : (sortPlaced fs).Pairwise fun x y => x.2 ≠ y.2 :=
      List.pairwise_map.mp (nodup_snd_of_perm (sortPlaced_perm fs))
    refine (pairwise_sortPlaced fs).imp₂ (fun x y h hne htie => ?_) hne
    have hle : x.2 ≤ y.2 := (zipIdxLE_iff.mp h).2 (compare_eq_iff.mpr htie)
    exact Nat.lt_of_le_of_ne hle hne

/-- Findings that come before each other, by position if they are tied, have the same position. -/
theorem snd_eq_of_zipIdxLE {x y : Finding × Nat} (hxy : List.zipIdxLE precedes x y = true)
    (hyx : List.zipIdxLE precedes y x = true) : x.2 = y.2 := by
  obtain ⟨hle, hpos⟩ := zipIdxLE_iff.mp hxy
  obtain ⟨hge, hpos'⟩ := zipIdxLE_iff.mp hyx
  rw [compare_swap x.1 y.1] at hge hpos'
  cases hcompare : compare x.1 y.1 with
  | lt => simp [hcompare] at hge
  | eq => exact Nat.le_antisymm (hpos hcompare) (hpos' (by rw [hcompare]; rfl))
  | gt => exact absurd hcompare hle

/-- **Positions leave no choice.** -/
theorem IsPlacedSort.eq_sortPlaced {fs : List Finding} {placed : List (Finding × Nat)}
    (h : IsPlacedSort fs placed) :
    placed = sortPlaced fs := by
  have hsorted : placed.Pairwise fun x y => List.zipIdxLE precedes x y = true := by
    refine h.ascending.imp₂ (fun x y hle hties => zipIdxLE_iff.mpr ⟨hle, fun heq => ?_⟩) h.ties
    exact Nat.le_of_lt (hties (compare_eq_iff.mp heq))
  have hperm : placed.Perm (sortPlaced fs) := h.perm.trans (sortPlaced_perm fs).symm
  refine hperm.eq_of_pairwise (fun x y hx hy hxy hyx => ?_) hsorted (pairwise_sortPlaced fs)
  have hpos : x.2 = y.2 := snd_eq_of_zipIdxLE hxy hyx
  exact List.inj_on_of_nodup_map (nodup_snd_of_perm h.perm) hx (hperm.mem_iff.mpr hy) hpos

theorem sort_eq_iff {fs gs : List Finding} : sort fs = gs ↔ IsStableSort fs gs := by
  constructor
  · rintro rfl
    exact ⟨sortPlaced fs, isPlacedSort_sortPlaced fs, map_fst_sortPlaced fs⟩
  · rintro ⟨placed, hplaced, rfl⟩
    rw [hplaced.eq_sortPlaced, map_fst_sortPlaced]

/-- **The sort of findings.** The comparison is reflexive, transitive, total and turns around with
its arguments; it ties two findings just if they share file and line; it goes by the bytes of the
files and then by the lines, unknown ones last. The sorted list is the one stable sort under it. -/
theorem sort_is_the_stable_sort :
    (∀ a, compare a a = .eq) ∧
    (∀ a b c, compare a b ≠ .gt → compare b c ≠ .gt → compare a c ≠ .gt) ∧
    (∀ a b, compare a b ≠ .gt ∨ compare b a ≠ .gt) ∧
    (∀ a b, compare b a = (compare a b).swap) ∧
    (∀ a b, compare a b = .eq ↔ a.file = b.file ∧ a.line = b.line) ∧
    (∀ a b, compare a b ≠ .gt ↔
      Utf8.encode a.file < Utf8.encode b.file ∨ a.file = b.file ∧ LineLe a.line b.line) ∧
    ∀ fs gs, sort fs = gs ↔ IsStableSort fs gs :=
  ⟨compare_self, fun _ _ _ => compare_trans, compare_total, compare_swap, fun _ _ => compare_eq_iff,
    fun _ _ => compare_ne_gt_iff, fun _ _ => sort_eq_iff⟩

/-- A finding of which little more than the place is told. -/
def noted (file : String) (line : Option LineNumber) (text : String) : Finding :=
  { tag := .todo, file := file.toList, line, text := text.toList, raw := [], metadata := none }

/-- Of the findings of `a` the one without a line comes last, and the two of line 7 keep their
order; `Z` comes before `a`, and `é` after it. -/
theorem sort_is_the_stable_sort_mixed :
    sort [noted "é" (some 1) "1", noted "a" none "2", noted "a" (some 7) "3", noted "Z" none "4",
        noted "a" (some 7) "5", noted "a" (some 2) "6"] =
      [noted "Z" none "4", noted "a" (some 2) "6", noted "a" (some 7) "3", noted "a" (some 7) "5",
        noted "a" none "2", noted "é" (some 1) "1"] := by
  refine (sort_is_the_stable_sort.2.2.2.2.2.2 _ _).mpr
    ⟨[(noted "Z" none "4", 3), (noted "a" (some 2) "6", 5), (noted "a" (some 7) "3", 2),
      (noted "a" (some 7) "5", 4), (noted "a" none "2", 1), (noted "é" (some 1) "1", 0)],
      ⟨?_, ?_, ?_⟩, rfl⟩
  · decide
  · decide
  · decide

end ActionItems.Finding
