import Mathlib.Data.Prod.Lex
import ActionItems.Proofs.CommentOrder

/-! # The first error of a tree

The line of an error is found by a descent: from a node that is no error it goes on to the first
child that holds one, and it stops where it can go no further. The nodes of a tree are listed in
pre-order (`nodes`). A tree holds an error just if one of its nodes is one (`hasError_eq_any`), so
the descent never stops on a sound node of such a tree, and the children that it passes by hold no
error: it stops on the first error in pre-order (`EndsAt.find?_nodes`).

Where nodes stand in the order of the source, as in the tree of every source (`inOrder_parse`),
pre-order ascends by the places where they start (`InOrder.pairwise_nodes`), and no error starts on
an earlier line. -/

namespace ActionItems.Syntax.Tree

/-! ### Nodes -/

mutual

/-- The nodes of a tree, each before those below it. -/
def nodes : Tree → List Tree
  | .node k sp r cs => .node k sp r cs :: nodesOf cs

/-- The nodes of trees in a row. -/
def nodesOf : List Tree → List Tree
  | [] => []
  | t :: ts => nodes t ++ nodesOf ts

end

theorem nodesOf_eq (ts : List Tree) : nodesOf ts = ts.flatMap nodes := by
  induction ts with
  | nil => rfl
  | cons t ts ih => rw [nodesOf, ih, List.flatMap_cons]

theorem nodes_eq (t : Tree) : t.nodes = t :: t.children.flatMap nodes := by
  cases t with
  | node k sp r cs => rw [nodes, nodesOf_eq, children]

theorem anyError_eq (ts : List Tree) : anyError ts = ts.any hasError := by
  induction ts with
  | nil => rfl
  | cons t ts ih => rw [anyError, ih, List.any_cons]

theorem hasError_eq (t : Tree) : t.hasError = (t.kind.isError || t.children.any hasError) := by
  cases t with
  | node k sp r cs => rw [hasError, anyError_eq, kind, children]

theorem firstErrorRowOf_eq (ts : List Tree) :
    firstErrorRowOf ts = (ts.find? hasError).map firstErrorRow := by
  induction ts with
  | nil => rfl
  | cons t ts ih =>
    rw [firstErrorRowOf, List.find?_cons]
    cases t.hasError with
    | false => exact ih
    | true => rfl

/-- What holds of a tree if it holds of its children holds of every tree. -/
theorem induct {P : Tree → Prop} (step : ∀ t : Tree, (∀ c ∈ t.children, P c) → P t) (t : Tree) :
    P t := by
  refine @Tree.rec P (fun ts => ∀ c ∈ ts, P c) (fun k sp r cs ih => step _ ih) ?_ ?_ t
  · exact fun c hc => absurd hc List.not_mem_nil
  · exact fun t ts ht hts => List.forall_mem_cons.mpr ⟨ht, hts⟩

theorem self_mem_nodes (t : Tree) : t ∈ t.nodes := by
  rw [nodes_eq]
  exact List.mem_cons_self

theorem nodes_subset {t c : Tree} (h : c ∈ t.children) : c.nodes ⊆ t.nodes := by
  intro n hn
  rw [nodes_eq t]
  exact List.mem_cons_of_mem _ (List.mem_flatMap.mpr ⟨c, h, hn⟩)

/-- A tree holds an error just if one of its nodes is one. -/
theorem hasError_eq_any (t : Tree) : t.hasError = t.nodes.any (·.kind.isError) := by
  induction t using induct with
  | step t ih =>
    rw [hasError_eq, nodes_eq, List.any_cons, List.any_flatMap]
    congr 1
    rw [Bool.eq_iff_iff, List.any_eq_true, List.any_eq_true]
    exact exists_congr fun c => and_congr_right fun hc => by rw [ih c hc]

theorem find?_of_not_hasError {t : Tree} (h : t.hasError = false) :
    t.nodes.find? (·.kind.isError) = none := by
  rw [hasError_eq_any, List.any_eq_false] at h
  rw [List.find?_eq_none]
  exact h

/-! ### The descent -/

/-- Where the descent goes on: from an error nowhere, else to the first child that holds an error,
if there is one. -/
def next? (t : Tree) : Option Tree := if t.kind.isError then none else t.children.find? hasError

/-- The descent from a node comes to an end at another one. -/
inductive EndsAt : Tree → Tree → Prop
  | stop {t : Tree} (h : t.next? = none) : EndsAt t t
  | step {t c n : Tree} (h : t.next? = some c) (rest : EndsAt c n) : EndsAt t n

theorem next?_eq_some_iff {t c : Tree} :
    t.next? = some c ↔ t.kind.isError = false ∧ t.children.find? hasError = some c := by
  unfold next?
  split_ifs with h <;> simp [h]

theorem next?_eq_none_iff {t : Tree} :
    t.next? = none ↔ t.kind.isError = true ∨ t.children.find? hasError = none := by
  unfold next?
  split_ifs with h <;> simp [h]

theorem firstErrorRow_eq (t : Tree) : t.firstErrorRow = (t.next?.map firstErrorRow).getD t.row := by
  cases t with
  | node k sp r cs =>
    rw [firstErrorRow, firstErrorRowOf_eq, next?, kind, children, row]
    split_ifs <;> rfl

/-- **The descent comes to an end**, from every node. -/
theorem exists_endsAt (t : Tree) : ∃ n, t.EndsAt n := by
  induction t using induct with
  | step t ih =>
    cases hnext : t.next? with
    | none => exact ⟨t, .stop hnext⟩
    | some c =>
      obtain ⟨n, hn⟩ := ih c (List.mem_of_find?_eq_some (next?_eq_some_iff.mp hnext).2)
      exact ⟨n, .step hnext hn⟩

theorem EndsAt.unique {t n m : Tree} (hn : t.EndsAt n) (hm : t.EndsAt m) : m = n := by
  induction hn with
  | stop h =>
    cases hm with
    | stop => rfl
    | step h' => rw [h] at h'; cases h'
  | step h _ ih =>
    cases hm with
    | stop h' => rw [h] at h'; cases h'
    | step h' rest =>
      rw [h] at h'
      cases h'
      exact ih rest

/-- The row that is told is that of the node where the descent ends. -/
theorem EndsAt.firstErrorRow_eq {t n : Tree} (h : t.EndsAt n) : t.firstErrorRow = n.row := by
  induction h with
  | stop h =>
    rw [Tree.firstErrorRow_eq, h]
    rfl
  | step h _ ih =>
    rw [Tree.firstErrorRow_eq, h]
    exact ih

/-- **The descent ends at the first error** in pre-order: a sound node with an error below it has a
child that holds one, and the children before the first such child are passed by. -/
theorem EndsAt.find?_nodes {t n : Tree} (h : t.EndsAt n) (herror : t.hasError = true) :
    t.nodes.find? (·.kind.isError) = some n := by
  induction h with
  | @stop t h =>
    have hself : t.kind.isError = true := by
      rw [hasError_eq, Bool.or_eq_true, List.any_eq_true] at herror
      rcases next?_eq_none_iff.mp h with hself | hnone
      · exact hself
      · refine herror.resolve_right ?_
        rintro ⟨c, hc, hce⟩
        exact List.find?_eq_none.mp hnone c hc hce
    rw [nodes_eq, List.find?_cons_of_pos (by exact hself)]
  | @step t c n h _ ih =>
    obtain ⟨hself, hfind⟩ := next?_eq_some_iff.mp h
    obtain ⟨hc, before, after, hchildren, hbefore⟩ := List.find?_eq_some_iff_append.mp hfind
    have hpassed : ∀ b ∈ before, b.nodes.find? (·.kind.isError) = none := fun b hb =>
      find?_of_not_hasError (by simpa using hbefore b hb)
    rw [nodes_eq, List.find?_cons_of_neg (by simp [hself]), List.find?_flatMap, hchildren,
      List.findSome?_append,
      List.findSome?_eq_none_iff.mpr hpassed, Option.none_or, List.findSome?_cons, ih hc]

/-! ### The order of the source -/

/-- The place where a node starts: its row, and then its first character. -/
def position (t : Tree) : ℕ ×ₗ ℕ := toLex (t.row, t.span.start)

/-- Trees whose nodes stand in the order of the source: a child starts no earlier than its parent,
and children are ordered by their starts with all that is in them, so that a child does not reach
beyond the start of the next one. -/
structure InOrder (t : Tree) : Prop where
  parent_le : ∀ n ∈ t.nodes, ∀ c ∈ n.children, n.position ≤ c.position
  siblings : ∀ n ∈ t.nodes, n.children.Pairwise fun b c => ∀ m ∈ b.nodes, m.position ≤ c.position

theorem InOrder.of_mem {t c : Tree} (h : t.InOrder) (hc : c ∈ t.children) : c.InOrder where
  parent_le n hn := h.parent_le n (nodes_subset hc hn)
  siblings n hn := h.siblings n (nodes_subset hc hn)

theorem InOrder.position_le {t : Tree} (h : t.InOrder) :
    ∀ n ∈ t.nodes, t.position ≤ n.position := by
  induction t using induct with
  | step t ih =>
    intro n hn
    rw [nodes_eq, List.mem_cons, List.mem_flatMap] at hn
    rcases hn with rfl | ⟨c, hc, hn⟩
    · exact le_rfl
    · exact (h.parent_le t t.self_mem_nodes c hc).trans (ih c hc (h.of_mem hc) n hn)

/-- **Pre-order is the order of the starts.** -/
theorem InOrder.pairwise_nodes {t : Tree} (h : t.InOrder) :
    t.nodes.Pairwise fun m n => m.position ≤ n.position := by
  induction t using induct with
  | step t ih =>
    have hroot := h.position_le
    rw [nodes_eq] at hroot ⊢
    refine List.pairwise_cons.mpr ⟨fun n hn => hroot n (List.mem_cons_of_mem _ hn), ?_⟩
    refine List.pairwise_flatMap.mpr ⟨fun c hc => ih c hc (h.of_mem hc), ?_⟩
    refine (h.siblings t t.self_mem_nodes).imp_of_mem fun {b c} _ hc hbc m hm n hn => ?_
    exact (hbc m hm).trans ((h.of_mem hc).position_le n hn)

theorem row_le_of_position_le {m n : Tree} (h : m.position ≤ n.position) : m.row ≤ n.row := by
  rcases Prod.Lex.le_iff.mp h with hlt | ⟨heq, -⟩
  · exact Nat.le_of_lt hlt
  · exact Nat.le_of_eq heq

theorem InOrder.row_le {t n m : Tree} (h : t.InOrder) (hn : t.nodes.find? (·.kind.isError) = some n)
    (hm : m ∈ t.nodes) (herror : m.kind.isError = true) : n.row ≤ m.row := by
  obtain ⟨-, before, after, hnodes, hbefore⟩ := List.find?_eq_some_iff_append.mp hn
  have hpairwise := h.pairwise_nodes
  rw [hnodes] at hpairwise hm
  have hafter := (List.pairwise_cons.mp (List.pairwise_append.mp hpairwise).2.1).1
  rcases List.mem_append.mp hm with hm | hm
  · have hsound := hbefore m hm
    simp [herror] at hsound
  · rcases List.mem_cons.mp hm with rfl | hm
    · exact Nat.le_refl _
    · exact row_le_of_position_le (hafter m hm)

/-- **The line of the first error.** If a tree holds an error, the descent comes to an end on the
first error in pre-order and nowhere else, and its line is told, counted from one up to the greatest
line number. Where the nodes stand in the order of the source, no error of the tree is on an earlier
line. -/
theorem errorLine_of_first (t : Tree) (h : t.hasError = true) :
    ∃ n, (∀ m, t.EndsAt m ↔ m = n) ∧ n.kind.isError = true ∧
      t.nodes.find? (·.kind.isError) = some n ∧
      t.errorLine.toNat = min (n.row + 1) LineNumber.greatest ∧
      (t.InOrder → ∀ m ∈ t.nodes, m.kind.isError = true → t.errorLine ≤ .ofIndex m.row) := by
  obtain ⟨n, hn⟩ := t.exists_endsAt
  have hfirst := hn.find?_nodes h
  have hline : t.errorLine = .ofIndex n.row := by rw [errorLine, hn.firstErrorRow_eq]
  refine ⟨n, fun m => ⟨hn.unique, fun heq => heq ▸ hn⟩, by simpa using List.find?_some hfirst,
    hfirst, ?_, ?_⟩
  · rw [hline, LineNumber.toNat_ofIndex, Nat.add_comm]
  · intro horder m hm herror
    rw [hline]
    exact LineNumber.ofIndex_le (horder.row_le hfirst hm herror)

/-- The first error is a missing token in the second child; two more follow on later lines. -/
theorem errorLine_of_first_missing :
    let missing : Tree := .node .missing ⟨12, 12⟩ 2 []
    let t : Tree := .node .other ⟨0, 40⟩ 0 [.node .comment ⟨0, 5⟩ 0 [],
      .node .other ⟨6, 20⟩ 1 [.node .other ⟨6, 8⟩ 1 [], missing, .node .error ⟨14, 20⟩ 3 []],
      .node .error ⟨21, 40⟩ 4 []]
    t.hasError = true ∧ t.InOrder ∧ t.EndsAt missing ∧ t.errorLine.toNat = 3 ∧
      ∀ m ∈ t.nodes, m.kind.isError = true → t.errorLine ≤ .ofIndex m.row := by
  intro missing t
  have herror : t.hasError = true := by decide
  have horder : t.InOrder := ⟨by decide, by decide⟩
  obtain ⟨n, hends, -, hfirst, hline, hleast⟩ := errorLine_of_first t herror
  have hn : missing = n := by
    have hmissing : t.nodes.find? (·.kind.isError) = some missing := rfl
    exact Option.some.inj (hmissing.symm.trans hfirst)
  subst hn
  exact ⟨herror, horder, (hends missing).mpr rfl, hline, hleast horder⟩

/-- Ordered starts of the children alone are not enough: a child that reaches beyond the start of
the next one may hold an error on a later line than that one, and the descent ends there. -/
theorem errorLine_behind_overlap :
    let t : Tree := .node .other ⟨0, 30⟩ 0 [.node .other ⟨0, 30⟩ 0 [.node .error ⟨20, 30⟩ 9 []],
      .node .error ⟨10, 15⟩ 4 []]
    t.hasError = true ∧
      (∀ n ∈ t.nodes, n.children.Pairwise fun b c => b.position ≤ c.position) ∧
      (∀ n ∈ t.nodes, ∀ c ∈ n.children, n.position ≤ c.position) ∧
      ∃ m ∈ t.nodes, m.kind.isError = true ∧ LineNumber.ofIndex m.row < t.errorLine := by
  decide

end ActionItems.Syntax.Tree

/-! ### Trees of sources -/

namespace ActionItems.Syntax

theorem position_leaf_le (source : Text) (kind : NodeKind) {x y : Span} (h : x.start ≤ y.start) :
    (leaf source kind x).position ≤ (leaf source kind y).position := by
  have hrow : x.row source ≤ y.row source := ((List.take_prefix_take_left h).sublist).count_le _
  rw [Prod.Lex.le_iff]
  rcases Nat.lt_or_eq_of_le hrow with hlt | heq
  · exact Or.inl hlt
  · exact Or.inr ⟨heq, h⟩

theorem inOrder_root (source : Text) (kind : NodeKind) {sps : List Span}
    (h : sps.Pairwise fun x y => x.start ≤ y.start) :
    (root source (sps.map (leaf source kind))).InOrder := by
  have hnodes : ∀ n ∈ (root source (sps.map (leaf source kind))).nodes,
      n = root source (sps.map (leaf source kind)) ∨ n.children = [] := by
    intro n hn
    rw [Tree.nodes_eq, List.mem_cons, List.mem_flatMap] at hn
    refine hn.imp_right ?_
    rintro ⟨c, hc, hn⟩
    obtain ⟨sp, -, rfl⟩ := List.mem_map.mp hc
    rw [List.mem_singleton.mp hn]
    rfl
  refine ⟨fun n hn c hc => ?_, fun n hn => ?_⟩
  · rcases hnodes n hn with rfl | hnone
    · obtain ⟨sp, -, rfl⟩ := List.mem_map.mp hc
      have hstart : (root source (sps.map (leaf source kind))).position =
        (leaf source kind ⟨0, 0⟩).position := rfl
      rw [hstart]
      exact position_leaf_le source kind (Nat.zero_le sp.start)
    · rw [hnone] at hc
      exact absurd hc List.not_mem_nil
  · rcases hnodes n hn with rfl | hnone
    · refine List.pairwise_map.mpr (h.imp fun {x y} hxy m hm => ?_)
      rw [List.mem_singleton.mp hm]
      exact position_leaf_le source kind hxy
    · rw [hnone]
      exact .nil

/-- **The tree of every source** stands in the order of the source. -/
theorem inOrder_parse (l : Language) (source : Text) : (l.parse source).InOrder := by
  obtain ⟨n, hlaid⟩ := l.exists_laid_comments source
  have hstarts : (l.parse source).comments.Pairwise fun x y => x.start ≤ y.start :=
    hlaid.pairwise.imp_of_mem fun {x y} hx _ hxy => (hlaid.of_mem x hx).2.trans hxy
  unfold Language.parse Dialect.parse at hstarts ⊢
  split at hstarts
  · rw [comments_fitting] at hstarts
    exact inOrder_root source .comment hstarts
  · dsimp only at hstarts ⊢
    split_ifs at hstarts ⊢
    · rw [comments_fitting] at hstarts
      exact inOrder_root source .comment hstarts
    · exact inOrder_root source _ (List.pairwise_singleton _ ⟨_, _⟩)

end ActionItems.Syntax
