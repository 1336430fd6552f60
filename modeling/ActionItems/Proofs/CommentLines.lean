import ActionItems.Comment
import ActionItems.Proofs.PhysicalLines

/-! # Comments keep the lines of their source

The body of a comment is its text without delimiters, and the delimiters hold no line feed in
front of the body (`exists_strip`). So the line with index `i` of the body is part of the line with
index `row + i` of the source, `row` the number of line feeds before the comment, and every text on
it stands inside of the comment (`standsOnLine_of_body`).

Annotations of a comment are found line by line, and a line is named by its index; the annotations
of one comment therefore have ascending lines, each line at most once. -/

namespace ActionItems

open Text

/-! ### Spans -/

namespace Span

/-- The text `w` stands on the physical line with the number `n`, counted from one, and inside of
the span. -/
def StandsOnLine (sp : Span) (source : Text) (n : Nat) (w : Text) : Prop :=
  ∃ i line u v, n = i + 1 ∧ (physicalLines source)[i]? = some line ∧ line = u ++ w ++ v ∧
    sp.start ≤ lineStart source i + u.length ∧
    lineStart source i + u.length + w.length ≤ sp.stop

theorem take_stop {sp : Span} (h : sp.start ≤ sp.stop) (source : Text) :
    source.take sp.stop = source.take sp.start ++ sp.slice source := by
  have := List.take_append_drop sp.start (source.take sp.stop)
  rw [List.take_take, Nat.min_eq_left h] at this
  exact this.symm

theorem lt_of_slice_ne_nil {sp : Span} {source : Text} (h : sp.slice source ≠ []) :
    sp.start < sp.stop ∧ sp.start < source.length := by
  have hpos : 0 < (sp.slice source).length := List.length_pos_iff.mpr h
  simp only [slice, List.length_drop, List.length_take] at hpos
  omega

theorem length_slice_le (sp : Span) (source : Text) :
    (sp.slice source).length ≤ sp.stop - sp.start := by
  simp only [slice, List.length_drop, List.length_take]
  omega

end Span

namespace Comment

/-! ### Bodies -/

theorem exists_blockBody? {raw body : Text} (h : blockBody? raw = some body) :
    ∃ a b, raw = a ++ body ++ b ∧ '\n' ∉ a := by
  obtain ⟨r, hr, rfl⟩ := Option.map_eq_some_iff.mp h
  rw [after?_eq_some] at hr
  have hend : ∃ b, r = (before? ['*', '/'] r).getD r ++ b := by
    cases hb : before? ['*', '/'] r with
    | none => exact ⟨[], by simp⟩
    | some q => exact ⟨['*', '/'], (before?_eq_some.mp hb).symm⟩
  obtain ⟨b, hb⟩ := hend
  dsimp only
  set s := (before? ['*', '/'] r).getD r
  cases hs : after? ['*'] s with
  | none => exact ⟨['/', '*'], b, by simp [← hr, ← hb], by decide⟩
  | some q =>
    rw [after?_eq_some] at hs
    refine ⟨['/', '*', '*'], b, ?_, by decide⟩
    rw [← hr, hb, ← hs]
    simp

/-- **The body in its comment**: no line feed stands in front of it. -/
theorem exists_strip (style : CommentStyle) (raw : Text) :
    ∃ a b, raw = a ++ strip style raw ++ b ∧ '\n' ∉ a := by
  unfold strip
  split
  · next body _ _ hbody => exact exists_blockBody? hbody
  · next body _ hbody =>
    have hraw := after?_eq_some.mp hbody
    refine ⟨['/', '/'] ++ body.takeWhile (· == '/'), [], ?_, ?_⟩
    · rw [← hraw, List.append_nil, List.append_assoc, List.takeWhile_append_dropWhile]
    · intro hn
      rcases List.mem_append.mp hn with hn | hn
      · simp at hn
      · have := List.mem_takeWhile_imp hn
        simp at this
  · next body _ hbody =>
    exact ⟨['/', '/'], [], by simp [← after?_eq_some.mp hbody], by decide⟩
  · exact ⟨[], [], by simp, by simp⟩
  · cases h : after? ['#'] raw with
    | none => exact ⟨[], [], by simp, by simp⟩
    | some body => exact ⟨['#'], [], by simp [← after?_eq_some.mp h], by decide⟩

theorem strip_nil (style : CommentStyle) : strip style [] = [] := by
  cases style <;> rfl

theorem slice_ne_nil_of_body {style : CommentStyle} {raw q : Text} {i : Nat}
    (h : (physicalLines (strip style raw))[i]? = some q) (hq : q ≠ []) : raw ≠ [] := by
  rintro rfl
  rw [strip_nil] at h
  cases i with
  | zero => exact hq (by simpa [physicalLines, splitAll] using h.symm)
  | succ i => simp [physicalLines, splitAll] at h

/-- **Lines of a body are lines of the source**, inside of the comment. -/
theorem standsOnLine_of_body {style : CommentStyle} {source : Text} {sp : Span} {i : Nat}
    {u w v : Text} (h : (physicalLines (strip style (sp.slice source)))[i]? = some (u ++ w ++ v))
    (hw : w ≠ []) : sp.StandsOnLine source (sp.row source + i + 1) w := by
  have hne : sp.slice source ≠ [] := slice_ne_nil_of_body h (by simp [hw])
  obtain ⟨hlt, hlen⟩ := Span.lt_of_slice_ne_nil hne
  obtain ⟨a, b, hab, hfeed⟩ := exists_strip style (sp.slice source)
  set body := strip style (sp.slice source) with hbody
  have hsource : source = (source.take sp.start ++ a) ++ (body ++ (b ++ source.drop sp.stop)) := by
    calc source = source.take sp.stop ++ source.drop sp.stop := (List.take_append_drop _ _).symm
      _ = (source.take sp.start ++ (a ++ body ++ b)) ++ source.drop sp.stop := by
        rw [Span.take_stop hlt.le, hab]
      _ = _ := by simp only [List.append_assoc]
  have hcount : (source.take sp.start ++ a).count '\n' = sp.row source := by
    rw [List.count_append, List.count_eq_zero.mpr hfeed]
    rfl
  have hslice := Span.length_slice_le sp source
  have hstart : (source.take sp.start ++ a).length = sp.start + a.length := by
    rw [List.length_append, List.length_take, Nat.min_eq_left hlen.le]
  have hin := lineStart_add_length_le h
  obtain ⟨x, hx, hxl⟩ := physicalLines_append_right (b ++ source.drop sp.stop) h
  obtain ⟨y, hy, hyl⟩ := physicalLines_append_left hx (source.take sp.start ++ a)
  rw [← hsource, hcount] at hy hyl
  rw [hxl, hstart] at hyl
  rw [hab] at hslice
  simp only [List.length_append] at hslice hin
  refine ⟨sp.row source + i, _, y ++ u, v ++ x, rfl, hy, by simp, ?_, ?_⟩
  · rw [List.length_append]; omega
  · rw [List.length_append]; omega

/-! ### Annotations line by line -/

theorem annotationOf_nil (l : LineNumber) (i : Nat) : annotationOf l [] i = none := rfl

theorem annotationOf_append_return (l : LineNumber) (line : Text) (i : Nat) :
    annotationOf l (line ++ ['\r']) i = annotationOf l line i := by
  have hreturn : ∀ c ∈ ['\r'], isBlank c = true := List.forall_mem_singleton.mpr rfl
  unfold annotationOf
  rw [trim_append_of_blank hreturn]

theorem annotations_eq (c : Comment) :
    c.annotations = (physicalLines c.text).zipIdx.filterMap fun x =>
      annotationOf c.startLine x.1 x.2 :=
  filterMap_lines (annotationOf_nil c.startLine) (annotationOf_append_return c.startLine) c.text

theorem annotationOf_eq_some {l : LineNumber} {line : Text} {i : Nat} {a : Annotation}
    (h : annotationOf l line i = some a) :
    a.line = some (l.advance i) ∧ a.raw = trim line ∧ trim line ≠ [] := by
  have hne : trim line ≠ [] := by
    intro hnil
    unfold annotationOf at h
    rw [hnil] at h
    simp [show Tag.readWhole (dropStars []) = none from rfl] at h
  unfold annotationOf at h
  split at h
  · obtain ⟨tag, -, rfl⟩ := Option.map_eq_some_iff.mp h
    exact ⟨rfl, rfl, hne⟩
  · simp at h

/-- An annotation of a comment comes from one line of its body. -/
theorem exists_of_mem_annotations {c : Comment} {a : Annotation} (h : a ∈ c.annotations) :
    ∃ i line, (physicalLines c.text)[i]? = some line ∧
      annotationOf c.startLine line i = some a := by
  rw [annotations_eq] at h
  obtain ⟨⟨line, i⟩, hmem, ha⟩ := List.mem_filterMap.mp h
  exact ⟨i, line, List.mem_zipIdx_iff_getElem?.mp hmem, ha⟩

/-- The lines of a comment's body are counted by the source up to the comment's end. -/
theorem row_add_lt {style : CommentStyle} {source : Text} {sp : Span} {i : Nat}
    (hsp : sp.start ≤ sp.stop) (hi : i < (physicalLines (strip style (sp.slice source))).length) :
    sp.row source + i < (physicalLines (source.take sp.stop)).length := by
  obtain ⟨a, b, hab, -⟩ := exists_strip style (sp.slice source)
  have hcount := congrArg (List.count '\n') hab
  rw [length_physicalLines] at hi ⊢
  rw [Span.take_stop hsp, List.count_append]
  simp only [List.count_append] at hcount
  unfold Span.row
  omega

theorem length_physicalLines_take_le (source : Text) (n : Nat) :
    (physicalLines (source.take n)).length ≤ (physicalLines source).length := by
  rw [length_physicalLines, length_physicalLines]
  have := (List.take_sublist n source).count_le '\n'
  omega

theorem annotations_of_slice_nil {style : CommentStyle} {source : Text} {sp : Span}
    (h : sp.slice source = []) : (ofSpan style source sp).annotations = [] := by
  rw [annotations_eq, ofSpan, h, strip_nil]
  rfl

/-- **Annotations stand on their lines.** Every annotation of a comment names the physical line of
the source that its text stands on, inside of the comment, and the lines of one comment ascend. -/
theorem annotations_stand_on_lines (style : CommentStyle) (source : Text) (sp : Span)
    (hlines : (physicalLines source).length ≤ LineNumber.greatest) :
    (∀ a ∈ (ofSpan style source sp).annotations,
      ∃ l, a.line = some l ∧ sp.StandsOnLine source l.toNat a.raw) ∧
    (ofSpan style source sp).annotations.Pairwise fun a b =>
      ∃ l m, a.line = some l ∧ b.line = some m ∧ l < m := by
  by_cases hne : sp.slice source = []
  · rw [annotations_of_slice_nil hne]
    exact ⟨by simp, List.Pairwise.nil⟩
  have hsp := (Span.lt_of_slice_ne_nil hne).1.le
  have hidx : ∀ i, i < (physicalLines (strip style (sp.slice source))).length →
      sp.row source + i < LineNumber.greatest := by
    intro i hi
    have h1 := row_add_lt hsp hi
    have h2 := length_physicalLines_take_le source sp.stop
    omega
  constructor
  · intro a ha
    obtain ⟨i, line, hline, hann⟩ := exists_of_mem_annotations ha
    obtain ⟨hl, hraw, htrim⟩ := annotationOf_eq_some hann
    refine ⟨_, hl, ?_⟩
    have hi := hidx i (List.getElem?_eq_some_iff.mp hline).1
    have hnum : (LineNumber.advance (ofSpan style source sp).startLine i).toNat =
        sp.row source + i + 1 := by
      rw [ofSpan, LineNumber.advance_ofIndex, LineNumber.toNat_ofIndex]
      omega
    obtain ⟨u, v, huv, -, -⟩ := exists_trim line
    rw [huv] at hline
    rw [hnum, hraw]
    exact standsOnLine_of_body hline htrim
  · rw [annotations_eq]
    refine pairwise_filterMap_zipIdx fun x i y j a b hij hj ha hb => ?_
    obtain ⟨hl, -, -⟩ := annotationOf_eq_some ha
    obtain ⟨hm, -, -⟩ := annotationOf_eq_some hb
    refine ⟨_, _, hl, hm, ?_⟩
    simp only [ofSpan, LineNumber.advance_ofIndex]
    exact LineNumber.ofIndex_lt (by omega) (hidx j hj)

/-- A comment that starts behind code and runs over lines with either end. -/
theorem annotations_stand_on_lines_block :
    let source := "x(); /** intro\r\n * TODO(@bob): a\r\n   FIXME b */ y".toList
    let found := (ofSpan .slashes source ⟨5, 47⟩).annotations
    (physicalLines source).length ≤ LineNumber.greatest ∧
      found.map Annotation.line = [some 2, some 3] ∧
      (∀ a ∈ found, ∃ l, a.line = some l ∧ Span.StandsOnLine ⟨5, 47⟩ source l.toNat a.raw) ∧
      found.Pairwise fun a b => ∃ l m, a.line = some l ∧ b.line = some m ∧ l < m :=
  ⟨by decide, by decide, annotations_stand_on_lines .slashes _ ⟨5, 47⟩ (by decide)⟩

end Comment

end ActionItems
