import ActionItems.Proofs.CommentLines
import ActionItems.Proofs.FirstTag

/-! # One comment in two styles

Both styles take the same delimiters off a block comment. Of a line comment they take off two
slashes, and the style of slashes takes off those that follow too. So the bodies differ at most by
slashes in front of the first line. Since no tag opens with a slash (`annotationOf_slash`), all
lines have the same annotations in both styles but for the first one behind three or more slashes:
in the style that takes off two it has none (`annotations_behind_slashes`). -/

namespace ActionItems.Comment

open Text

/-- The first line of a comment behind its slashes. -/
def lineBehindSlashes (raw : Text) : Text := (raw.dropWhile (· == '/')).takeWhile (· != '\n')

/-- The annotation that three or more slashes hide from the style that takes off two. -/
def hiddenBySlashes (l : LineNumber) (raw : Text) : Option Annotation :=
  if ['/', '/', '/'] <+: raw then annotationOf l (lineBehindSlashes raw) 0 else none

/-! ### Comments with the same body -/

theorem strip_of_block {raw : Text} (h : ['/', '*'] <+: raw) :
    strip .slashes raw = strip .slashesOrHash raw := by
  obtain ⟨body, rfl⟩ := h
  rfl

theorem strip_of_two_slashes {raw : Text} (h : ['/', '/'] <+: raw)
    (hthird : ¬ ['/', '/', '/'] <+: raw) :
    strip .slashes raw = strip .slashesOrHash raw := by
  obtain ⟨body, rfl⟩ := h
  have hbody : body.dropWhile (· == '/') = body := by
    cases body with
    | nil => rfl
    | cons c body =>
      refine List.dropWhile_cons_of_neg fun hc => hthird ⟨body, ?_⟩
      rw [eq_of_beq hc]
      rfl
  exact hbody

/-! ### The first line behind slashes -/

/-- The annotations of a body are those of its first line and those of the others. -/
theorem annotations_of_physicalLines {text first : Text} {others : List Text}
    (h : physicalLines text = first :: others) (l : LineNumber) :
    annotations ⟨text, l⟩ = (annotationOf l first 0).toList ++
      (others.zipIdx 1).filterMap fun x => annotationOf l x.1 x.2 := by
  rw [annotations_eq, h, List.zipIdx_cons, List.filterMap_cons]
  cases annotationOf l first 0 <;> rfl

/-- No tag opens with a slash. -/
theorem annotationOf_slash (l : LineNumber) (line : Text) (i : Nat) :
    annotationOf l ('/' :: line) i = none := by
  have htrim : trim ('/' :: line) = '/' :: trimEnd line := by
    rw [trim, trimStart_of_head (by decide)]
    exact trimEnd_append_cons (by decide) [] line
  have hread : Tag.readWhole ('/' :: trimEnd line) = none :=
    Tag.readWhole_of_not_word (by decide +kernel) _
  have hstars : dropStars ('/' :: trimEnd line) = '/' :: trimEnd line := rfl
  rw [annotationOf, htrim, hstars, hread]

/-- **Behind three or more slashes** the first line is read in one style and not in the other; the
lines after it are read alike. -/
theorem annotations_behind_slashes {raw : Text} (h : ['/', '/', '/'] <+: raw) (l : LineNumber) :
    annotations ⟨strip .slashes raw, l⟩ =
      (annotationOf l (lineBehindSlashes raw) 0).toList ++
        annotations ⟨strip .slashesOrHash raw, l⟩ := by
  obtain ⟨body, rfl⟩ := h
  set rest := body.dropWhile (· == '/') with hrest
  set slashes := body.takeWhile (· == '/') with hslashes
  have hbody : slashes ++ rest = body := List.takeWhile_append_dropWhile
  have hfeed : ∀ c ∈ '/' :: slashes, (c == '\n') = false := by
    intro c hc
    obtain rfl : c = '/' := by
      rcases List.mem_cons.mp hc with hc | hc
      · exact hc
      · simpa using List.mem_takeWhile_imp hc
    decide
  obtain ⟨first, others, hlines, hall⟩ := exists_splitAll_append hfeed rest
  rw [List.cons_append, hbody, List.cons_append] at hall
  have hfirst : lineBehindSlashes (['/', '/', '/'] ++ body) = first :=
    (eq_takeWhile_of_splitAll hlines).symm
  have hlong : strip .slashes (['/', '/', '/'] ++ body) = rest := rfl
  have hshort : strip .slashesOrHash (['/', '/', '/'] ++ body) = '/' :: body := rfl
  rw [hlong, hshort, hfirst, annotations_of_physicalLines hlines, annotations_of_physicalLines hall,
    annotationOf_slash, Option.toList_none, List.nil_append]

/-- **The two styles side by side.** A comment that opens with two slashes or with a slash and a
star has the same annotations in both styles, except that three or more slashes hide the annotation
of the first line from one of them. -/
theorem annotations_by_style {raw : Text} (hopen : ['/', '/'] <+: raw ∨ ['/', '*'] <+: raw)
    (l : LineNumber) :
    annotations ⟨strip .slashes raw, l⟩ =
      (hiddenBySlashes l raw).toList ++ annotations ⟨strip .slashesOrHash raw, l⟩ ∧
    (annotations ⟨strip .slashes raw, l⟩ = annotations ⟨strip .slashesOrHash raw, l⟩ ↔
      hiddenBySlashes l raw = none) := by
  have hfound : annotations ⟨strip .slashes raw, l⟩ =
      (hiddenBySlashes l raw).toList ++ annotations ⟨strip .slashesOrHash raw, l⟩ := by
    unfold hiddenBySlashes
    split_ifs with hthird
    · exact annotations_behind_slashes hthird l
    · have hsame : strip .slashes raw = strip .slashesOrHash raw :=
        hopen.elim (fun h => strip_of_two_slashes h hthird) strip_of_block
      rw [hsame, Option.toList_none, List.nil_append]
  refine ⟨hfound, ?_⟩
  rw [hfound, List.append_left_eq_self, Option.toList_eq_nil_iff]

/-- A line behind four slashes, with a line that both styles read, and a block that opens with two
stars. -/
theorem annotations_by_style_four :
    let raw := "////TODO a\r\n* HACK b".toList
    let block := "/** FIXME c */".toList
    (['/', '/'] <+: raw ∨ ['/', '*'] <+: raw) ∧ (['/', '/'] <+: block ∨ ['/', '*'] <+: block) ∧
      (annotations ⟨strip .slashes raw, 7⟩).map Annotation.line = [some 7, some 8] ∧
      annotations ⟨strip .slashes raw, 7⟩ =
        (hiddenBySlashes 7 raw).toList ++ annotations ⟨strip .slashesOrHash raw, 7⟩ ∧
      hiddenBySlashes 7 block = none ∧
      annotations ⟨strip .slashes block, 7⟩ = annotations ⟨strip .slashesOrHash block, 7⟩ := by
  intro raw block
  have hraw : ['/', '/'] <+: raw ∨ ['/', '*'] <+: raw := by decide
  have hblock : ['/', '/'] <+: block ∨ ['/', '*'] <+: block := by decide
  have hnone : hiddenBySlashes 7 block = none := by decide
  exact ⟨hraw, hblock, by decide, (annotations_by_style hraw 7).1, hnone,
    (annotations_by_style hblock 7).2.mpr hnone⟩

/-- **Three slashes** in front of a tag make the styles differ. -/
theorem third_slash_hides :
    ¬ ∀ (raw : Text) (l : LineNumber), (['/', '/'] <+: raw ∨ ['/', '*'] <+: raw) →
      annotations ⟨strip .slashes raw, l⟩ = annotations ⟨strip .slashesOrHash raw, l⟩ := by
  intro h
  have hsame := h "/// TODO: x".toList 1 (by decide)
  have hlong : (annotations ⟨strip .slashes "/// TODO: x".toList, 1⟩).length = 1 := by decide
  have hshort : annotations ⟨strip .slashesOrHash "/// TODO: x".toList, 1⟩ = [] := by decide
  rw [hsame, hshort] at hlong
  exact absurd hlong (by decide)

end ActionItems.Comment
