import ActionItems.Proofs.CommentLines
import ActionItems.Proofs.FirstTag
import ActionItems.Proofs.LineScanBytes

/-! # Line comments read as comments and read as lines

A tag opens a line of a comment when only blanks and a run of stars stand in front of it
(`exists_dropStars`). In a line of code that ends in such a comment, the search for a whole tag word
passes the code, which has none, and then the comment mark, the blanks and the stars, which belong
to no word; so the tag that opens the comment is the first one of the line. The text before it looks
like a comment because it ends with the mark, or because it has a star in it (`endsInComment_mark`,
`endsInComment_star`). What follows the tag differs in trailing blanks only, and these are not
seen. -/

namespace ActionItems

open Text

/-! ### The opening of a comment's line -/

namespace Comment

/-- What is dropped in front of a tag: nothing, or stars and blanks. -/
theorem exists_dropStars (line : Text) :
    ∃ d, line = d ++ dropStars line ∧ (∀ c ∈ d, c = '*' ∨ isBlank c = true) ∧
      (d = [] ∨ '*' ∈ d) := by
  unfold dropStars
  split
  · next s =>
    obtain ⟨b, hb, hblank⟩ := exists_trimStart (('*' :: s).dropWhile (· == '*'))
    refine ⟨('*' :: s).takeWhile (· == '*') ++ b, ?_, ?_, Or.inr (by simp)⟩
    · rw [List.append_assoc, ← hb, List.takeWhile_append_dropWhile]
    · intro c hc
      rcases List.mem_append.mp hc with hc | hc
      · exact Or.inl (by simpa using List.mem_takeWhile_imp hc)
      · exact Or.inr (hblank c hc)
  · exact ⟨[], rfl, by simp, Or.inl rfl⟩

theorem annotations_of_not_mem {c : Comment} (h : '\n' ∉ c.text) :
    c.annotations = (annotationOf c.startLine c.text 0).toList := by
  rw [annotations_eq, physicalLines_of_not_mem h, List.zipIdx_singleton, List.filterMap_cons,
    List.filterMap_nil]
  cases annotationOf c.startLine c.text 0 <;> rfl

theorem exists_of_annotationOf {l : LineNumber} {line : Text} {i : Nat} {a : Annotation}
    (h : annotationOf l line i = some a) : ∃ word rest,
      Tag.readWhole (dropStars (trim line)) = some (word, rest) ∧
        Annotation.of word (l.advance i) (trim line) rest = some a := by
  unfold annotationOf at h
  split at h
  · next word rest hread => exact ⟨word, rest, hread, h⟩
  · simp at h

end Comment

/-- Blanks behind the text after a tag are not seen. -/
theorem Annotation.of_append_of_blank {b : Text} (hb : ∀ c ∈ b, isBlank c)
    (word rest raw raw' : Text)
    (l : LineNumber) : Annotation.of word l raw' (rest ++ b) =
      ( Annotation.of word l raw rest).map fun a => { a with raw := raw' } := by
  unfold Annotation.of
  rw [LineScan.dropTagMarks_append_of_blank hb, Option.map_map]
  rfl

namespace LineScan

/-! ### Comment marks -/

theorem commentMarks_chars : ∀ p ∈ commentMarks, p ≠ [] ∧
    ∀ c ∈ p, isBlank c = false ∧ isWordChar c = false := by
  have hall : (commentMarks.all fun p =>
      !p.isEmpty && p.all fun c => !isBlank c && !isWordChar c) = true := by decide
  simpa using hall

/-- Text that ends with a comment mark and blanks looks like a comment. -/
theorem endsInComment_mark {p : Text} (hp : p ∈ commentMarks) (code : Text) {b : Text}
    (hb : ∀ c ∈ b, isBlank c) : endsInComment (code ++ (p ++ b)) = true := by
  obtain ⟨hne, hchars⟩ := commentMarks_chars p hp
  have hends : IsTrimmed p := isTrimmed_of_forall_not fun c hc => (hchars c hc).1
  have htrim : trim (code ++ (p ++ b)) = trimStart code ++ p := by
    rw [← List.append_assoc, trim_append_of_blank hb, trim_append_of_isTrimmed hne hends]
  unfold endsInComment
  rw [htrim, Bool.or_eq_true]
  refine Or.inl (List.any_eq_true.mpr ⟨p, hp, ?_⟩)
  rw [before?_eq_some.mpr (rfl : trimStart code ++ p = _)]
  rfl

theorem endsInComment_star {s : Text} (h : '*' ∈ s) : endsInComment s = true := by
  unfold endsInComment
  rw [Bool.or_eq_true]
  exact Or.inr (by simpa using h)

/-! ### Line comments -/

/-- The line scan of a line that ends in a line comment. -/
theorem annotationOf_lineComment {code p body word rest : Text} (hcode : ¬ HoldsTag code)
    (hp : p ∈ commentMarks)
    (hread : Tag.readWhole (Comment.dropStars (trim body)) = some (word, rest)) (i : Nat) :
    ∃ b, (∀ c ∈ b, isBlank c) ∧ annotationOf (code ++ p ++ body) i =
      Annotation.of word (.ofIndex i) (trim (code ++ p ++ body)) (rest ++ b) := by
  obtain ⟨a, b, hbody, ha, hb⟩ := exists_trim body
  obtain ⟨d, hstars, hd, hd'⟩ := Comment.exists_dropStars (trim body)
  obtain ⟨hne, hchars⟩ := commentMarks_chars p hp
  obtain ⟨hword, -⟩ := Tag.of_readWhole hread
  -- the line is the code, then what belongs to no word, then the tag and the text after it
  have hline : code ++ p ++ body = code ++ ((p ++ (a ++ d)) ++ (word ++ (rest ++ b))) := by
    calc code ++ p ++ body = code ++ p ++ (a ++ (d ++ (word ++ rest)) ++ b) := by
          rw [← hword, ← hstars, ← hbody]
      _ = _ := by simp only [List.append_assoc]
  have hpass : ∀ c ∈ p ++ (a ++ d), isWordChar c = false := by
    intro c hc
    rcases List.mem_append.mp hc with hc | hc
    · exact (hchars c hc).2
    rcases List.mem_append.mp hc with hc | hc
    · exact isWordChar_of_blank (ha c hc)
    rcases hd c hc with rfl | hc
    · decide +kernel
    · exact isWordChar_of_blank hc
  have htag : Tag.readWhole (word ++ (rest ++ b)) = some (word, rest ++ b) := by
    rw [← List.append_assoc, Tag.readWhole_append (endsWord_of_blank hb), ← hword, hread]
    rfl
  have hfirst : firstTag false (code ++ p ++ body) =
      some (code ++ (p ++ (a ++ d)), word, rest ++ b) := by
    rw [hline, firstTag_append_of_not_word (by simp [hne]) hpass (firstTag_eq_none_iff.mpr hcode),
      firstTag_of_readWhole htag]
    simp
  have hcomment : endsInComment (code ++ (p ++ (a ++ d))) = true := by
    rcases hd' with rfl | hstar
    · rw [List.append_nil]
      exact endsInComment_mark hp code ha
    · exact endsInComment_star (by simp [hstar])
  refine ⟨b, hb, ?_⟩
  rw [annotationOf, hfirst]
  exact if_pos hcomment

/-- **Line comments are read alike.** Let a line be code without a whole tag word, a comment mark
and the body of a comment. If the body, read as a comment, has an annotation, then the line scan
finds it and nothing else; only the line that is kept with it is the whole one. -/
theorem scan_of_lineComment {code p body : Text} {a : Annotation} (hcode : '\n' ∉ code)
    (htag : ¬ HoldsTag code) (hp : p ∈ commentMarks) (hbody : '\n' ∉ body)
    (ha : a ∈ (Comment.mk body 1).annotations) :
    scan (code ++ p ++ body) = [{ a with raw := trim (code ++ p ++ body) }] := by
  have hfeed : '\n' ∉ code ++ p ++ body := by
    have hmark : '\n' ∉ p := fun h => absurd ((commentMarks_chars p hp).2 _ h).1 (by decide)
    simp only [List.mem_append, not_or]
    exact ⟨⟨hcode, hmark⟩, hbody⟩
  rw [Comment.annotations_of_not_mem hbody, Option.mem_toList] at ha
  obtain ⟨word, rest, hread, hof⟩ := Comment.exists_of_annotationOf ha
  obtain ⟨b, hb, hscan⟩ := annotationOf_lineComment htag hp hread 0
  rw [scan_of_not_mem hfeed, hscan, Annotation.of_append_of_blank hb word rest (trim body)]
  -- the first line has the number one on both sides
  rw [LineNumber.ofIndex, hof]
  rfl

/-- Words that only begin like tags in the code, and stars, a no-break space and a carriage return
in the comment. -/
theorem scan_of_lineComment_starred :
    let code := "log(\"TODOs, a hacksaw\") ".toList
    let body := " **\u00A0fixMe(@bob): race\r".toList
    let a : Annotation := ⟨.fixme, some 1, "race".toList, "**\u00A0fixMe(@bob): race".toList,
      some (.ofList [("assignee".toList, "bob".toList)])⟩
    '\n' ∉ code ∧ ¬ HoldsTag code ∧ ['/', '/'] ∈ commentMarks ∧ '\n' ∉ body ∧
      a ∈ (Comment.mk body 1).annotations ∧
      scan (code ++ ['/', '/'] ++ body) =
        [{ a with raw := trim (code ++ ['/', '/'] ++ body) }] := by
  intro code body a
  have hcode : '\n' ∉ code := by decide
  have htag : ¬ HoldsTag code := by decide +kernel
  have hp : ['/', '/'] ∈ commentMarks := by decide
  have hbody : '\n' ∉ body := by decide
  have ha : a ∈ (Comment.mk body 1).annotations := by decide +kernel
  exact ⟨hcode, htag, hp, hbody, ha, scan_of_lineComment hcode htag hp hbody ha⟩

end LineScan

end ActionItems
