import ActionItems.Proofs.LineScanBytes
import ActionItems.Proofs.TagSpellings

/-! # The rule of the line scan

The line scan follows a rule that speaks of places in a line. A tag stands at a place (`StandsAt`)
if the letters there are those of its name in either case, with a word boundary in front of them and
behind them. A line is marked (`IsMarked`) if a tag stands in it, the text before the first such
place looks like the opening of a comment, and the word there is the name of a tag; and the
annotation of a marked line is its record (`IsRecordOf`).

* `standsAt_iff`: the letters of a tag are word characters, so the boundaries say that no word
  character stands before the tag or behind it.
* `first_iff`: what the search of a line finds is the first place where a tag stands, and no other
  place is the first one.
* `annotationOf_eq_some_iff`: the annotations of a line are its records, of which there is one just
  if the line is marked (`isMarked_iff`).

The scan of a text is then the list of the records of its marked lines. -/

namespace ActionItems.LineScan

open Text

/-! ### The rule -/

/-- A place in a text with a word character on one side and none on the other. -/
def IsWordBoundary (s : Text) (n : Nat) : Prop :=
  (s.take n).getLast?.any isWordChar ≠ (s.drop n).head?.any isWordChar

/-- A tag stands at a place, as a whole word and in letters of either case. -/
structure StandsAt (line : Text) (n : Nat) (t : Tag) : Prop where
  letters : ((line.drop n).take t.name.length).map Tag.fold = t.name
  opens : IsWordBoundary line n
  closes : IsWordBoundary line (n + t.name.length)

/-- Text that ends with a comment mark, blanks aside, or has a star in it. -/
def LooksLikeComment (before : Text) : Prop :=
  (∃ mark ∈ ["#".toList, "//".toList, "--".toList, ";".toList, "%".toList],
    mark <:+ trim before) ∨ '*' ∈ before

/-- A line with a tag at its first place for tags, in what looks like a comment, and with a name
there. -/
structure IsMarked (line : Text) (n : Nat) (t : Tag) : Prop where
  stands : StandsAt line n t
  first : ∀ m < n, ∀ t', ¬ StandsAt line m t'
  comment : LooksLikeComment (line.take n)
  named : ∃ t', Tag.ofWord? ((line.drop n).take t.name.length) = some t'

/-- What is recorded for a tag at a place in the line with the given index. -/
structure IsRecordOf (line : Text) (i n : Nat) (t : Tag) (a : Annotation) : Prop where
  tag : a.tag = t
  number : ∃ l, a.line = some l ∧ l.toNat = min (i + 1) 4294967295
  raw : a.raw = trim line
  tail : ⟨a.text, a.metadata⟩ = Tail.parse ((line.drop (n + t.name.length)).dropWhile fun c =>
    c == ':' || c == '-' || c == ')' || isBlank c)

/-! ### Places of tags -/

theorem isWordBoundary_append (a b : Text) :
    IsWordBoundary (a ++ b) a.length ↔ a.getLast?.any isWordChar ≠ b.head?.any isWordChar := by
  rw [IsWordBoundary, List.take_left, List.drop_left]

section Word
variable {word : Text} {t : Tag} (h : word.map Tag.fold = t.name)
include h

theorem length_of_fold : word.length = t.name.length := by rw [← h, List.length_map]

theorem word_ne_nil : word ≠ [] := by
  rintro rfl
  cases t <;> simp [Tag.name] at h

theorem isWordChar_of_mem : ∀ c ∈ word, isWordChar c = true :=
  fun _ hc => Tag.isWordChar_of_fold_mem (h ▸ List.mem_map_of_mem hc)

theorem head_word (rest : Text) : (word ++ rest).head?.any isWordChar = true := by
  obtain ⟨c, w, rfl⟩ := List.exists_cons_of_ne_nil (word_ne_nil h)
  exact isWordChar_of_mem h c (List.mem_cons_self ..)

theorem getLast_word (before : Text) : (before ++ word).getLast?.any isWordChar = true := by
  have hlast := List.getLast?_eq_some_getLast (word_ne_nil h)
  rw [List.getLast?_append, hlast]
  exact isWordChar_of_mem h _ (List.getLast_mem _)

theorem readWhole_iff (rest : Text) :
    Tag.readWhole (word ++ rest) = some (word, rest) ↔ rest.head?.any isWordChar = false := by
  have hread : Tag.read (word ++ rest) = some (word, rest) := Tag.read_eq_some_iff.mpr ⟨rfl, t, h⟩
  rw [Tag.readWhole_eq_some_iff, and_iff_right hread]
  cases rest <;> simp [endsWord]

/-- A tag stands between two texts just if the first does not end, and the second does not go on,
with a word. -/
theorem standsAt_append_iff (before rest : Text) :
    StandsAt (before ++ (word ++ rest)) before.length t ↔
      (∀ c ∈ before.getLast?, isWordChar c = false) ∧
        Tag.readWhole (word ++ rest) = some (word, rest) := by
  have hopens : IsWordBoundary (before ++ (word ++ rest)) before.length ↔
      ∀ c ∈ before.getLast?, isWordChar c = false := by
    rw [isWordBoundary_append, head_word h]
    cases before.getLast? <;> simp
  have hcloses : IsWordBoundary (before ++ (word ++ rest)) (before.length + t.name.length) ↔
      Tag.readWhole (word ++ rest) = some (word, rest) := by
    rw [readWhole_iff h, ← length_of_fold h, ← List.length_append, ← List.append_assoc,
      isWordBoundary_append,
      getLast_word h, ne_comm, ne_eq, Bool.not_eq_true]
  rw [← hopens, ← hcloses]
  refine ⟨fun hs => ⟨hs.opens, hs.closes⟩, fun hs => ⟨?_, hs.1, hs.2⟩⟩
  rw [List.drop_left, ← length_of_fold h, List.take_left, h]

end Word

theorem standsAt_iff {line : Text} {n : Nat} {t : Tag} :
    StandsAt line n t ↔ ∃ before word rest, line = before ++ (word ++ rest) ∧ before.length = n ∧
      word.map Tag.fold = t.name ∧ (∀ c ∈ before.getLast?, isWordChar c = false) ∧
      Tag.readWhole (word ++ rest) = some (word, rest) := by
  constructor
  · intro hstands
    have hline : line = line.take n ++
      ((line.drop n).take t.name.length ++ (line.drop n).drop t.name.length) := by
      rw [List.take_append_drop, List.take_append_drop]
    have hlength : (line.take n).length = n := by
      have hword := length_of_fold hstands.letters
      have hpos : 0 < t.name.length := by cases t <;> decide
      rw [List.length_take, List.length_drop] at hword
      rw [List.length_take]
      omega
    refine ⟨_, _, _, hline, hlength, hstands.letters,
      (standsAt_append_iff hstands.letters _ _).mp ?_⟩
    rwa [← hline, hlength]
  · rintro ⟨before, word, rest, rfl, rfl, hword, hsides⟩
    exact (standsAt_append_iff hword before rest).mpr hsides

/-! ### The first place -/

/-- **What is found** in a line is the first place where a tag stands. -/
theorem first_iff {line before word rest : Text}
    (h : firstTag false line = some (before, word, rest)) {n : Nat}
    {t : Tag} : (StandsAt line n t ∧ ∀ m < n, ∀ t', ¬ StandsAt line m t') ↔
      n = before.length ∧ word.map Tag.fold = t.name := by
  have hleast : ∀ m t', StandsAt line m t' → before.length ≤ m := by
    intro m t' hstands
    obtain ⟨b, w, r, rfl, rfl, -, hlast, hread⟩ := standsAt_iff.mp hstands
    obtain ⟨x, hx, hle⟩ := exists_firstTag hread false (fun _ => rfl) hlast
    obtain rfl : x = (before, word, rest) := Option.some.inj (hx.symm.trans h)
    exact hle
  obtain ⟨rfl, hread, -, hlast⟩ := firstTag_eq_some h
  obtain ⟨-, t₀, ht₀⟩ := Tag.of_readWhole hread
  have hthere :
      ∀ t', word.map Tag.fold = t'.name → StandsAt (before ++ (word ++ rest)) before.length t' :=
    fun t' ht' => (standsAt_append_iff ht' before rest).mpr ⟨hlast, hread⟩
  constructor
  · rintro ⟨hstands, hfirst⟩
    obtain rfl : n = before.length := by
      have hle := hleast n t hstands
      have hge : ¬ before.length < n := fun hlt => hfirst _ hlt t₀ (hthere t₀ ht₀)
      omega
    have hletters := hstands.letters
    rw [List.drop_left] at hletters
    obtain rfl : t = t₀ := Tag.eq_of_take_fold ht₀ hletters
    exact ⟨rfl, ht₀⟩
  · rintro ⟨rfl, ht⟩
    refine ⟨hthere t ht, fun m hm t' hstands => ?_⟩
    have hle := hleast m t' hstands
    omega

theorem not_standsAt {line : Text} (h : firstTag false line = none) (n : Nat) (t : Tag) :
    ¬ StandsAt line n t := by
  intro hstands
  obtain ⟨before, word, rest, hline, -, -, hlast, hread⟩ := standsAt_iff.mp hstands
  exact firstTag_eq_none_iff.mp h ⟨before, word, rest, hline, hlast, hread⟩

/-! ### The annotations of a line -/

theorem endsInComment_iff {before : Text} :
    endsInComment before = true ↔ LooksLikeComment before := by
  have hmark : ∀ m : Text, (before? m (trim before)).isSome = true ↔ m <:+ trim before := by
    intro m
    rw [Option.isSome_iff_exists]
    simp only [before?_eq_some]
    rfl
  simp only [endsInComment, Bool.or_eq_true, List.any_eq_true, hmark, List.contains_eq_mem,
    decide_eq_true_eq]
  rfl

/-- A word that spells a tag's name has no other tag's name. -/
theorem eq_of_ofWord? {word : Text} {t t' : Tag} (h : word.map Tag.fold = t.name)
    (h' : Tag.ofWord? word = some t') :
    t' = t := by
  by_cases hkelvin : Tag.IsKelvinHack word
  · -- such a word is no name at all
    rcases Tag.flatMap_upper_eq_name_iff.mp (Tag.ofWord?_eq_some_iff.mp h') with hname | ⟨-, hwide⟩
    · have hne : t'.name ≠ ['H', 'A', 'C', Tag.kelvinSign] := by cases t' <;> decide
      exact absurd (hname.symm.trans hkelvin) hne
    · exact absurd (Tag.read_eq_some_iff.mpr ⟨(List.append_nil word).symm, t, h⟩)
        (Tag.read_ne_of_isWideFixme hwide)
  · exact Option.some.inj (h'.symm.trans (Tag.ofWord?_of_fold h hkelvin))

theorem parse_dropTagMarks (rest : Text) : Tail.parse (Tail.dropTagMarks rest) =
    Tail.parse (rest.dropWhile fun c => c == ':' || c == '-' || c == ')' || isBlank c) := by
  have htrim := trim_trimEnd (rest.dropWhile Tail.isTagMark)
  unfold Tail.parse
  rw [Tail.dropTagMarks, htrim]
  rfl

theorem toNat_ofIndex_eq (i : Nat) : (LineNumber.ofIndex i).toNat = min (i + 1) 4294967295 := by
  rw [LineNumber.toNat_ofIndex, Nat.add_comm]
  rfl

section Cut
variable {before word rest : Text} {t : Tag} (h : word.map Tag.fold = t.name)
include h

variable (before rest) in
/-- A line that is cut at a tag: the text before it, the word and the text behind it. -/
theorem cut_at_tag : (before ++ (word ++ rest)).take before.length = before ∧
    ((before ++ (word ++ rest)).drop before.length).take t.name.length = word ∧
    (before ++ (word ++ rest)).drop (before.length + t.name.length) = rest := by
  refine ⟨List.take_left, ?_, ?_⟩
  · rw [List.drop_left, ← length_of_fold h, List.take_left]
  · rw [← length_of_fold h, ← List.length_append, ← List.append_assoc, List.drop_left]

theorem isRecordOf_iff {i : Nat} {a : Annotation} :
    IsRecordOf (before ++ (word ++ rest)) i before.length t a ↔
      let tail := Tail.parse (Tail.dropTagMarks rest)
      a = ⟨t, some (.ofIndex i), tail.text, trim (before ++ (word ++ rest)), tail.metadata⟩ := by
  obtain ⟨-, -, hrest⟩ := cut_at_tag before rest h
  obtain ⟨tag, line, text, raw, metadata⟩ := a
  constructor
  · rintro ⟨rfl, ⟨l, rfl, hl⟩, rfl, htail⟩
    obtain rfl : l = .ofIndex i := UInt32.toNat_inj.mp (hl.trans (toNat_ofIndex_eq i).symm)
    rw [hrest, ← parse_dropTagMarks] at htail
    simp only [← htail]
  · intro ha
    cases ha
    exact ⟨rfl, ⟨_, rfl, toNat_ofIndex_eq i⟩, rfl, by rw [hrest, ← parse_dropTagMarks]⟩

end Cut

/-- **The annotation of a line** is the record of its first tag, if the line is marked. -/
theorem annotationOf_eq_some_iff {line : Text} {i : Nat} {a : Annotation} :
    annotationOf line i = some a ↔ ∃ n t, IsMarked line n t ∧ IsRecordOf line i n t a := by
  cases h : firstTag false line with
  | none =>
    simp only [annotationOf, h]
    refine ⟨fun ha => by simp at ha, ?_⟩
    rintro ⟨n, t, hmarked, -⟩
    exact absurd hmarked.stands (not_standsAt h n t)
  | some x =>
    obtain ⟨before, word, rest⟩ := x
    obtain ⟨rfl, hread, -, -⟩ := firstTag_eq_some h
    simp only [annotationOf, h]
    constructor
    · intro ha
      split_ifs at ha with hcomment
      obtain ⟨t', ht', rfl⟩ := Option.map_eq_some_iff.mp ha
      obtain ⟨-, t, ht⟩ := Tag.of_readWhole hread
      obtain rfl := eq_of_ofWord? ht ht'
      obtain ⟨hbefore, hword, -⟩ := cut_at_tag before rest ht
      obtain ⟨hstands, hleast⟩ := (first_iff h).mpr ⟨rfl, ht⟩
      refine ⟨before.length, t', ⟨hstands, hleast, ?_, t', ?_⟩, (isRecordOf_iff ht).mpr rfl⟩
      · rw [hbefore]
        exact endsInComment_iff.mp hcomment
      · rw [hword, ht']
    · rintro ⟨n, t, hmarked, hrecord⟩
      obtain ⟨rfl, ht⟩ := (first_iff h).mp ⟨hmarked.stands, hmarked.first⟩
      obtain ⟨hbefore, hword, -⟩ := cut_at_tag before rest ht
      have hcomment := hmarked.comment
      obtain ⟨t', ht'⟩ := hmarked.named
      rw [hbefore] at hcomment
      rw [hword] at ht'
      obtain rfl := eq_of_ofWord? ht ht'
      obtain rfl := (isRecordOf_iff ht).mp hrecord
      rw [if_pos (endsInComment_iff.mpr hcomment), Annotation.of, ht']
      rfl

theorem exists_isRecordOf (line : Text) (i n : Nat) (t : Tag) : ∃ a, IsRecordOf line i n t a :=
  ⟨⟨t, some (.ofIndex i), _, trim line, _⟩, rfl, ⟨_, rfl, toNat_ofIndex_eq i⟩, rfl, rfl⟩

theorem isMarked_iff {line : Text} (i : Nat) :
    (annotationOf line i).isSome = true ↔ ∃ n t, IsMarked line n t := by
  rw [Option.isSome_iff_exists]
  simp only [annotationOf_eq_some_iff]
  constructor
  · rintro ⟨a, n, t, hmarked, -⟩
    exact ⟨n, t, hmarked⟩
  · rintro ⟨n, t, hmarked⟩
    obtain ⟨a, ha⟩ := exists_isRecordOf line i n t
    exact ⟨a, n, t, hmarked, ha⟩

instance (line : Text) : Decidable (∃ n t, IsMarked line n t) := decidable_of_iff _ (isMarked_iff 0)

/-! ### The scan of a text -/

/-- **The rule of the line scan.** The annotations of a text are, one by one and in the order of the
lines, the records of its marked lines. -/
theorem scan_follows_rule (content : Text) :
    List.Forall₂ (fun (x : Text × Nat) a => ∃ n t, IsMarked x.1 n t ∧ IsRecordOf x.1 x.2 n t a)
      ((physicalLines content).zipIdx.filter fun x : Text × Nat => decide (∃ n t, IsMarked x.1 n t))
      (scan content) := by
  rw [scan_eq]
  refine forall₂_filterMap (fun x _ => ?_) fun x _ a ha => annotationOf_eq_some_iff.mp ha
  rw [Bool.eq_iff_iff, decide_eq_true_iff, isMarked_iff]

end ActionItems.LineScan
