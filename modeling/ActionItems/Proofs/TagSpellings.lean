import ActionItems.Comment
import ActionItems.Proofs.FirstTag

/-! # Spellings of tags

A tag is spelt in two ways that need not agree. The pattern compares letters after folding, and the
Kelvin sign folds to `K`; a tag's name is compared with the upper-case form of a whole word, in
which the dotless `i` becomes `I` and the ligature of `f` and `i` becomes `FI`. Both are compared
here with the names in capitals of the basic alphabet: besides the words that spell a name that way,
the pattern takes the words of `IsKelvinHack` (`map_fold_eq_name_iff`) and the names those of
`IsWideFixme` (`flatMap_upper_eq_name_iff`), and nothing else.

So a line whose tag word is not one of `IsKelvinHack` is kept with the tag that the word folds to
(`spellings_agree`). -/

namespace ActionItems

open Text

namespace Tag

/-! ### Letters outside of the basic alphabet -/

/-- The Kelvin sign, which folds to `K` and is its own upper-case form. -/
def kelvinSign : Char := Char.ofNat 0x212A

/-- The dotless `i`, which folds to itself and whose upper-case form is `I`. -/
def dotlessI : Char := Char.ofNat 0x131

/-- The ligature of `f` and `i`, which folds to itself and whose upper-case form is `FI`. -/
def ligatureFi : Char := Char.ofNat 0xFB01

/-- The spellings of `HACK` that end with the Kelvin sign. -/
def IsKelvinHack (w : Text) : Prop := w.map Char.toUpper = ['H', 'A', 'C', kelvinSign]

/-- The spellings of `FIXME` with the dotless `i` or the ligature. -/
def IsWideFixme (w : Text) : Prop :=
  w.map Char.toUpper = ['F', dotlessI, 'X', 'M', 'E'] ∨
    w.map Char.toUpper = [ligatureFi, 'X', 'M', 'E']

theorem eq_of_toNat {c : Char} {n : Nat} (h : c.toNat = n) : c = Char.ofNat n := by
  rw [← h, Char.ofNat_toNat]

theorem toUpper_eq_iff {c d : Char} (hd : 122 < d.toNat) : c.toUpper = d ↔ c = d := by
  have hsmall : 97 ≤ c.toNat ∧ c.toNat ≤ 122 → c.toUpper.toNat ≤ 90 := by
    rintro ⟨hlo, hhi⟩
    have : c.toNat ∈ List.range' 97 26 := by
      rw [List.mem_range'_1]
      omega
    have hall : ∀ n ∈ List.range' 97 26, (Char.ofNat n).toUpper.toNat ≤ 90 := by decide
    rw [← Char.ofNat_toNat c]
    exact hall _ this
  rcases toUpper_eq_or c with h | h
  · rw [h]
  · have hupper := hsmall h
    constructor
    · rintro rfl; omega
    · rintro rfl; omega

/-! ### Words that fold to a name -/

theorem map_eq_iff {f g : Char → Char} {l : Text} (h : ∀ d ∈ l, ∀ c, f c = d ↔ g c = d) (w : Text) :
    w.map f = l ↔ w.map g = l := by
  induction w generalizing l with
  | nil => simp
  | cons c w ih =>
    cases l with
    | nil => simp
    | cons d l =>
      rw [List.map_cons, List.map_cons, List.cons.injEq, List.cons.injEq,
        h d (List.mem_cons_self ..) c, ih fun e he => h e (List.mem_cons_of_mem _ he)]

theorem fold_eq_iff {c d : Char} (hd : d.toNat ≤ 90) :
    fold c = d ↔ c.toUpper = d ∨ (c = kelvinSign ∧ d = 'K') := by
  unfold fold
  split_ifs with hc
  · obtain rfl : c = kelvinSign := eq_of_toNat hc
    have hne : kelvinSign.toUpper ≠ d := by
      rintro rfl
      revert hd
      decide
    simp [hne, eq_comm]
  · have hne : c ≠ kelvinSign := by
      rintro rfl
      exact hc rfl
    simp [hne]

/-- **The pattern** takes the words that spell a name in basic letters, and the Kelvin spellings. -/
theorem map_fold_eq_name_iff {w : Text} {t : Tag} :
    w.map fold = t.name ↔ w.map Char.toUpper = t.name ∨ (t = .hack ∧ IsKelvinHack w) := by
  have hplain : ∀ l : Text, (∀ d ∈ l, d.toNat ≤ 90 ∧ d ≠ 'K') →
      ∀ w : Text, w.map fold = l ↔ w.map Char.toUpper = l := by
    intro l hl
    refine map_eq_iff fun d hd c => ?_
    rw [fold_eq_iff (hl d hd).1]
    simp [(hl d hd).2]
  cases t with
  | todo => simpa using hplain (name .todo) (by simp [name]) w
  | fixme => simpa using hplain (name .fixme) (by simp [name]) w
  | hack =>
    have hcut : ∀ f : Char → Char, ∀ k, w.map f = ['H', 'A', 'C', k] ↔
        ∃ u v, w = u ++ v ∧ u.map f = ['H', 'A', 'C'] ∧ v.map f = [k] := by
      intro f k
      show w.map f = ['H', 'A', 'C'] ++ [k] ↔ _
      exact List.map_eq_append_iff
    have hlast : ∀ v : Text, v.map fold = ['K'] ↔
        v.map Char.toUpper = ['K'] ∨ v.map Char.toUpper = [kelvinSign] := by
      intro v
      simp only [List.map_eq_singleton_iff, fold_eq_iff (d := 'K') (by decide),
        toUpper_eq_iff (d := kelvinSign) (by decide), and_true, ← exists_or, and_or_left]
    simp only [name, IsKelvinHack, hcut, hplain ['H', 'A', 'C'] (by simp), hlast, true_and]
    simp only [and_or_left, exists_or]

/-! ### Words with a name as their upper-case form -/

theorem upper_eq_or (c : Char) :
    upper c = [c.toUpper] ∨ ∃ d s, upper c = d :: s ∧ (d = 'F' ∨ d = 'I' ∨ d = 'S') := by
  unfold upper
  split <;> simp

theorem upper_of_letter {c : Char} (h : c.toUpper.toNat ≤ 90) : upper c = [c.toUpper] := by
  have hc : c.toNat ≤ 122 := by
    rcases toUpper_eq_or c with he | hl
    · rw [he] at h; omega
    · exact hl.2
  unfold upper
  split <;> first | rfl | omega

theorem flatMap_upper_of_letters {w l : Text} (hl : ∀ d ∈ l, d.toNat ≤ 90)
    (h : w.map Char.toUpper = l) : w.flatMap upper = l := by
  induction w generalizing l with
  | nil => exact h
  | cons c w ih =>
    subst h
    rw [List.map_cons] at hl ⊢
    rw [List.flatMap_cons, upper_of_letter (hl _ (List.mem_cons_self ..)),
      ih (fun d hd => hl d (List.mem_cons_of_mem _ hd)) rfl]
    rfl

theorem map_toUpper_of_flatMap {w l : Text} (hl : ∀ d ∈ l, d ≠ 'F' ∧ d ≠ 'I' ∧ d ≠ 'S')
    (h : w.flatMap upper = l) : w.map Char.toUpper = l := by
  induction w generalizing l with
  | nil => exact h
  | cons c w ih =>
    subst h
    rw [List.flatMap_cons] at hl ⊢
    rcases upper_eq_or c with hc | ⟨d, s, hc, hd⟩
    · rw [hc] at hl ⊢
      rw [List.map_cons, ih (fun e he => hl e (List.mem_append_right _ he)) rfl]
      rfl
    · obtain ⟨hF, hI, hS⟩ := hl d (by simp [hc])
      simp [hF, hI, hS] at hd

theorem upper_append_eq_F {c : Char} {r l : Text} (h : upper c ++ r = 'F' :: 'I' :: l) :
    (c.toUpper = 'F' ∧ r = 'I' :: l) ∨ (c = ligatureFi ∧ r = l) := by
  by_cases hc : c.toNat = 0xFB01
  · obtain rfl : c = ligatureFi := eq_of_toNat hc
    exact Or.inr ⟨rfl, by simpa [show upper ligatureFi = ['F', 'I'] from rfl] using h⟩
  · unfold upper at h
    split at h <;> simp_all

theorem upper_append_eq_I {c : Char} {r l : Text} (h : upper c ++ r = 'I' :: l) :
    (c.toUpper = 'I' ∧ r = l) ∨ (c = dotlessI ∧ r = l) := by
  by_cases hc : c.toNat = 0x131
  · obtain rfl : c = dotlessI := eq_of_toNat hc
    exact Or.inr ⟨rfl, by simpa [show upper dotlessI = ['I'] from rfl] using h⟩
  · unfold upper at h
    split at h <;> simp_all

theorem isWideFixme_of_flatMap {w : Text} (h : w.flatMap upper = name .fixme) :
    w.map Char.toUpper = name .fixme ∨ IsWideFixme w := by
  have hrest :
      ∀ v : Text, v.flatMap upper = ['X', 'M', 'E'] → v.map Char.toUpper = ['X', 'M', 'E'] :=
    fun v => map_toUpper_of_flatMap (by simp)
  have hligature : ligatureFi.toUpper = ligatureFi := by decide
  have hdotless : dotlessI.toUpper = dotlessI := by decide
  cases w with
  | nil => simp [name] at h
  | cons c u =>
    rw [List.flatMap_cons] at h
    rcases upper_append_eq_F h with ⟨hc, hu⟩ | ⟨rfl, hu⟩
    · cases u with
      | nil => simp at hu
      | cons d v =>
        rw [List.flatMap_cons] at hu
        rcases upper_append_eq_I hu with ⟨hd, hv⟩ | ⟨rfl, hv⟩
        · left
          simp [name, hc, hd, hrest v hv]
        · right; left
          simp [hc, hdotless, hrest v hv]
    · right; right
      simp [hligature, hrest u hu]

theorem flatMap_upper_of_isWideFixme {w : Text} (h : IsWideFixme w) :
    w.flatMap upper = name .fixme := by
  have hrest :
      ∀ v : Text, v.map Char.toUpper = ['X', 'M', 'E'] → v.flatMap upper = ['X', 'M', 'E'] :=
    fun v => flatMap_upper_of_letters (by simp)
  rcases h with h | h
  · obtain ⟨c, u, rfl, hc, hu⟩ := List.map_eq_cons_iff.mp h
    obtain ⟨d, v, rfl, hd, hv⟩ := List.map_eq_cons_iff.mp hu
    obtain rfl := (toUpper_eq_iff (by decide)).mp hd
    rw [List.flatMap_cons, List.flatMap_cons, upper_of_letter (by rw [hc]; decide), hc, hrest v hv]
    rfl
  · obtain ⟨c, v, rfl, hc, hv⟩ := List.map_eq_cons_iff.mp h
    obtain rfl := (toUpper_eq_iff (by decide)).mp hc
    rw [List.flatMap_cons, hrest v hv]
    rfl

/-- **The names** take the words that spell them in basic letters, and the wide spellings. -/
theorem flatMap_upper_eq_name_iff {w : Text} {t : Tag} :
    w.flatMap upper = t.name ↔ w.map Char.toUpper = t.name ∨ (t = .fixme ∧ IsWideFixme w) := by
  have hletters : ∀ d ∈ t.name, d.toNat ≤ 90 := fun d hd => (name_letters t d hd).2
  constructor
  · intro h
    cases t with
    | todo => exact Or.inl (map_toUpper_of_flatMap (by simp [name]) h)
    | fixme => simpa using isWideFixme_of_flatMap h
    | hack => exact Or.inl (map_toUpper_of_flatMap (by simp [name]) h)
  · rintro (h | ⟨rfl, h⟩)
    · exact flatMap_upper_of_letters hletters h
    · exact flatMap_upper_of_isWideFixme h

theorem ofWord?_eq_some_iff {w : Text} {t : Tag} :
    ofWord? w = some t ↔ w.flatMap upper = t.name := by
  unfold ofWord?
  constructor
  · intro h
    have hname := List.find?_some h
    exact (eq_of_beq hname).symm
  · intro h
    rw [h]
    cases t <;> rfl

/-! ### The two readings of a word -/

theorem ofWord?_of_fold {w : Text} {t : Tag} (h : w.map fold = t.name) (hw : ¬ IsKelvinHack w) :
    ofWord? w = some t := by
  rcases map_fold_eq_name_iff.mp h with h | ⟨-, h⟩
  · exact ofWord?_eq_some_iff.mpr (flatMap_upper_eq_name_iff.mpr (Or.inl h))
  · exact absurd h hw

theorem ofWord?_isSome_iff {w : Text} (hw : ¬ IsKelvinHack w) :
    (ofWord? w).isSome = true ↔ read w = some (w, []) ∨ IsWideFixme w := by
  have hread : read w = some (w, []) ↔ ∃ t : Tag, w.map fold = t.name := by
    rw [read_eq_some_iff, List.append_nil]
    simp
  rw [hread, Option.isSome_iff_exists]
  constructor
  · rintro ⟨t, ht⟩
    rcases flatMap_upper_eq_name_iff.mp (ofWord?_eq_some_iff.mp ht) with h | ⟨-, h⟩
    · exact Or.inl ⟨t, map_fold_eq_name_iff.mpr (Or.inl h)⟩
    · exact Or.inr h
  · rintro (⟨t, ht⟩ | h)
    · exact ⟨t, ofWord?_of_fold ht hw⟩
    · exact ⟨.fixme, ofWord?_eq_some_iff.mpr (flatMap_upper_of_isWideFixme h)⟩

theorem read_ne_of_isWideFixme {w : Text} (h : IsWideFixme w) : read w ≠ some (w, []) := by
  intro hread
  obtain ⟨-, t, ht⟩ := read_eq_some_iff.mp hread
  have hne : ∀ l ∈ [['F', dotlessI, 'X', 'M', 'E'], [ligatureFi, 'X', 'M', 'E']],
      l ≠ t.name ∧ l ≠ ['H', 'A', 'C', kelvinSign] := by
    cases t <;> decide
  rcases map_fold_eq_name_iff.mp ht with he | ⟨-, he⟩ <;> rcases h with h | h
  · exact (hne _ (by simp)).1 (h.symm.trans he)
  · exact (hne _ (by simp)).1 (h.symm.trans he)
  · exact (hne _ (by simp)).2 (h.symm.trans he)
  · exact (hne _ (by simp)).2 (h.symm.trans he)

end Tag

/-! ### Lines that are kept -/

theorem Annotation.of_of_readWhole {s word rest : Text} (h : Tag.readWhole s = some (word, rest))
    (hw : ¬ Tag.IsKelvinHack word) (l : LineNumber) (raw : Text) :
    ∃ a, Annotation.of word l raw rest = some a ∧ a.line = some l ∧ a.raw = raw ∧
      word.map Tag.fold = a.tag.name := by
  obtain ⟨-, t, ht⟩ := Tag.of_readWhole h
  unfold Annotation.of
  rw [Tag.ofWord?_of_fold ht hw]
  exact ⟨_, rfl, rfl, rfl, ht⟩

theorem LineScan.exists_mem_scan {content line before word rest : Text} {i : Nat}
    (hline : (lines content)[i]? = some line)
    (hfirst : firstTag false line = some (before, word, rest))
    (hcomment : endsInComment before = true)
    (hw : ¬ Tag.IsKelvinHack word) :
    ∃ a ∈ scan content, a.line = some (.ofIndex i) ∧ a.raw = trim line ∧
      word.map Tag.fold = a.tag.name := by
  obtain ⟨-, hread, -, -⟩ := firstTag_eq_some hfirst
  obtain ⟨a, ha, hfacts⟩ := Annotation.of_of_readWhole hread hw (.ofIndex i) (trim line)
  refine ⟨a, List.mem_filterMap.mpr ⟨(line, i), List.mem_zipIdx_iff_getElem?.mpr hline, ?_⟩, hfacts⟩
  simp only [annotationOf, hfirst, hcomment, if_true, ha]

theorem Comment.exists_mem_annotations {c : Comment} {line word rest : Text} {i : Nat}
    (hline : (lines c.text)[i]? = some line)
    (hread : Tag.readWhole (dropStars (trim line)) = some (word, rest))
    (hw : ¬ Tag.IsKelvinHack word) :
    ∃ a ∈ c.annotations, a.line = some (c.startLine.advance i) ∧ a.raw = trim line ∧
      word.map Tag.fold = a.tag.name := by
  obtain ⟨a, ha, hfacts⟩ := Annotation.of_of_readWhole hread hw (c.startLine.advance i) (trim line)
  refine ⟨a, List.mem_filterMap.mpr ⟨(line, i), List.mem_zipIdx_iff_getElem?.mpr hline, ?_⟩, hfacts⟩
  simp only [annotationOf, hread, ha]

/-- **Spellings of tags.** Apart from the spellings of `HACK` with the Kelvin sign, a word has the
name of a tag exactly if the pattern takes it or it is a wide spelling of `FIXME`, which the pattern
does not take. So no line is dropped whose tag word is not spelt with the Kelvin sign: the line scan
keeps each line with such a first tag word behind the opening of a comment, and a comment each line
that opens with such a tag word, with the tag that the word folds to. -/
theorem Tag.spellings_agree :
    (∀ w, ¬ IsKelvinHack w →
      ((ofWord? w).isSome = true ↔ read w = some (w, []) ∨ IsWideFixme w)) ∧
    (∀ w, IsWideFixme w → read w ≠ some (w, [])) ∧
    (∀ (content : Text) (i : Nat) (line before word rest : Text), (lines content)[i]? = some line →
      LineScan.firstTag false line = some (before, word, rest) →
      LineScan.endsInComment before = true → ¬ IsKelvinHack word →
      ∃ a ∈ LineScan.scan content, a.line = some (.ofIndex i) ∧ a.raw = trim line ∧
        word.map fold = a.tag.name) ∧
    ∀ (c : Comment) (i : Nat) (line word rest : Text), (lines c.text)[i]? = some line →
      readWhole (Comment.dropStars (trim line)) = some (word, rest) → ¬ IsKelvinHack word →
      ∃ a ∈ c.annotations, a.line = some (c.startLine.advance i) ∧ a.raw = trim line ∧
        word.map fold = a.tag.name :=
  ⟨fun _ => ofWord?_isSome_iff, fun _ => read_ne_of_isWideFixme,
    fun _ _ _ _ _ _ => LineScan.exists_mem_scan, fun _ _ _ _ _ => Comment.exists_mem_annotations⟩

/-- A tag in mixed case on the second line, read by the line scan and as a comment. -/
theorem Tag.spellings_agree_mixed :
    let content := "x\n# hAcK: y".toList
    let c : Comment := ⟨"x\n * hAcK: y".toList, 7⟩
    let word := "hAcK".toList
    ¬ IsKelvinHack word ∧
      ((ofWord? word).isSome = true ↔ read word = some (word, []) ∨ IsWideFixme word) ∧
      IsWideFixme (ligatureFi :: "xme".toList) ∧
      read (ligatureFi :: "xme".toList) ≠ some (ligatureFi :: "xme".toList, []) ∧
      (lines content)[1]? = some "# hAcK: y".toList ∧
      LineScan.firstTag false "# hAcK: y".toList = some ("# ".toList, word, ": y".toList) ∧
      LineScan.endsInComment "# ".toList = true ∧
      (∃ a ∈ LineScan.scan content, a.line = some (.ofIndex 1) ∧ a.raw = trim "# hAcK: y".toList ∧
        word.map fold = a.tag.name) ∧
      (lines c.text)[1]? = some " * hAcK: y".toList ∧
      readWhole (Comment.dropStars (trim " * hAcK: y".toList)) = some (word, ": y".toList) ∧
      ∃ a ∈ c.annotations, a.line = some (c.startLine.advance 1) ∧
        a.raw = trim " * hAcK: y".toList ∧
        word.map fold = a.tag.name := by
  intro content c word
  obtain ⟨hword, hwide, hscan, hcomment⟩ := Tag.spellings_agree
  have hw : ¬ IsKelvinHack word := by unfold IsKelvinHack; decide
  have hfixme : IsWideFixme (ligatureFi :: "xme".toList) := by unfold IsWideFixme; decide
  have hline : (lines content)[1]? = some "# hAcK: y".toList := by decide
  have hfirst :
      LineScan.firstTag false "# hAcK: y".toList = some ("# ".toList, word, ": y".toList) := by
    decide +kernel
  have hopen : LineScan.endsInComment "# ".toList = true := by decide
  have hstar : (lines c.text)[1]? = some " * hAcK: y".toList := by decide
  have hread :
      readWhole (Comment.dropStars (trim " * hAcK: y".toList)) = some (word, ": y".toList) := by
    decide +kernel
  exact ⟨hw, hword word hw, hfixme, hwide _ hfixme, hline, hfirst, hopen,
    hscan content 1 _ _ word _ hline hfirst hopen hw, hstar, hread,
    hcomment c 1 _ word _ hstar hread hw⟩

/-- **The two readings differ** at a spelling of `HACK` with the Kelvin sign, which the pattern
takes and which is no name in upper case, so that its line is dropped; and at a spelling of `FIXME`
with the ligature, of which the reverse holds. -/
theorem Tag.spellings_differ :
    let kelvin := "HAC".toList ++ [kelvinSign]
    let wide := ligatureFi :: "xme".toList
    ¬ (read kelvin = some (kelvin, []) ↔ (ofWord? kelvin).isSome = true) ∧
      ¬ (read wide = some (wide, []) ↔ (ofWord? wide).isSome = true) ∧
      LineScan.firstTag false ("# ".toList ++ kelvin) = some ("# ".toList, kelvin, []) ∧
      LineScan.endsInComment "# ".toList = true ∧ LineScan.scan ("# ".toList ++ kelvin) = [] ∧
      readWhole kelvin = some (kelvin, []) ∧ (Comment.mk kelvin 1).annotations = [] := by
  decide +kernel

end ActionItems
