import Mathlib.Data.List.DropRight
import ActionItems.Text.Basic

/-! # Cutting text: what is kept and what is dropped

Every cut of the library leaves a part of the text it was given, and says what the dropped part is
made of. Trimming drops blanks at the two ends (`exists_trim`), so blanks put there do not matter
(`trim_append_of_blank`), and the end of a text stays the end (`trim_suffix_trim`). The pieces
between marked characters are those of the standard library (`splitAll_eq_splitOnP`): a mark in the
middle of a text cuts it into the pieces of the two sides, and so a blank cuts its words
(`words_append_cons`); pieces that are put together with a mark between them are found again
(`splitAll_join`). The first mark is that behind a text without marks (`splitOnce_append_cons`,
`splitOnce_eq_some_iff`).

The lines of a text are the pieces between its line feeds, except that a carriage return before a
line feed goes and an empty last piece is no line. A scan that finds nothing in an empty piece and
does not see a carriage return at its end may read the pieces instead (`filterMap_lines`). -/

namespace ActionItems.Text

/-! ### Trimming -/

theorem trimStart_append_of_blank {b : Text} (hb : ∀ c ∈ b, isBlank c) (s : Text) :
    trimStart (b ++ s) = trimStart s := by
  unfold trimStart
  rw [List.dropWhile_append_of_pos hb]

theorem exists_trimStart (s : Text) : ∃ b, s = b ++ trimStart s ∧ ∀ c ∈ b, isBlank c :=
  ⟨s.takeWhile isBlank, (List.takeWhile_append_dropWhile).symm,
    fun _ hc => List.mem_takeWhile_imp hc⟩

/-- Trailing blanks are dropped as by the standard library. -/
theorem trimEnd_eq_rdropWhile (s : Text) : trimEnd s = s.rdropWhile isBlank := by
  induction s with
  | nil => rfl
  | cons c s ih =>
    have hstep : trimEnd (c :: s) = trimEndStep c (trimEnd s) := rfl
    rw [hstep, ih, trimEndStep, List.rdropWhile, List.rdropWhile, List.reverse_cons,
      List.dropWhile_append]
    by_cases hs : (List.dropWhile isBlank s.reverse).isEmpty = true
    · by_cases hc : isBlank c = true <;> simp [hc, List.isEmpty_iff.mp hs]
    · simp [hs]

theorem trimEnd_append_of_blank {b : Text} (hb : ∀ c ∈ b, isBlank c) (s : Text) :
    trimEnd (s ++ b) = trimEnd s := by
  have hb' : ∀ c ∈ b.reverse, isBlank c := fun c hc => hb c (List.mem_reverse.mp hc)
  rw [trimEnd_eq_rdropWhile, trimEnd_eq_rdropWhile, List.rdropWhile, List.reverse_append,
    List.dropWhile_append_of_pos hb', List.rdropWhile]

theorem exists_trimEnd (s : Text) : ∃ b, s = trimEnd s ++ b ∧ ∀ c ∈ b, isBlank c := by
  refine ⟨s.rtakeWhile isBlank, ?_, fun c hc => List.mem_rtakeWhile_imp hc⟩
  rw [trimEnd_eq_rdropWhile, List.rdropWhile_append_rtakeWhile]

/-- **Trimming** takes blanks off the two ends. -/
theorem exists_trim (s : Text) :
    ∃ a b, s = a ++ trim s ++ b ∧ (∀ c ∈ a, isBlank c) ∧ ∀ c ∈ b, isBlank c := by
  obtain ⟨a, ha, hab⟩ := exists_trimStart s
  obtain ⟨b, hb, hbb⟩ := exists_trimEnd (trimStart s)
  refine ⟨a, b, ?_, hab, hbb⟩
  rw [List.append_assoc, trim, ← hb, ← ha]

theorem trim_append_of_blank {b : Text} (hb : ∀ c ∈ b, isBlank c) (s : Text) :
    trim (s ++ b) = trim s := by
  unfold trim trimStart
  rw [List.dropWhile_append]
  by_cases hs : (List.dropWhile isBlank s).isEmpty = true
  · have hb' : List.dropWhile isBlank b = [] := by simpa using hb
    rw [if_pos hs, hb', List.isEmpty_iff.mp hs]
  · rw [if_neg hs, trimEnd_append_of_blank hb]

theorem trimStart_of_head {c : Char} (hc : isBlank c = false) (s : Text) :
    trimStart (c :: s) = c :: s :=
  List.dropWhile_cons_of_neg (by simp [hc])

/-- Leading blanks are dropped before the first character that is none. -/
theorem trimStart_append_cons {c : Char} (hc : isBlank c = false) (s t : Text) :
    trimStart (s ++ c :: t) = trimStart s ++ c :: t := by
  have hhead := trimStart_of_head hc t
  unfold trimStart at hhead ⊢
  rw [List.dropWhile_append, hhead]
  split_ifs with hs
  · rw [List.isEmpty_iff.mp hs, List.nil_append]
  · rfl

/-- Trailing blanks are dropped behind the last character that is none. -/
theorem trimEnd_append_cons {c : Char} (hc : isBlank c = false) (s t : Text) :
    trimEnd (s ++ c :: t) = s ++ c :: trimEnd t := by
  induction s with
  | nil =>
    show trimEndStep c (trimEnd t) = c :: trimEnd t
    simp [trimEndStep, hc]
  | cons d s ih =>
    show trimEndStep d (trimEnd (s ++ c :: t)) = d :: (s ++ c :: trimEnd t)
    rw [ih, trimEndStep]
    simp

/-- Trimming the end stops at a text that is not all blank. -/
theorem trimEnd_append_of_exists {t : Text} (h : ∃ c ∈ t, isBlank c = false) (s : Text) :
    trimEnd (s ++ t) = s ++ trimEnd t := by
  obtain ⟨c, hc, hblank⟩ := h
  obtain ⟨a, b, rfl⟩ := List.append_of_mem hc
  rw [← List.append_assoc, trimEnd_append_cons hblank, trimEnd_append_cons hblank,
    List.append_assoc]

/-- The two ends may be trimmed in either order. -/
theorem trimStart_trimEnd (s : Text) : trimStart (trimEnd s) = trim s := by
  obtain ⟨b, hs, hb⟩ := exists_trimStart s
  cases ht : trimStart s with
  | nil =>
    rw [ht, List.append_nil] at hs
    have hend : trimEnd s = [] := by
      have := trimEnd_append_of_blank hb []
      rwa [List.nil_append, ← hs] at this
    rw [hend, trim, ht]
    rfl
  | cons c t =>
    have hc : isBlank c = false := by
      have := List.head?_dropWhile_not isBlank s
      rwa [← trimStart, ht] at this
    rw [trim, ht, hs, ht, trimEnd_append_cons hc, trimStart_append_of_blank hb,
      trimStart_of_head hc]
    exact (trimEnd_append_cons hc [] t).symm

theorem trim_trim (s : Text) : trim (trim s) = trim s := by
  have hstart : trimStart (trim s) = trim s := by
    rw [← trimStart_trimEnd, trimStart, trimStart, List.dropWhile_idempotent]
  rw [trim, hstart, trim, trimEnd_eq_rdropWhile, trimEnd_eq_rdropWhile, List.rdropWhile_idempotent]

theorem trim_trimEnd (s : Text) : trim (trimEnd s) = trim s := by
  obtain ⟨b, hs, hb⟩ := exists_trimEnd s
  calc trim (trimEnd s) = trim (trimEnd s ++ b) := (trim_append_of_blank hb _).symm
    _ = trim s := by rw [← hs]

theorem trim_of_forall_not {s : Text} (h : ∀ c ∈ s, isBlank c = false) : trim s = s := by
  rw [trim, trimStart, trimEnd_eq_rdropWhile, List.dropWhile_eq_self_iff.mpr,
    List.rdropWhile_eq_self_iff.mpr]
  · exact fun hs => by simp [h _ (List.getLast_mem hs)]
  · exact fun hs => by simp [h _ (List.getElem_mem hs)]

theorem mem_of_mem_trim {c : Char} {s : Text} (h : c ∈ trim s) : c ∈ s := by
  obtain ⟨a, b, hs, -, -⟩ := exists_trim s
  rw [hs]
  simp [h]

/-- No blank stands at either end. -/
def IsTrimmed (s : Text) : Prop :=
  (∀ c ∈ s.head?, isBlank c = false) ∧ ∀ c ∈ s.getLast?, isBlank c = false

theorem isTrimmed_trim (s : Text) : IsTrimmed (trim s) := by
  constructor
  · intro c hc
    have hhead := List.head?_dropWhile_not isBlank (trimEnd s)
    rw [← trimStart, trimStart_trimEnd, Option.mem_def.mp hc] at hhead
    exact hhead
  · intro c hc
    rw [trim, trimEnd_eq_rdropWhile] at hc
    obtain ⟨hne, rfl⟩ := List.mem_getLast?_eq_getLast hc
    simpa using List.rdropWhile_last_not isBlank _ hne

theorem isTrimmed_of_forall_not {s : Text} (h : ∀ c ∈ s, isBlank c = false) : IsTrimmed s :=
  ⟨fun c hc => h c (List.mem_of_mem_head? hc), fun c hc => h c (List.mem_of_mem_getLast? hc)⟩

/-- Trimming stops at a text with no blank at its ends. -/
theorem trim_append_of_isTrimmed {p : Text} (hne : p ≠ []) (hp : IsTrimmed p) (s : Text) :
    trim (s ++ p) = trimStart s ++ p := by
  have hfirst : isBlank (p.head hne) = false := hp.1 _ (List.head?_eq_some_head hne)
  have hlast : isBlank (p.getLast hne) = false := hp.2 _ (List.getLast?_eq_some_getLast hne)
  have hstart : trimStart (s ++ p) = trimStart s ++ p := by
    have := trimStart_append_cons hfirst s p.tail
    rwa [List.cons_head_tail hne] at this
  have hend : trimEnd (trimStart s ++ p) = trimStart s ++ p := by
    have := trimEnd_append_cons hlast (trimStart s ++ p.dropLast) []
    rwa [show trimEnd [] = [] from rfl, List.append_assoc, List.dropLast_append_getLast hne] at this
  rw [trim, hstart, hend]

/-- **The end of a text** is trimmed to the end of the trimmed text. -/
theorem trim_suffix_trim {y s : Text} (h : y <:+ s) : trim y <:+ trim s := by
  by_cases hy : trim y = []
  · rw [hy]
    exact List.nil_suffix
  obtain ⟨p, rfl⟩ := h
  obtain ⟨a, b, hab, -, hb⟩ := exists_trim y
  refine ⟨trimStart (p ++ a), ?_⟩
  calc trimStart (p ++ a) ++ trim y = trim (p ++ a ++ trim y) :=
        (trim_append_of_isTrimmed hy (isTrimmed_trim y) _).symm
    _ = trim (p ++ a ++ trim y ++ b) := (trim_append_of_blank hb _).symm
    _ = trim (p ++ y) := by rw [List.append_assoc p, List.append_assoc p, ← hab]

/-! ### Pieces between marks -/

/-- The pieces are those of the standard library. -/
theorem splitAll_eq_splitOnP (p : Char → Bool) (s : Text) : splitAll p s = s.splitOnP p := by
  induction s with
  | nil => rfl
  | cons c s ih =>
    rw [splitAll, ih, List.splitOnP_cons_eq_if_modifyHead]
    cases h : s.splitOnP p with
    | nil => exact absurd h (List.splitOnP_ne_nil p s)
    | cons a r => by_cases hc : p c = true <;> simp [hc]

theorem splitAll_ne_nil (p : Char → Bool) (s : Text) : splitAll p s ≠ [] := by
  rw [splitAll_eq_splitOnP]
  exact List.splitOnP_ne_nil p s

theorem splitAll_cons_of_pos {p : Char → Bool} {c : Char} (hc : p c = true) (s : Text) :
    splitAll p (c :: s) = [] :: splitAll p s := by
  rw [splitAll_eq_splitOnP, splitAll_eq_splitOnP, List.splitOnP_cons_eq_if_modifyHead, if_pos hc]

/-- A character that is no mark goes to the front of the first piece. -/
theorem exists_splitAll_cons_of_neg {p : Char → Bool} {c : Char} (hc : ¬ p c = true) (s : Text) :
    ∃ a r, splitAll p s = a :: r ∧ splitAll p (c :: s) = (c :: a) :: r := by
  obtain ⟨a, r, h⟩ := List.exists_cons_of_ne_nil (splitAll_ne_nil p s)
  refine ⟨a, r, h, ?_⟩
  rw [splitAll, h]
  simp [hc]

theorem splitAll_append_cons {p : Char → Bool} {c : Char} (hc : p c = true) (s t : Text) :
    splitAll p (s ++ c :: t) = splitAll p s ++ splitAll p t := by
  simp only [splitAll_eq_splitOnP]
  exact List.splitOnP_append_cons s t hc

theorem splitAll_of_forall_not {p : Char → Bool} {s : Text} (h : ∀ c ∈ s, p c = false) :
    splitAll p s = [s] := by
  rw [splitAll_eq_splitOnP]
  exact List.splitOnP_eq_singleton h

/-- A text without marks goes to the front of the first piece. -/
theorem exists_splitAll_append {p : Char → Bool} {s : Text} (h : ∀ c ∈ s, p c = false) (t : Text) :
    ∃ a r, splitAll p t = a :: r ∧ splitAll p (s ++ t) = (s ++ a) :: r := by
  induction s with
  | nil =>
    obtain ⟨a, r, ht⟩ := List.exists_cons_of_ne_nil (splitAll_ne_nil p t)
    exact ⟨a, r, ht, ht⟩
  | cons c s ih =>
    obtain ⟨a, r, ht, hst⟩ := ih fun d hd => h d (List.mem_cons_of_mem _ hd)
    have hc : ¬ p c = true := by simp [h c (List.mem_cons_self ..)]
    obtain ⟨a', r', hst', hcst⟩ := exists_splitAll_cons_of_neg hc (s ++ t)
    obtain ⟨rfl, rfl⟩ := List.cons.inj (hst.symm.trans hst')
    exact ⟨a, r, ht, hcst⟩

/-- The first piece goes up to the first mark. -/
theorem eq_takeWhile_of_splitAll {p : Char → Bool} {s a : Text} {r : List Text}
    (h : splitAll p s = a :: r) :
    a = s.takeWhile (!p ·) := by
  induction s generalizing a r with
  | nil => exact (List.cons.inj h).1.symm
  | cons c s ih =>
    by_cases hc : p c = true
    · rw [splitAll_cons_of_pos hc] at h
      rw [List.takeWhile_cons_of_neg (by simp [hc]), (List.cons.inj h).1]
    · obtain ⟨a', r', hs, hcs⟩ := exists_splitAll_cons_of_neg hc s
      rw [List.takeWhile_cons_of_pos (by simp [hc]), ← ih hs, (List.cons.inj (hcs.symm.trans h)).1]

/-- A character put in front of the first piece. -/
theorem eq_or_exists_of_mem_cons {c d : Char} {q a : Text} {r : List Text} (hq : q ∈ (d :: a) :: r)
    (hc : c ∈ q) : c = d ∨ ∃ q' ∈ a :: r, c ∈ q' := by
  rcases List.mem_cons.mp hq with rfl | hq
  · rcases List.mem_cons.mp hc with hc | hc
    · exact Or.inl hc
    · exact Or.inr ⟨a, List.mem_cons_self .., hc⟩
  · exact Or.inr ⟨q, List.mem_cons_of_mem _ hq, hc⟩

theorem of_mem_splitAll {p : Char → Bool} {s q : Text} (h : q ∈ splitAll p s) :
    ∀ c ∈ q, c ∈ s ∧ p c = false := by
  induction s generalizing q with
  | nil =>
    obtain rfl : q = [] := by simpa [splitAll] using h
    simp
  | cons d s ih =>
    intro c hc
    by_cases hd : p d = true
    · rw [splitAll_cons_of_pos hd] at h
      rcases List.mem_cons.mp h with rfl | h
      · simp at hc
      · exact ⟨List.mem_cons_of_mem _ (ih h c hc).1, (ih h c hc).2⟩
    · obtain ⟨a, r, hs, hds⟩ := exists_splitAll_cons_of_neg hd s
      rw [hs] at ih
      rw [hds] at h
      rcases eq_or_exists_of_mem_cons h hc with rfl | ⟨q', hq', hc⟩
      · exact ⟨List.mem_cons_self .., by simpa using hd⟩
      · exact ⟨List.mem_cons_of_mem _ (ih hq' c hc).1, (ih hq' c hc).2⟩

theorem length_splitAll (p : Char → Bool) (s : Text) :
    (splitAll p s).length = s.countP p + 1 := by
  induction s with
  | nil => rfl
  | cons c s ih =>
    by_cases hc : p c = true
    · rw [splitAll_cons_of_pos hc, List.length_cons, ih, List.countP_cons_of_pos hc]
    · obtain ⟨a, r, h, h'⟩ := exists_splitAll_cons_of_neg hc s
      rw [h', List.countP_cons_of_neg hc, ← ih, h, List.length_cons, List.length_cons]

theorem words_append_cons {b : Char} (hb : isBlank b = true) (s t : Text) :
    words (s ++ b :: t) = words s ++ words t := by
  rw [words, splitAll_append_cons hb, List.filter_append, words, words]

theorem of_mem_words {s w : Text} (h : w ∈ words s) :
    w ≠ [] ∧ ∀ c ∈ w, c ∈ s ∧ isBlank c = false := by
  obtain ⟨hw, hne⟩ := List.mem_filter.mp h
  exact ⟨by simpa using hne, of_mem_splitAll hw⟩

theorem words_of_forall_not {s : Text} (hs : s ≠ []) (h : ∀ c ∈ s, isBlank c = false) :
    words s = [s] := by
  rw [words, splitAll_of_forall_not h]
  simp [hs]

/-! ### Pieces put together -/

theorem mem_join {sep : Text} {c : Char} :
    ∀ {qs : List Text}, c ∈ join sep qs → c ∈ sep ∨ ∃ q ∈ qs, c ∈ q
  | [], h => by simp [join] at h
  | [q], h => Or.inr ⟨q, by simp, h⟩
  | q :: q' :: r, h => by
    rw [join, List.mem_append, List.mem_append] at h
    rcases h with (h | h) | h
    · exact Or.inr ⟨q, by simp, h⟩
    · exact Or.inl h
    · rcases mem_join h with h | ⟨x, hx, hc⟩
      · exact Or.inl h
      · exact Or.inr ⟨x, List.mem_cons_of_mem _ hx, hc⟩

/-- Pieces without marks are found again between the marks that were put between them. -/
theorem splitAll_join {p : Char → Bool} {d : Char} (hd : p d = true) :
    ∀ {qs : List Text}, qs ≠ [] → (∀ q ∈ qs, ∀ c ∈ q, p c = false) → splitAll p (join [d] qs) = qs
  | [], hne, _ => absurd rfl hne
  | [q], _, h => splitAll_of_forall_not (h q (by simp))
  | q :: q' :: r, _, h => by
    have hrest := splitAll_join hd (List.cons_ne_nil q' r) fun x hx =>
      h x (List.mem_cons_of_mem _ hx)
    rw [join, List.append_assoc, List.singleton_append, splitAll_append_cons hd,
      splitAll_of_forall_not (h q (by simp)), hrest]
    rfl

/-! ### The first mark -/

theorem splitOnce_append_cons {p : Char → Bool} {a : Text} (ha : ∀ c ∈ a, p c = false) {d : Char}
    (hd : p d = true) (b : Text) : splitOnce p (a ++ d :: b) = some (a, b) := by
  induction a with
  | nil => simp [splitOnce, hd]
  | cons c a ih =>
    have hc : p c = false := ha c (List.mem_cons_self ..)
    rw [List.cons_append, splitOnce, ih fun x hx => ha x (List.mem_cons_of_mem _ hx)]
    simp [hc]

theorem splitOnce_eq_some_iff {p : Char → Bool} {s a b : Text} :
    splitOnce p s = some (a, b) ↔ (∃ d, p d = true ∧ s = a ++ d :: b) ∧ ∀ c ∈ a, p c = false := by
  constructor
  · intro h
    induction s generalizing a with
    | nil => simp [splitOnce] at h
    | cons c s ih =>
      rw [splitOnce] at h
      split_ifs at h with hc
      · obtain ⟨rfl, rfl⟩ : [] = a ∧ s = b := by simpa using h
        exact ⟨⟨c, hc, rfl⟩, by simp⟩
      · obtain ⟨⟨a', b'⟩, hs, heq⟩ := Option.map_eq_some_iff.mp h
        obtain ⟨rfl, rfl⟩ : c :: a' = a ∧ b' = b := by simpa using heq
        obtain ⟨⟨d, hd, rfl⟩, hnot⟩ := ih hs
        exact ⟨⟨d, hd, rfl⟩, by simpa [hc] using hnot⟩
  · rintro ⟨⟨d, hd, rfl⟩, hnot⟩
    exact splitOnce_append_cons hnot hd b

theorem splitOnce_eq_none {p : Char → Bool} {s : Text} (h : splitOnce p s = none) :
    ∀ c ∈ s, p c = false := by
  induction s with
  | nil => simp
  | cons c s ih =>
    rw [splitOnce] at h
    split_ifs at h with hc
    rw [Option.map_eq_none_iff] at h
    simpa [hc] using ih h

/-! ### Lines -/

theorem dropReturn_eq_or (line : Text) :
    dropReturn line = line ∨ line = dropReturn line ++ ['\r'] := by
  unfold dropReturn
  split_ifs with h
  · exact Or.inr (List.dropLast_append_getLast? _ h).symm
  · exact Or.inl rfl

theorem filterMap_ended {β : Type} {f : Text × Nat → Option β} (hnil : ∀ i, f ([], i) = none)
    (hdrop : ∀ l i, f (dropReturn l, i) = f (l, i)) : ∀ (ps : List Text) (k : Nat),
      ((lines.ended ps).zipIdx k).filterMap f = (ps.zipIdx k).filterMap f
  | [], _ => rfl
  | [last], k => by
    rw [lines.ended]
    split_ifs with h
    · rw [List.isEmpty_iff.mp h]
      simp [hnil]
    · rfl
  | a :: b :: r, k => by
    rw [lines.ended, List.zipIdx_cons, List.zipIdx_cons, List.filterMap_cons, List.filterMap_cons,
      hdrop, filterMap_ended hnil hdrop (b :: r) (k + 1)]

/-- **Lines as pieces.** A scan that finds nothing in an empty piece and does not see a carriage
return at the end of a piece finds in the lines what it finds in the pieces between line feeds. -/
theorem filterMap_lines {β : Type} {f : Text × Nat → Option β} (hnil : ∀ i, f ([], i) = none)
    (hret : ∀ l i, f (l ++ ['\r'], i) = f (l, i)) (s : Text) :
    (lines s).zipIdx.filterMap f = (splitAll (· == '\n') s).zipIdx.filterMap f := by
  refine filterMap_ended hnil (fun l i => ?_) _ 0
  rcases dropReturn_eq_or l with h | h
  · rw [h]
  · rw [← hret, ← h]

/-! ### Ends of a text -/

theorem after?_eq_some {pre s r : Text} : after? pre s = some r ↔ pre ++ r = s :=
  List.isPrefixOf?_eq_some_iff_append_eq

theorem before?_eq_some {post s r : Text} : before? post s = some r ↔ r ++ post = s := by
  unfold before?
  rw [Option.map_eq_some_iff]
  constructor
  · rintro ⟨q, hq, rfl⟩
    rw [List.isPrefixOf?_eq_some_iff_append_eq] at hq
    rw [← List.reverse_reverse s, ← hq]
    simp
  · rintro rfl
    exact ⟨r.reverse, List.isPrefixOf?_eq_some_iff_append_eq.mpr (by simp), by simp⟩

end ActionItems.Text
