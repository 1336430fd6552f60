import ActionItems.Proofs.LineComments
import ActionItems.Proofs.MetadataLayout

/-! # The form of annotations

Whatever a source holds, its annotations are well formed (`Annotation.IsWellFormed`): the line that
is kept is trimmed and not empty, the message is trimmed and ends that line, and metadata, if there
is any, has entries, which are neat (`Metadata.IsTidy`).

A message is cut off the end of the text after a tag (`exists_text_parse`), so it ends the line too.
An entry comes from a word, a part or an inline token, and each of the ways to add one keeps a map
tidy (`addPair_tidy`, `addWord_tidy`, `addPart_tidy`, `applyInline_tidy`): a pair is trimmed and
dropped if a side is blank, and a text without a colon is a trimmed part or a word. Commas are gone
by then, since they separate parts and inline pairs (`of_mem_parts`). -/

namespace ActionItems

open Text

/-! ### Tidy metadata -/

namespace Metadata

/-- Text that holds neither a comma nor a line feed. -/
def IsPlain (s : Text) : Prop := ',' ∉ s ∧ '\n' ∉ s

/-- What a key and a value of metadata are like. -/
structure IsNeat (s : Text) : Prop where
  nonempty : s ≠ []
  trimmed : IsTrimmed s
  plain : IsPlain s

/-- All keys and values are neat, and no key holds a colon. -/
def IsTidy (m : Metadata) : Prop :=
  ∀ e ∈ m.entries, IsNeat e.1 ∧ IsNeat e.2 ∧ ':' ∉ e.1

theorem IsPlain.of_subset {s t : Text} (h : IsPlain s) (hsub : t ⊆ s) : IsPlain t :=
  ⟨fun hc => h.1 (hsub hc), fun hc => h.2 (hsub hc)⟩

theorem isNeat_trim {s : Text} (hne : trim s ≠ []) (hs : IsPlain s) : IsNeat (trim s) :=
  ⟨hne, isTrimmed_trim s, hs.of_subset fun _ => mem_of_mem_trim⟩

theorem empty_tidy : IsTidy empty := by simp [IsTidy, empty]

theorem insert_tidy {m : Metadata} (hm : m.IsTidy) {k v : Text} (hk : IsNeat k) (hcolon : ':' ∉ k)
    (hv : IsNeat v) : (m.insert k v).IsTidy := by
  intro e he
  rcases mem_place he with rfl | he
  · exact ⟨hk, hv, hcolon⟩
  · exact hm e he

theorem insert_assignee_tidy {m : Metadata} (hm : m.IsTidy) {v : Text} (hv : IsNeat v) :
    (m.insert assigneeKey v).IsTidy := by
  have hblank : (assigneeKey.all fun c => !isBlank c) = true := by decide
  have hkey : IsNeat assigneeKey :=
    ⟨by decide, isTrimmed_of_forall_not (by simpa using hblank), by decide, by decide⟩
  exact insert_tidy hm hkey (by decide) hv

theorem foldl_tidy {add : Metadata → Text → Metadata} {l : List Text}
    (h : ∀ s ∈ l, ∀ m : Metadata, m.IsTidy → (add m s).IsTidy) {m : Metadata} (hm : m.IsTidy) :
    (l.foldl add m).IsTidy := by
  induction l generalizing m with
  | nil => exact hm
  | cons s l ih =>
    exact ih (fun s' hs' => h s' (List.mem_cons_of_mem _ hs')) (h s (List.mem_cons_self ..) m hm)

end Metadata

namespace Tail

open Metadata

/-! ### Words -/

theorem addPair_tidy {m : Metadata} (hm : m.IsTidy) {k v : Text} (hk : IsPlain k) (hcolon : ':' ∉ k)
    (hv : IsPlain v) : (addPair k v m).IsTidy := by
  unfold addPair
  split_ifs with h
  · exact hm
  · have hne : trim k ≠ [] ∧ trim v ≠ [] := by simpa [List.isEmpty_iff] using h
    exact insert_tidy hm (isNeat_trim hne.1 hk) (fun hc => hcolon (mem_of_mem_trim hc))
      (isNeat_trim hne.2 hv)

theorem addPair_tidy_of_splitOnce {m : Metadata} (hm : m.IsTidy) {w k v : Text} (hw : IsPlain w)
    (h : splitOnce (· == ':') w = some (k, v)) : (addPair k v m).IsTidy := by
  obtain ⟨⟨d, -, rfl⟩, hk⟩ := splitOnce_eq_some_iff.mp h
  have hcolon : ':' ∉ k := fun hc => by simpa using hk _ hc
  exact addPair_tidy hm (hw.of_subset fun c hc => by simp [hc]) hcolon
    (hw.of_subset fun c hc => by simp [hc])

theorem isNeat_of_handle {w n : Text} (h : handle? w = some n) : IsNeat n := by
  have hname : n ≠ [] ∧ ∀ c ∈ n, isHandleChar c = true := by
    unfold handle? at h
    split at h
    · split_ifs at h with hn
      obtain rfl := Option.some.inj h
      simpa using hn
    · simp at h
  have hinner : ∀ c ∈ n, isInnerChar c = true :=
    fun c hc => (isInnerChar_of_handle (hname.2 c hc)).1
  refine ⟨hname.1, isTrimmed_of_forall_not fun c hc => (isInnerChar_iff.mp (hinner c hc)).1, ?_, ?_⟩
  · exact fun hc => absurd (hinner _ hc) (by decide)
  · exact fun hc => absurd (hinner _ hc) (by decide)

/-- A word is added to a tidy map; without a colon it has to be neat itself. -/
theorem addWord_tidy {m : Metadata} (hm : m.IsTidy) {w : Text} (hw : IsPlain w)
    (hbare : ':' ∉ w → IsNeat w) : (addWord m w).IsTidy := by
  unfold addWord
  split
  · next n hn => exact insert_assignee_tidy hm (isNeat_of_handle hn)
  · split
    · next k v hkv => exact addPair_tidy_of_splitOnce hm hw hkv
    · next hnone =>
      refine insert_assignee_tidy hm (hbare fun hc => ?_)
      simpa using splitOnce_eq_none hnone _ hc

/-! ### Parts in parentheses -/

theorem foldr_closeUpStep_sublist (s : Text) : (s.foldr closeUpStep []).Sublist s := by
  induction s with
  | nil => exact List.Sublist.refl _
  | cons c s ih =>
    rw [List.foldr_cons, closeUpStep]
    split_ifs
    · exact ih.cons c
    · exact ih.cons_cons c

theorem dropAfterColon_sublist (afterColon : Bool) (s : Text) :
    (dropAfterColon afterColon s).Sublist s := by
  induction s generalizing afterColon with
  | nil => exact List.Sublist.refl _
  | cons c s ih =>
    rw [dropAfterColon]
    split_ifs
    · exact (ih true).cons c
    · exact (ih _).cons_cons c

theorem tightenColons_sublist (s : Text) : (tightenColons s).Sublist s :=
  (dropAfterColon_sublist false _).trans (foldr_closeUpStep_sublist s)

theorem ne_colon_of_blank {c : Char} (h : isBlank c = true) : ':' ≠ c := by
  rintro rfl
  exact absurd h (by decide)

/-- Closing up drops blanks only, so colons stay. -/
theorem colon_mem_foldr_closeUpStep {s : Text} (h : ':' ∈ s) : ':' ∈ s.foldr closeUpStep [] := by
  induction s with
  | nil => exact h
  | cons c s ih =>
    rw [List.foldr_cons, closeUpStep]
    split_ifs with hc
    · have hblank : isBlank c = true := (Bool.and_eq_true _ _ ▸ hc).1
      exact ih ((List.mem_cons.mp h).resolve_left (ne_colon_of_blank hblank))
    · rcases List.mem_cons.mp h with rfl | h
      · exact List.mem_cons_self ..
      · exact List.mem_cons_of_mem _ (ih h)

theorem colon_mem_dropAfterColon {s : Text} (h : ':' ∈ s) (afterColon : Bool) :
    ':' ∈ dropAfterColon afterColon s := by
  induction s generalizing afterColon with
  | nil => simp at h
  | cons c s ih =>
    rw [dropAfterColon]
    split_ifs with hc
    · have hblank : isBlank c = true := (Bool.and_eq_true _ _ ▸ hc).2
      exact ih ((List.mem_cons.mp h).resolve_left (ne_colon_of_blank hblank)) true
    · rcases List.mem_cons.mp h with rfl | h
      · exact List.mem_cons_self ..
      · exact List.mem_cons_of_mem _ (ih h _)

/-- A text that has no colon once it is closed up had none before, and is unchanged. -/
theorem tightenColons_eq_self {s : Text} (h : ':' ∉ tightenColons s) : tightenColons s = s := by
  have hs : ':' ∉ s := fun hc => h (colon_mem_dropAfterColon (colon_mem_foldr_closeUpStep hc) false)
  have htight : s.Pairwise Tight := List.pairwise_of_forall_mem_list fun c hc d hd =>
    ⟨fun _ => ne_of_mem_of_not_mem hd hs, fun _ => ne_of_mem_of_not_mem hc hs⟩
  exact tightenColons_of_isChain htight.isChain

theorem addPart_tidy {m : Metadata} (hm : m.IsTidy) {part : Text} (hp : IsPlain part) :
    (addPart m part).IsTidy := by
  have hplain : IsPlain (tightenColons (trim part)) :=
    hp.of_subset fun c hc => mem_of_mem_trim ((tightenColons_sublist _).subset hc)
  unfold addPart
  split_ifs with hempty
  · exact hm
  dsimp only
  split_ifs
  · refine foldl_tidy (fun w hw m hm => ?_) hm
    obtain ⟨hne, hchars⟩ := of_mem_words hw
    have hw' : IsPlain w := hplain.of_subset fun c hc => (hchars c hc).1
    exact addWord_tidy hm hw' fun _ =>
      ⟨hne, isTrimmed_of_forall_not fun c hc => (hchars c hc).2, hw'⟩
  · refine addWord_tidy hm hplain fun hcolon => ?_
    rw [tightenColons_eq_self hcolon]
    exact isNeat_trim (by simpa [List.isEmpty_iff] using hempty) hp

theorem of_mem_parts {s q : Text} (h : q ∈ parts s) : ∀ c ∈ q, c ∈ s ∧ isPartMark c = false := by
  fun_induction parts s generalizing q with
  | case1 => simp_all
  | case2 c hc => simp_all
  | case3 c hc => simp_all
  | case4 c d s hcut ih =>
    intro x hx
    rcases List.mem_cons.mp h with rfl | h
    · simp at hx
    · exact ⟨List.mem_cons_of_mem _ (ih h x hx).1, (ih h x hx).2⟩
  | case5 c d s hcut hnil ih => exact absurd hnil (parts_ne_nil _)
  | case6 c d s hcut a r hparts ih =>
    intro x hx
    rcases eq_or_exists_of_mem_cons h hx with rfl | ⟨q', hq', hx⟩
    · have hmark : isPartMark x = false := by
        by_contra hx
        exact hcut (by simp [hx])
      exact ⟨List.mem_cons_self .., hmark⟩
    · rw [← hparts] at hq'
      exact ⟨List.mem_cons_of_mem _ (ih hq' x hx).1, (ih hq' x hx).2⟩

/-! ### Inline tokens -/

theorem applyInline_tidy {m : Metadata} (hm : m.IsTidy) {piece : Text} (hp : IsPlain piece) :
    (applyInline m piece).IsTidy := by
  unfold applyInline
  split
  · next k v hkv => exact addPair_tidy_of_splitOnce hm hp hkv
  · exact hm

/-! ### The whole tail -/

theorem parenthesized?_eq_some {s inside rest : Text} (h : parenthesized? s = some (inside, rest)) :
    ∃ d, s = '(' :: (inside ++ d :: rest) := by
  unfold parenthesized? at h
  split at h
  · obtain ⟨⟨d, -, rfl⟩, -⟩ := splitOnce_eq_some_iff.mp h
    exact ⟨d, rfl⟩
  · simp at h

theorem splitInline_eq_some {s token rest : Text} (h : splitInline s = some (token, rest)) :
    ∃ d, s = token ++ d :: rest := by
  obtain ⟨⟨d, -, hs⟩, -⟩ := splitOnce_eq_some_iff.mp (Option.filter_eq_some_iff.mp h).1
  exact ⟨d, hs⟩

theorem dropSeparator_suffix (rest : Text) : dropSeparator rest <:+ rest := by
  have hstart : trimStart rest <:+ rest := List.dropWhile_suffix _
  unfold dropSeparator
  split
  · next s hs => exact (List.suffix_cons ':' s).trans (hs ▸ hstart)
  · next s hs => exact (List.suffix_cons '-' s).trans (hs ▸ hstart)
  · exact hstart

/-- The three readings of a tail. -/
theorem parse_cases (raw : Text) :
    (∃ inside rest, parenthesized? (trim raw) = some (inside, rest) ∧
      parse raw = withMetadata (dropSeparator rest) ((parts inside).foldl addPart .empty)) ∨
    (∃ token rest, splitInline (trim raw) = some (token, rest) ∧
      parse raw = withMetadata rest ((splitAll (· == ',') token).foldl applyInline .empty)) ∨
    parse raw = ⟨trim raw, none⟩ := by
  unfold parse
  dsimp only
  split
  · next inside rest h => exact Or.inl ⟨inside, rest, h, rfl⟩
  · split
    · next token rest h => exact Or.inr (Or.inl ⟨token, rest, h, rfl⟩)
    · exact Or.inr (Or.inr rfl)

/-- **The message** is the end of a tail. -/
theorem exists_text_parse (raw : Text) : ∃ x, (parse raw).text = trim x ∧ x <:+ trim raw := by
  obtain ⟨inside, rest, h, hparse⟩ | ⟨token, rest, h, hparse⟩ | hparse := parse_cases raw <;>
    rw [hparse]
  · obtain ⟨d, hs⟩ := parenthesized?_eq_some h
    refine ⟨dropSeparator rest, rfl, (dropSeparator_suffix rest).trans ⟨'(' :: (inside ++ [d]), ?_⟩⟩
    simp [hs]
  · obtain ⟨d, hs⟩ := splitInline_eq_some h
    exact ⟨rest, rfl, ⟨token ++ [d], by simp [hs]⟩⟩
  · exact ⟨trim raw, (trim_trim raw).symm, List.suffix_rfl⟩

theorem of_withMetadata {text : Text} {m n : Metadata}
    (h : (withMetadata text m).metadata = some n) :
    n = m ∧ m.entries ≠ [] := by
  unfold withMetadata at h
  split_ifs at h with hempty
  exact ⟨(Option.some.inj h).symm, by simpa using hempty⟩

/-- **Metadata is tidy** in a tail of one line. -/
theorem tidy_parse {raw : Text} (hraw : '\n' ∉ raw) {m : Metadata}
    (h : (parse raw).metadata = some m) :
    m.entries ≠ [] ∧ m.IsTidy := by
  have hfeed : '\n' ∉ trim raw := fun hc => hraw (mem_of_mem_trim hc)
  obtain ⟨inside, rest, hin, hparse⟩ | ⟨token, rest, hin, hparse⟩ | hparse := parse_cases raw <;>
    rw [hparse] at h
  · obtain ⟨rfl, hne⟩ := of_withMetadata h
    obtain ⟨d, hs⟩ := parenthesized?_eq_some hin
    refine ⟨hne, foldl_tidy (fun part hpart m hm => addPart_tidy hm ⟨?_, ?_⟩) empty_tidy⟩
    · exact fun hc => absurd (of_mem_parts hpart _ hc).2 (by decide)
    · exact fun hc => hfeed (by simp [hs, (of_mem_parts hpart _ hc).1])
  · obtain ⟨rfl, hne⟩ := of_withMetadata h
    obtain ⟨d, hs⟩ := splitInline_eq_some hin
    refine ⟨hne, foldl_tidy (fun piece hpiece m hm => applyInline_tidy hm ⟨?_, ?_⟩) empty_tidy⟩
    · exact fun hc => by simpa using (of_mem_splitAll hpiece _ hc).2
    · exact fun hc => hfeed (by simp [hs, (of_mem_splitAll hpiece _ hc).1])
  · simp at h

end Tail

/-! ### Annotations -/

/-- What an annotation is like. -/
structure Annotation.IsWellFormed (a : Annotation) : Prop where
  raw_nonempty : a.raw ≠ []
  raw_trimmed : IsTrimmed a.raw
  raw_line : '\n' ∉ a.raw
  text_trimmed : IsTrimmed a.text
  /-- The message ends the line. -/
  text_suffix : a.text <:+ a.raw
  metadata_nonempty : ∀ m ∈ a.metadata, m.entries ≠ []
  metadata_tidy : ∀ m ∈ a.metadata, m.IsTidy

theorem trim_dropTagMarks_suffix {rest s : Text} (h : rest <:+ s) :
    trim (Tail.dropTagMarks rest) <:+ trim s := by
  obtain ⟨b, hb, hblank⟩ := exists_trimEnd (rest.dropWhile Tail.isTagMark)
  have htrim : trim (Tail.dropTagMarks rest) = trim (rest.dropWhile Tail.isTagMark) := by
    rw [hb, trim_append_of_blank hblank]
    rfl
  rw [htrim]
  exact trim_suffix_trim ((List.dropWhile_suffix _).trans h)

theorem mem_of_mem_dropTagMarks {c : Char} {rest : Text} (h : c ∈ Tail.dropTagMarks rest) :
    c ∈ rest := by
  obtain ⟨b, hb, -⟩ := exists_trimEnd (rest.dropWhile Tail.isTagMark)
  have hmem : c ∈ rest.dropWhile Tail.isTagMark := by
    rw [hb]
    exact List.mem_append_left _ h
  exact (List.dropWhile_suffix _).subset hmem

/-- The annotation of a tag in a line is well formed, given the end of the line after the tag. -/
theorem Annotation.isWellFormed_of {word rest s : Text} {l : LineNumber} {a : Annotation}
    (h : Annotation.of word l (trim s) rest = some a) (hne : trim s ≠ []) (hs : '\n' ∉ s)
    (hrest : rest <:+ s) : a.IsWellFormed := by
  obtain ⟨tag, -, rfl⟩ := Option.map_eq_some_iff.mp h
  obtain ⟨x, htext, hx⟩ := Tail.exists_text_parse (Tail.dropTagMarks rest)
  have hsuffix : trim x <:+ trim s := by
    have := trim_suffix_trim hx
    rw [trim_trim] at this
    exact this.trans (trim_dropTagMarks_suffix hrest)
  have hfeed : '\n' ∉ Tail.dropTagMarks rest :=
    fun hc => hs (hrest.subset (mem_of_mem_dropTagMarks hc))
  exact {
    raw_nonempty := hne
    raw_trimmed := isTrimmed_trim s
    raw_line := fun hc => hs (mem_of_mem_trim hc)
    text_trimmed := by
      show IsTrimmed (Tail.parse (Tail.dropTagMarks rest)).text
      exact htext ▸ isTrimmed_trim x
    text_suffix := by
      show (Tail.parse (Tail.dropTagMarks rest)).text <:+ trim s
      exact htext ▸ hsuffix
    metadata_nonempty := fun m hm => (Tail.tidy_parse hfeed hm).1
    metadata_tidy := fun m hm => (Tail.tidy_parse hfeed hm).2 }

theorem Text.not_mem_physicalLine {s line : Text} {i : Nat}
    (h : (physicalLines s)[i]? = some line) :
    '\n' ∉ line := by
  intro hc
  simpa using (of_mem_splitAll (List.mem_of_getElem? h) _ hc).2

theorem Tag.trim_ne_nil {s word rest : Text} (h : Tag.readWhole (word ++ rest) = some (word, rest))
    (hs : word ++ rest <:+ s) : trim s ≠ [] := by
  intro hnil
  obtain ⟨a, b, hab, ha, hb⟩ := exists_trim s
  cases hw : word ++ rest with
  | nil =>
    rw [hw] at h
    cases h
  | cons c t =>
    have hmem : c ∈ s := hs.subset (by simp [hw])
    have hblank : isBlank c = true := by
      rw [hab, hnil] at hmem
      rcases List.mem_append.mp hmem with hc | hc
      · exact ha c (by simpa using hc)
      · exact hb c hc
    simp [hw, Tag.readWhole_of_not_word (isWordChar_of_blank hblank)] at h

theorem LineScan.isWellFormed_of_mem_scan {content : Text} {a : Annotation} (h : a ∈ scan content) :
    a.IsWellFormed := by
  rw [scan_eq] at h
  obtain ⟨⟨line, i⟩, hmem, ha⟩ := List.mem_filterMap.mp h
  have hline := not_mem_physicalLine (List.mem_zipIdx_iff_getElem?.mp hmem)
  unfold annotationOf at ha
  split at ha
  · next before word rest hfirst =>
    split_ifs at ha
    obtain ⟨hs, hread, -, -⟩ := firstTag_eq_some hfirst
    have hsuffix : word ++ rest <:+ line := ⟨before, hs.symm⟩
    exact Annotation.isWellFormed_of ha (Tag.trim_ne_nil hread hsuffix) hline
      ((List.suffix_append word rest).trans hsuffix)
  · simp at ha

theorem Comment.isWellFormed_of_mem_annotations {c : Comment} {a : Annotation}
    (h : a ∈ c.annotations) : a.IsWellFormed := by
  obtain ⟨i, line, hline, hann⟩ := exists_of_mem_annotations h
  obtain ⟨-, -, hne⟩ := annotationOf_eq_some hann
  obtain ⟨word, rest, hread, hof⟩ := exists_of_annotationOf hann
  obtain ⟨d, hstars, -, -⟩ := exists_dropStars (trim line)
  obtain ⟨hword, -⟩ := Tag.of_readWhole hread
  have hfeed : '\n' ∉ trim line := fun hc => not_mem_physicalLine hline (mem_of_mem_trim hc)
  rw [← trim_trim line] at hof hne
  refine Annotation.isWellFormed_of hof hne hfeed ⟨d ++ word, ?_⟩
  rw [List.append_assoc, ← hword, ← hstars]

/-- **Annotations are well formed**, whether a text is scanned line by line or is a comment. -/
theorem Annotation.isWellFormed_of_mem :
    (∀ content, ∀ a ∈ LineScan.scan content, a.IsWellFormed) ∧
      ∀ c : Comment, ∀ a ∈ c.annotations, a.IsWellFormed :=
  ⟨fun _ _ => LineScan.isWellFormed_of_mem_scan, fun _ _ => Comment.isWellFormed_of_mem_annotations⟩

/-- A line with a part that is a bare name, a part with blanks around its colon, and a dropped pair;
a comment with an inline token. -/
theorem Annotation.isWellFormed_of_mem_mixed :
    let a : Annotation := ⟨.todo, some 2, "x, y".toList,
      "# TODO(bob lee, due : 1, :2): x, y".toList,
      some (.ofList [("assignee".toList, "bob lee".toList), ("due".toList, "1".toList)])⟩
    let b : Annotation := ⟨.hack, some 8, "z".toList, "* hack - k:v,w: z".toList,
      some (.ofList [("k".toList, "v".toList)])⟩
    let content := "x\n  # TODO(bob lee, due : 1, :2): x, y \r\n".toList
    let c : Comment := ⟨"\n * hack - k:v,w: z\n".toList, 7⟩
    a ∈ LineScan.scan content ∧ a.IsWellFormed ∧ b ∈ c.annotations ∧ b.IsWellFormed := by
  intro a b content c
  have ha : a ∈ LineScan.scan content := by decide +kernel
  have hb : b ∈ c.annotations := by decide +kernel
  exact ⟨ha, Annotation.isWellFormed_of_mem.1 content a ha, hb,
    Annotation.isWellFormed_of_mem.2 c b hb⟩

end ActionItems
