import ActionItems.Report
import ActionItems.Proofs.AnnotationForm
import ActionItems.Proofs.InlineMetadata

/-! # Metadata as it is shown

A report shows the entries of an item's metadata as `key: value`, with commas between them and
without any quoting. For metadata in general that is ambiguous. But an entry that was read from the
tail of a tag was said by one word, and the word holds no comma, since commas separate parts and
inline pairs (`exists_says`); its key stands before the first colon of the word. So commas end the
entries that are shown and first colons end their keys (`IsLegible`, `eq_of_metadataText_eq`), and
the line of an item tells its metadata (`itemLine_eq_iff`). -/

namespace ActionItems

open Text

namespace Tail

open Metadata

/-! ### What a word says -/

/-- A word says an entry: a handle or a plain name gives the assignee, and a pair gives a key its
value. -/
inductive Says (w : Text) : Text × Text → Prop
  | handle {n : Text} (h : handle? w = some n) : Says w (assigneeKey, n)
  | pair {k v : Text} (spelt : w = k ++ ':' :: v) (first : ':' ∉ k) : Says w (trim k, trim v)
  | name : Says w (assigneeKey, w)

section Steps

variable {m : Metadata} {e : Text × Text}

theorem mem_addPair {k v : Text} (h : e ∈ (addPair k v m).entries) :
    e = (trim k, trim v) ∨ e ∈ m.entries := by
  unfold addPair at h
  split_ifs at h
  · exact Or.inr h
  · exact mem_place h

theorem mem_addPair_of_splitOnce {w k v : Text} (hcut : splitOnce (· == ':') w = some (k, v))
    (h : e ∈ (addPair k v m).entries) : Says w e ∨ e ∈ m.entries := by
  obtain ⟨hspelt, hfirst⟩ := splitOnce_colon_iff.mp hcut
  rcases mem_addPair h with rfl | h
  · exact Or.inl (.pair hspelt hfirst)
  · exact Or.inr h

theorem mem_addWord {w : Text} (h : e ∈ (addWord m w).entries) : Says w e ∨ e ∈ m.entries := by
  unfold addWord at h
  split at h
  · next n hn =>
    rcases mem_place h with rfl | h
    · exact Or.inl (.handle hn)
    · exact Or.inr h
  · split at h
    · next k v hcut => exact mem_addPair_of_splitOnce hcut h
    · rcases mem_place h with rfl | h
      · exact Or.inl .name
      · exact Or.inr h

theorem mem_applyInline {piece : Text} (h : e ∈ (applyInline m piece).entries) :
    Says piece e ∨ e ∈ m.entries := by
  unfold applyInline at h
  split at h
  · next k v hcut => exact mem_addPair_of_splitOnce hcut h
  · exact Or.inr h

/-- If one step adds only what its text says, a fold adds only what one of its texts says. -/
theorem mem_foldl {add : Metadata → Text → Metadata} {said : Text → Text × Text → Prop}
    {l : List Text}
    (h : e ∈ (l.foldl add m).entries)
    (step : ∀ m s e, e ∈ (add m s).entries → said s e ∨ e ∈ m.entries) :
    (∃ s ∈ l, said s e) ∨ e ∈ m.entries := by
  induction l generalizing m with
  | nil => exact Or.inr h
  | cons s l ih =>
    rcases ih h with ⟨t, ht, hsaid⟩ | hmem
    · exact Or.inl ⟨t, List.mem_cons_of_mem _ ht, hsaid⟩
    · rcases step m s e hmem with hsaid | hmem
      · exact Or.inl ⟨s, List.mem_cons_self, hsaid⟩
      · exact Or.inr hmem

/-- What a part adds is said by a word of its characters. -/
theorem mem_addPart {part : Text} (h : e ∈ (addPart m part).entries) :
    (∃ w, w ⊆ part ∧ Says w e) ∨ e ∈ m.entries := by
  have htight : tightenColons (trim part) ⊆ part := fun c hc =>
    mem_of_mem_trim ((tightenColons_sublist _).subset hc)
  unfold addPart at h
  split_ifs at h
  · exact Or.inr h
  dsimp only at h
  split_ifs at h
  · rcases mem_foldl h fun _ _ _ => mem_addWord with ⟨w, hw, hsays⟩ | h
    · exact Or.inl ⟨w, fun c hc => htight ((of_mem_words hw).2 c hc).1, hsays⟩
    · exact Or.inr h
  · rcases mem_addWord h with hsays | h
    · exact Or.inl ⟨_, htight, hsays⟩
    · exact Or.inr h

end Steps

/-- Metadata that was read has entries, and comes from parts or from inline pairs. -/
theorem metadata_cases {raw : Text} {m : Metadata} (h : (parse raw).metadata = some m) :
    m.entries ≠ [] ∧ ((∃ inside, m = (parts inside).foldl addPart .empty) ∨
      ∃ token, m = (splitAll (· == ',') token).foldl applyInline .empty) := by
  obtain ⟨inside, rest, -, hparse⟩ | ⟨token, rest, -, hparse⟩ | hparse := parse_cases raw <;>
    rw [hparse] at h
  · obtain ⟨rfl, hne⟩ := of_withMetadata h
    exact ⟨hne, Or.inl ⟨inside, rfl⟩⟩
  · obtain ⟨rfl, hne⟩ := of_withMetadata h
    exact ⟨hne, Or.inr ⟨token, rfl⟩⟩
  · cases h

/-- **Every entry of a tail's metadata** is said by a word without commas. -/
theorem exists_says {raw : Text} {m : Metadata} (h : (parse raw).metadata = some m)
    {e : Text × Text}
    (he : e ∈ m.entries) : ∃ w, ',' ∉ w ∧ Says w e := by
  have hempty : e ∉ Metadata.empty.entries := List.not_mem_nil
  obtain ⟨-, ⟨inside, rfl⟩ | ⟨token, rfl⟩⟩ := metadata_cases h
  · obtain ⟨part, hpart, w, hw, hsays⟩ :=
      (mem_foldl he fun _ _ _ => mem_addPart).resolve_right hempty
    refine ⟨w, fun hc => ?_, hsays⟩
    exact absurd (of_mem_parts hpart _ (hw hc)).2 (by decide)
  · obtain ⟨piece, hpiece, hsays⟩ :=
      (mem_foldl he fun _ _ _ => mem_applyInline).resolve_right hempty
    refine ⟨piece, fun hc => ?_, hsays⟩
    exact absurd (of_mem_splitAll hpiece _ hc).2 (by decide)

/-! ### Legible entries -/

/-- An entry whose bounds can be seen where entries stand side by side. -/
structure IsLegible (e : Text × Text) : Prop where
  key_comma : ',' ∉ e.1
  key_colon : ':' ∉ e.1
  value_comma : ',' ∉ e.2

theorem isLegible_assignee {v : Text} (hv : ',' ∉ v) : IsLegible (assigneeKey, v) := by
  have hcomma : ',' ∉ assigneeKey := by decide
  have hcolon : ':' ∉ assigneeKey := by decide
  exact ⟨hcomma, hcolon, hv⟩

theorem eq_of_handle? {w n : Text} (h : handle? w = some n) : w = '@' :: n := by
  unfold handle? at h
  split at h
  · split_ifs at h
    rw [Option.some.inj h]
  · cases h

theorem Says.isLegible {w : Text} {e : Text × Text} (h : Says w e) (hw : ',' ∉ w) :
    IsLegible e := by
  cases h with
  | handle hn =>
    rw [eq_of_handle? hn] at hw
    exact isLegible_assignee fun hc => hw (List.mem_cons_of_mem _ hc)
  | pair spelt first =>
    subst spelt
    refine ⟨fun hc => hw ?_, fun hc => first (mem_of_mem_trim hc), fun hc => hw ?_⟩
    · exact List.mem_append_left _ (mem_of_mem_trim hc)
    · exact List.mem_append_right _ (List.mem_cons_of_mem _ (mem_of_mem_trim hc))
  | name => exact isLegible_assignee hw

theorem legible_parse {raw : Text} {m : Metadata} (h : (parse raw).metadata = some m) :
    m.entries ≠ [] ∧ ∀ e ∈ m.entries, IsLegible e := by
  refine ⟨(metadata_cases h).1, fun e he => ?_⟩
  obtain ⟨w, hw, hsays⟩ := exists_says h he
  exact hsays.isLegible hw

end Tail

namespace Report

open Tail

/-! ### Entries side by side -/

/-- An entry as it is shown. -/
def entryText (e : Text × Text) : Text := e.1 ++ ": ".toList ++ e.2

theorem metadataText_eq (m : Metadata) :
    metadataText m = " (".toList ++ join ", ".toList (m.entries.map entryText) ++ ")".toList := rfl

theorem comma_notMem_entryText {e : Text × Text} (h : IsLegible e) : ',' ∉ entryText e := by
  unfold entryText
  rw [List.mem_append, List.mem_append]
  rintro ((hc | hc) | hc)
  · exact h.key_comma hc
  · exact absurd hc (by decide)
  · exact h.value_comma hc

theorem eq_of_entryText_eq {e e' : Text × Text} (h : IsLegible e) (h' : IsLegible e')
    (heq : entryText e = entryText e') : e = e' := by
  have hcolon : e.1 ++ ':' :: ' ' :: e.2 = e'.1 ++ ':' :: ' ' :: e'.2 := by
    simpa [entryText] using heq
  obtain ⟨hkey, hvalue⟩ := eq_of_first_colon h.key_colon h'.key_colon hcolon
  exact Prod.ext hkey (List.cons.inj hvalue).2

theorem eq_of_map_entryText_eq {l l' : List (Text × Text)} (h : ∀ e ∈ l, IsLegible e)
    (h' : ∀ e ∈ l', IsLegible e)
    (heq : l.map entryText = l'.map entryText) : l = l' := by
  induction l generalizing l' with
  | nil => exact (List.map_eq_nil_iff.mp heq.symm).symm
  | cons e l ih =>
    cases l' with
    | nil => cases heq
    | cons e' l' =>
      obtain ⟨hhead, htail⟩ := List.cons.inj heq
      rw [List.forall_mem_cons] at h h'
      rw [eq_of_entryText_eq h.1 h'.1 hhead, ih h.2 h'.2 htail]

theorem join_cons_cons (sep : Text) (c : Char) (q : Text) (qs : List Text) :
    join sep ((c :: q) :: qs) = c :: join sep (q :: qs) := by
  cases qs <;> rfl

/-- A comma and a space between texts, as commas between texts that begin with a space. -/
theorem join_comma_space (q : Text) (qs : List Text) :
    join ", ".toList (q :: qs) = join [','] (q :: qs.map (' ' :: ·)) := by
  induction qs generalizing q with
  | nil => rfl
  | cons a qs ih =>
    rw [List.map_cons, join, join, join_cons_cons, ih a, List.append_assoc, List.append_assoc]
    rfl

/-- Texts without commas are found again between commas. -/
theorem eq_of_join_eq {qs qs' : List Text} (hne : qs ≠ []) (hne' : qs' ≠ []) (h : ∀ q ∈ qs, ',' ∉ q)
    (h' : ∀ q ∈ qs', ',' ∉ q) (heq : join ", ".toList qs = join ", ".toList qs') : qs = qs' := by
  obtain ⟨q, qs, rfl⟩ := List.exists_cons_of_ne_nil hne
  obtain ⟨q', qs', rfl⟩ := List.exists_cons_of_ne_nil hne'
  have hcut : ∀ (a : Text) (as : List Text), (∀ x ∈ a :: as, ',' ∉ x) →
      splitAll (· == ',') (join ", ".toList (a :: as)) = a :: as.map (' ' :: ·) := by
    intro a as hcomma
    rw [join_comma_space]
    refine splitAll_join rfl (List.cons_ne_nil _ _) fun x hx c hc => ?_
    rw [beq_eq_false_iff_ne]
    rintro rfl
    rcases List.mem_cons.mp hx with rfl | hx
    · exact hcomma x List.mem_cons_self hc
    · obtain ⟨y, hy, rfl⟩ := List.mem_map.mp hx
      exact hcomma y (List.mem_cons_of_mem _ hy) ((List.mem_cons.mp hc).resolve_left (by decide))
  have hpieces : q :: qs.map (' ' :: ·) = q' :: qs'.map (' ' :: ·) := by
    rw [← hcut q qs h, ← hcut q' qs' h', heq]
  obtain ⟨rfl, hmap⟩ := List.cons.inj hpieces
  rw [List.map_injective_iff.mpr (fun _ _ hs => (List.cons.inj hs).2) hmap]

/-- **Legible metadata is told by its text.** -/
theorem eq_of_metadataText_eq {m m' : Metadata} (h : m.entries ≠ [] ∧ ∀ e ∈ m.entries, IsLegible e)
    (h' : m'.entries ≠ [] ∧ ∀ e ∈ m'.entries, IsLegible e)
    (heq : metadataText m = metadataText m') : m = m' := by
  have hcomma :
      ∀ l : List (Text × Text), (∀ e ∈ l, IsLegible e) → ∀ q ∈ l.map entryText, ',' ∉ q := by
    intro l hl q hq
    obtain ⟨e, he, rfl⟩ := List.mem_map.mp hq
    exact comma_notMem_entryText (hl e he)
  rw [metadataText_eq, metadataText_eq] at heq
  have hjoin := List.append_cancel_left (List.append_cancel_right heq)
  have hmap : m.entries.map entryText = m'.entries.map entryText :=
    eq_of_join_eq (by simpa using h.1) (by simpa using h'.1) (hcomma _ h.2) (hcomma _ h'.2) hjoin
  have hentries : m.entries = m'.entries := eq_of_map_entryText_eq h.2 h'.2 hmap
  cases m
  cases m'
  cases hentries
  rfl

/-! ### Lines of items -/

theorem metadataText_ne_nil (m : Metadata) : metadataText m ≠ [] := by
  rw [metadataText_eq]
  simp

/-- Lines with the same location and message differ in what is shown of the metadata. -/
theorem itemLine_eq_iff {f g : Finding} (hlocation : f.location = g.location)
    (htext : f.text = g.text) :
    itemLine f = itemLine g ↔
      (f.metadata.map metadataText).getD [] = (g.metadata.map metadataText).getD [] := by
  unfold itemLine
  rw [hlocation, htext]
  exact List.append_right_inj _

/-- **The line of an item tells its metadata**, for findings whose metadata was read from tails. -/
theorem itemLine_tells_metadata {f g : Finding} {raw raw' : Text}
    (hf : f.metadata = (parse raw).metadata)
    (hg : g.metadata = (parse raw').metadata) (hlocation : f.location = g.location)
    (htext : f.text = g.text) :
    itemLine f = itemLine g ↔ f.metadata = g.metadata := by
  rw [itemLine_eq_iff hlocation htext]
  refine ⟨fun hshown => ?_, fun h => by rw [h]⟩
  cases hm : f.metadata with
  | none =>
    cases hm' : g.metadata with
    | none => rfl
    | some m' =>
      rw [hm, hm'] at hshown
      exact absurd hshown.symm (metadataText_ne_nil m')
  | some m =>
    cases hm' : g.metadata with
    | none =>
      rw [hm, hm'] at hshown
      exact absurd hshown (metadataText_ne_nil m)
    | some m' =>
      rw [hm, hm'] at hshown
      have hlegible := legible_parse (hf.symm.trans hm)
      have hlegible' := legible_parse (hg.symm.trans hm')
      rw [eq_of_metadataText_eq hlegible hlegible' hshown]

-- Metadata that no tail gives may be shown as other metadata is.
example : metadataText (.ofList [("a".toList, "b, c: d".toList)]) =
    metadataText (.ofList [("a".toList, "b".toList), ("c".toList, "d".toList)]) := by decide

/-- The finding of a message at a place, with the metadata of a tail. -/
def itemOf (file : String) (line : Option LineNumber) (tail : String) : Finding :=
  { tag := .todo, file := file.toList, line, text := "x".toList, raw := [],
    metadata := (parse tail.toList).metadata }

/-- One location that is spelt by two files, and tails of both shapes: the same entries give the
same line, and other entries another one. -/
theorem itemLine_tells_metadata_shapes :
    (itemOf "a:3" none "(@bob, at: 10:30) x").location =
      (itemOf "a" (some 3) "at:10:30,assignee:bob x").location ∧
    itemLine (itemOf "a:3" none "(@bob, at: 10:30) x") =
      itemLine (itemOf "a" (some 3) "at:10:30,assignee:bob x") ∧
    itemLine (itemOf "a:3" none "(@bob, at: 10:30) x") ≠
      itemLine (itemOf "a" (some 3) "at:10:30,prio:bob x") := by
  have hsame : (itemOf "a:3" none "(@bob, at: 10:30) x").metadata =
      (itemOf "a" (some 3) "at:10:30,assignee:bob x").metadata := by decide
  have hother : (itemOf "a:3" none "(@bob, at: 10:30) x").metadata ≠
      (itemOf "a" (some 3) "at:10:30,prio:bob x").metadata := by decide
  have hplace : "a:3".toList = "a".toList ++ ':' :: ofNat (3 : LineNumber).toNat := by decide
  have hlocation (t t' : String) :
      (itemOf "a:3" none t).location = (itemOf "a" (some 3) t').location := hplace
  have htells (t t' : String) : itemLine (itemOf "a:3" none t) = itemLine (itemOf "a" (some 3) t') ↔
      (itemOf "a:3" none t).metadata = (itemOf "a" (some 3) t').metadata := by
    have hf : (itemOf "a:3" none t).metadata = (parse t.toList).metadata := rfl
    have hg : (itemOf "a" (some 3) t').metadata = (parse t'.toList).metadata := rfl
    exact itemLine_tells_metadata hf hg (hlocation t t') rfl
  exact ⟨hlocation _ _, (htells _ _).mpr hsame, fun h => hother ((htells _ _).mp h)⟩

end Report

end ActionItems
