import Mathlib.Data.List.Chain
import ActionItems.Metadata
import ActionItems.Proofs.Cutting

/-! # Layouts of metadata in parentheses

Metadata in parentheses is laid out as words, `@name` or `key:value`, with gaps of commas, bars and
blanks between them. A `Word` and a `Gap` are what may be written, and `layout` writes them. How the
gaps are chosen does not matter: `parse_layout` reads every layout as the map of its words, from
left to right, and the message behind it.

The reader cuts the text into parts first. A gap of one blank does not cut, so a part is a layout
with such gaps only, and its characters follow one another as `Joined` says: no two blanks, and no
blank beside a colon. Such a text is neither cut (`IsPart.parts_append`) nor closed up
(`IsPart.tightenColons_eq`), and its words are those it was written with (`addPart_layout`). All
other gaps cut, and leave at most blanks around the parts on their two sides
(`IsPart.readParts_append_gap`). -/

namespace ActionItems

open Text

/-! ### The map of a list of pairs -/

namespace Metadata

theorem lookup_cons_eq_if (k : Text) (e : Text × Text) (l : List (Text × Text)) :
    (e :: l).lookup k = if k = e.1 then some e.2 else l.lookup k := by
  obtain ⟨a, b⟩ := e
  rw [List.lookup_cons]
  by_cases h : k = a
  · rw [if_pos h, beq_iff_eq.mpr h]
  · rw [if_neg h, beq_eq_false_iff_ne.mpr h]

theorem lookup_place (k v k' : Text) (l : List (Text × Text)) :
    (place Prod.fst (k, v) l).lookup k' = if k' = k then some v else l.lookup k' := by
  induction l with
  | nil => rw [place, lookup_cons_eq_if]
  | cons e l ih =>
    unfold place
    split_ifs <;> simp only [lookup_cons_eq_if] <;> grind

theorem get?_insert (k v k' : Text) (m : Metadata) :
    (m.insert k v).get? k' = if k' = k then some v else m.get? k' :=
  lookup_place k v k' m.entries

/-- The last pair of a key gives its value. -/
theorem get?_ofList (k : Text) (l : List (Text × Text)) :
    (ofList l).get? k = l.reverse.lookup k := by
  induction l using List.reverseRecOn with
  | nil => rfl
  | append_singleton l e ih =>
    have hstep : ofList (l ++ [e]) = (ofList l).insert e.1 e.2 := by simp [ofList]
    rw [hstep, get?_insert, ih, List.reverse_append, List.reverse_singleton,
      List.singleton_append, lookup_cons_eq_if]

end Metadata

namespace Tail

open Metadata

/-! ### Words and gaps -/

/-- The characters that a word may hold: they neither separate words nor close the parentheses. -/
def isInnerChar (c : Char) : Bool := !(isBlank c || isPartMark c || c == ')')

/-- A word of metadata in parentheses: a handle, or a key with its value. -/
inductive Word
  | handle (name : Text) (nonempty : name ≠ []) (chars : name.all isHandleChar)
  | pair (key value : Text) (key_nonempty : key ≠ []) (value_nonempty : value ≠ [])
      (key_chars : key.all fun c => isInnerChar c && c != ':') (value_chars : value.all isInnerChar)
      (value_end : value.getLast? ≠ some ':')

/-- What may stand between two words. -/
structure Gap where
  text : Text
  nonempty : text ≠ []
  chars : text.all fun c => isPartMark c || isBlank c

/-- A word as it is written. -/
def Word.spell : Word → Text
  | .handle name .. => '@' :: name
  | .pair key value .. => key ++ ':' :: value

/-- What a word says. -/
def Word.entry : Word → Text × Text
  | .handle name .. => (assigneeKey, name)
  | .pair key value .. => (key, value)

/-- Words behind a first one, each behind its gap. -/
def follow (ws : List (Gap × Word)) : Text := ws.flatMap fun x => x.1.text ++ x.2.spell

/-- A word and those that follow it. -/
def layout (w : Word) (ws : List (Gap × Word)) : Text := w.spell ++ follow ws

/-- The message behind metadata: trimmed, and without one leading `:` or `-`. -/
def message (rest : Text) : Text :=
  let s := trim rest
  if s.head? = some ':' ∨ s.head? = some '-' then trim (s.drop 1) else s

theorem toNat_of_isHandleChar {c : Char} (h : isHandleChar c = true) :
    45 ≤ c.toNat ∧ c.toNat ≤ 122 ∧ c.toNat ≠ 58 := by
  have hrange : (decide (65 ≤ c.val ∧ c.val ≤ 90) ||
    (decide (97 ≤ c.val) && decide (c.val ≤ 122)) ||
      (decide (48 ≤ c.val) && decide (c.val ≤ 57)) || c == '_' || c == '.' || c == '-') = true := h
  simp only [Bool.or_eq_true, Bool.and_eq_true, decide_eq_true_eq, beq_iff_eq,
    UInt32.le_iff_toNat_le] at hrange
  have hval : c.val.toNat = c.toNat := rfl
  simp only [hval, UInt32.reduceToNat] at hrange
  rcases hrange with ((((⟨hlo, hhi⟩ | ⟨hlo, hhi⟩) | ⟨hlo, hhi⟩) | rfl) | rfl) | rfl
  · omega
  · omega
  · omega
  all_goals decide

theorem isInnerChar_iff {c : Char} :
    isInnerChar c = true ↔ isBlank c = false ∧ isPartMark c = false ∧ (c == ')') = false := by
  simp only [isInnerChar, Bool.not_eq_true', Bool.or_eq_false_iff, and_assoc]

theorem isInnerChar_of_handle {c : Char} (h : isHandleChar c = true) :
    isInnerChar c = true ∧ c ≠ ':' := by
  obtain ⟨hlo, hhi, hne⟩ := toNat_of_isHandleChar h
  have hblank : isBlank c = false := by
    simp [isBlank]
    omega
  have hmarks : c ≠ ',' ∧ c ≠ '|' ∧ c ≠ ')' := by
    refine ⟨?_, ?_, ?_⟩ <;> rintro rfl <;> simp at hlo hhi
  refine ⟨isInnerChar_iff.mpr ⟨hblank, ?_, ?_⟩, ?_⟩
  · simp [isPartMark, hmarks]
  · simp [hmarks]
  · rintro rfl
    exact hne rfl

theorem not_mark_of_blank {c : Char} (h : isBlank c = true) : isPartMark c = false := by
  rw [isPartMark, Bool.or_eq_false_iff, beq_eq_false_iff_ne, beq_eq_false_iff_ne]
  constructor <;> rintro rfl <;> revert h <;> decide

theorem Gap.separates (g : Gap) : ∀ c ∈ g.text, isPartMark c = true ∨ isBlank c = true := by
  simpa only [List.all_eq_true, Bool.or_eq_true] using g.chars

/-! ### Pairs -/

theorem inner_of_key {key : Text} (h : key.all fun c => isInnerChar c && c != ':') :
    ∀ c ∈ key, isInnerChar c = true ∧ c ≠ ':' := by
  simpa only [List.all_eq_true, Bool.and_eq_true, bne_iff_ne] using h

section Pair
variable {key value : Text} (key_chars : key.all fun c => isInnerChar c && c != ':')
include key_chars

theorem splitOnce_pair (value : Text) :
    splitOnce (· == ':') (key ++ ':' :: value) = some (key, value) :=
  splitOnce_append_cons (fun c hc => beq_eq_false_iff_ne.mpr (inner_of_key key_chars c hc).2)
    (by decide) value

variable (value_chars : value.all isInnerChar)
include value_chars

theorem inner_pair : ∀ c ∈ key ++ ':' :: value, isInnerChar c = true := by
  intro c hc
  rcases List.mem_append.mp hc with hc | hc
  · exact (inner_of_key key_chars c hc).1
  · rcases List.mem_cons.mp hc with rfl | hc
    · decide
    · exact List.all_eq_true.mp value_chars c hc

theorem addPair_pair (key_nonempty : key ≠ []) (value_nonempty : value ≠ []) (m : Metadata) :
    addPair key value m = m.insert key value := by
  have hkey : trim key = key :=
    trim_of_forall_not fun c hc => (isInnerChar_iff.mp (inner_of_key key_chars c hc).1).1
  have hvalue : trim value = value :=
    trim_of_forall_not fun c hc => (isInnerChar_iff.mp (List.all_eq_true.mp value_chars c hc)).1
  rw [addPair, hkey, hvalue, if_neg (by simp [key_nonempty, value_nonempty])]

end Pair

namespace Word

theorem inner (w : Word) : ∀ c ∈ w.spell, isInnerChar c = true := by
  cases w with
  | handle name _ chars =>
    intro c hc
    rcases List.mem_cons.mp hc with rfl | hc
    · decide
    · exact (isInnerChar_of_handle (List.all_eq_true.mp chars c hc)).1
  | pair key value _ _ key_chars value_chars _ => exact inner_pair key_chars value_chars

theorem exists_first (w : Word) : ∃ c s, w.spell = c :: s ∧ c ≠ ':' := by
  cases w with
  | handle name => exact ⟨'@', name, rfl, by decide⟩
  | pair key value key_nonempty _ key_chars =>
    obtain ⟨c, s, rfl⟩ := List.exists_cons_of_ne_nil key_nonempty
    exact ⟨c, s ++ ':' :: value, rfl, (inner_of_key key_chars c (List.mem_cons_self ..)).2⟩

theorem exists_last (w : Word) : ∃ s c, w.spell = s ++ [c] ∧ c ≠ ':' := by
  cases w with
  | handle name nonempty chars =>
    have hname := List.dropLast_append_getLast nonempty
    refine ⟨'@' :: name.dropLast, name.getLast nonempty, ?_,
      (isInnerChar_of_handle (List.all_eq_true.mp chars _ (List.getLast_mem nonempty))).2⟩
    rw [spell, List.cons_append, hname]
  | pair key value _ value_nonempty _ _ value_end =>
    have hvalue := List.dropLast_append_getLast value_nonempty
    refine ⟨key ++ ':' :: value.dropLast, value.getLast value_nonempty, ?_, fun h => value_end ?_⟩
    · rw [spell, List.append_assoc, List.cons_append, hvalue]
    · rw [List.getLast?_eq_some_getLast value_nonempty, h]

theorem handle?_handle {name : Text} (nonempty : name ≠ []) (chars : name.all isHandleChar) :
    handle? ('@' :: name) = some name := by
  simp only [handle?]
  rw [if_pos (by simpa [nonempty] using chars)]

theorem handle?_of_colon {s : Text} (h : ':' ∈ s) : handle? s = none := by
  unfold handle?
  split
  · rw [if_neg]
    intro hall
    simp only [Bool.and_eq_true, List.all_eq_true] at hall
    exact absurd (hall.2 ':' (by simpa using h)) (by decide)
  · rfl

theorem isWordLike_spell (w : Word) : isWordLike w.spell = true := by
  cases w with
  | handle name nonempty chars => simp [isWordLike, spell, handle?_handle nonempty chars]
  | pair key value => simp [isWordLike, spell]

/-- A word says what it is written for. -/
theorem addWord_spell (m : Metadata) (w : Word) :
    addWord m w.spell = m.insert w.entry.1 w.entry.2 := by
  cases w with
  | handle name nonempty chars =>
    rw [spell, addWord, handle?_handle nonempty chars]
    rfl
  | pair key value key_nonempty value_nonempty key_chars value_chars =>
    rw [spell, addWord, handle?_of_colon (by simp)]
    simp only [splitOnce_pair key_chars,
      addPair_pair key_chars value_chars key_nonempty value_nonempty]
    rfl

end Word

/-! ### The text of one part -/

/-- Characters that follow one another in a part: no two blanks, and no blank beside a colon. -/
def Joined (c d : Char) : Prop :=
  (isBlank c = true → isBlank d = false ∧ d ≠ ':') ∧ (isBlank d = true → c ≠ ':')

/-- A text that is read as one part, with no blank and no colon at its ends. -/
structure IsPart (s : Text) : Prop where
  joined : s.IsChain Joined
  marks : ∀ c ∈ s, isPartMark c = false
  first : ∃ c t, s = c :: t ∧ isBlank c = false ∧ c ≠ ':'
  last : ∃ t c, s = t ++ [c] ∧ isBlank c = false ∧ c ≠ ':'

theorem isPart_spell (w : Word) : IsPart w.spell where
  joined := by
    refine List.Pairwise.isChain (List.pairwise_of_forall_mem_list fun c hc d hd => ?_)
    have hc' := (isInnerChar_iff.mp (w.inner c hc)).1
    have hd' := (isInnerChar_iff.mp (w.inner d hd)).1
    exact ⟨by simp [hc'], by simp [hd']⟩
  marks c hc := (isInnerChar_iff.mp (w.inner c hc)).2.1
  first := by
    obtain ⟨c, s, hs, hc⟩ := w.exists_first
    exact ⟨c, s, hs, (isInnerChar_iff.mp (w.inner c (by simp [hs]))).1, hc⟩
  last := by
    obtain ⟨s, c, hs, hc⟩ := w.exists_last
    exact ⟨s, c, hs, (isInnerChar_iff.mp (w.inner c (by simp [hs]))).1, hc⟩

/-- One blank between two texts of a part keeps them in one part. -/
theorem IsPart.append {s t : Text} (hs : IsPart s) {b : Char} (hb : isBlank b = true)
    (ht : IsPart t) : IsPart (s ++ b :: t) where
  joined := by
    obtain ⟨s', c, rfl, hc, hc'⟩ := hs.last
    obtain ⟨d, t', rfl, hd, hd'⟩ := ht.first
    refine List.isChain_append.mpr ⟨hs.joined, List.isChain_cons_cons.mpr ⟨?_, ht.joined⟩, ?_⟩
    · exact ⟨fun _ => ⟨hd, hd'⟩, by simp [hd]⟩
    · intro x hx y hy
      simp only [List.getLast?_append, List.getLast?_singleton, Option.some_or, Option.mem_def,
        Option.some.injEq, List.head?_cons] at hx hy
      subst hx hy
      exact ⟨by simp [hc], fun _ => hc'⟩
  marks c hc := by
    rcases List.mem_append.mp hc with hc | hc
    · exact hs.marks c hc
    · rcases List.mem_cons.mp hc with rfl | hc
      · exact not_mark_of_blank hb
      · exact ht.marks c hc
  first := by
    obtain ⟨c, s', rfl, hc⟩ := hs.first
    exact ⟨c, s' ++ b :: t, rfl, hc⟩
  last := by
    obtain ⟨t', c, rfl, hc⟩ := ht.last
    exact ⟨s ++ b :: t', c, by simp, hc⟩

theorem IsPart.trim_eq {s : Text} (h : IsPart s) : trim s = s := by
  obtain ⟨c, s', rfl, hc, -⟩ := h.first
  obtain ⟨t, d, ht, hd, -⟩ := h.last
  rw [trim, trimStart_of_head hc, ht, trimEnd_append_cons hd]
  rfl

/-- Characters that are not closed up when they follow one another: no blank beside a colon. -/
def Tight (c d : Char) : Prop := (isBlank c = true → d ≠ ':') ∧ (isBlank d = true → c ≠ ':')

theorem foldr_closeUpStep {s : Text} (h : s.IsChain Tight) : s.foldr closeUpStep [] = s := by
  induction s with
  | nil => rfl
  | cons c s ih =>
    rw [List.foldr_cons, ih h.tail, closeUpStep, if_neg]
    intro hc
    simp only [Bool.and_eq_true, beq_iff_eq] at hc
    obtain ⟨t, rfl⟩ := List.head?_eq_some_iff.mp hc.2
    exact (List.isChain_cons_cons.mp h).1.1 hc.1 rfl

theorem dropAfterColon_eq_self {s : Text} (h : s.IsChain Tight) (afterColon : Bool)
    (hhead : afterColon = true → ∀ c ∈ s.head?, isBlank c = false) :
    dropAfterColon afterColon s = s := by
  induction s generalizing afterColon with
  | nil => rfl
  | cons c s ih =>
    have hkeep : ¬ (afterColon && isBlank c) = true := by
      intro hc
      simp only [Bool.and_eq_true] at hc
      simp [hhead hc.1 c rfl] at hc
    rw [dropAfterColon, if_neg hkeep, ih h.tail]
    intro hcolon d hd
    obtain ⟨t, rfl⟩ := List.head?_eq_some_iff.mp hd
    by_contra hblank
    exact (List.isChain_cons_cons.mp h).1.2 (by simpa using hblank) (by simpa using hcolon)

theorem tightenColons_of_isChain {s : Text} (h : s.IsChain Tight) : tightenColons s = s := by
  rw [tightenColons, foldr_closeUpStep h, dropAfterColon_eq_self h]
  simp

theorem IsPart.tightenColons_eq {s : Text} (h : IsPart s) : tightenColons s = s :=
  tightenColons_of_isChain (h.joined.imp fun _ _ hjoin => ⟨fun hc => (hjoin.1 hc).2, hjoin.2⟩)

/-! ### Cutting into parts -/

theorem parts_ne_nil (s : Text) : parts s ≠ [] := by
  fun_cases parts s <;> simp_all

theorem parts_mark {c : Char} (hc : isPartMark c = true) (s : Text) :
    parts (c :: s) = [] :: parts s := by
  cases s <;> simp [parts, hc]

theorem parts_blanks {c d : Char} (hc : isBlank c = true) (hd : isBlank d = true) (s : Text) :
    parts (c :: d :: s) = [] :: parts (d :: s) := by
  simp [parts, hc, hd]

/-- A character that does not cut goes to the front of the first part. -/
theorem parts_keep {c : Char} (hc : isPartMark c = false) {s : Text}
    (hs : isBlank c = true → ∀ d ∈ s.head?, isBlank d = false) :
    parts (c :: s) = (parts s).modifyHead (c :: ·) := by
  cases s with
  | nil => simp [parts, hc]
  | cons d s =>
    have hcut : ¬ (isPartMark c || (isBlank c && isBlank d)) = true := by
      intro h
      simp only [hc, Bool.false_or, Bool.and_eq_true] at h
      simp [hs h.1 d rfl] at h
    obtain ⟨a, r, hparts⟩ := List.exists_cons_of_ne_nil (parts_ne_nil (d :: s))
    rw [parts, if_neg hcut, hparts]
    rfl

theorem IsPart.parts_append {s : Text} (h : IsPart s) (t : Text) :
    parts (s ++ t) = (parts t).modifyHead (s ++ ·) := by
  obtain ⟨s', c, rfl, hc, -⟩ := h.last
  obtain ⟨joined, marks, -, -⟩ := h
  -- the last character is no blank, so what follows cannot cut there
  induction s' with
  | nil => exact parts_keep (marks c (by simp)) (by simp [hc])
  | cons d s' ih =>
    have hkeep : isBlank d = true → ∀ e ∈ (s' ++ [c] ++ t).head?, isBlank e = false := by
      intro hd e he
      cases s' with
      | nil =>
        obtain rfl : c = e := by simpa using he
        exact hc
      | cons e' s' =>
        obtain rfl : e' = e := by simpa using he
        exact ((List.isChain_cons_cons.mp joined).1.1 hd).1
    rw [List.cons_append, List.cons_append, parts_keep (marks d (by simp)) hkeep,
      ih joined.tail fun x hx => marks x (List.mem_cons_of_mem _ hx), List.modifyHead_modifyHead]
    rfl

/-- Reads a text into a map, part by part. -/
def readParts (m : Metadata) (s : Text) : Metadata := (parts s).foldl addPart m

theorem addPart_nil (m : Metadata) : addPart m [] = m := rfl

theorem addPart_congr {s t : Text} (h : trim s = trim t) (m : Metadata) :
    addPart m s = addPart m t := by
  rw [addPart, addPart, h]

theorem readParts_mark (m : Metadata) {c : Char} (hc : isPartMark c = true) (s : Text) :
    readParts m (c :: s) = readParts m s := by
  rw [readParts, parts_mark hc, List.foldl_cons, addPart_nil, readParts]

theorem readParts_blank (m : Metadata) {c : Char} (hc : isBlank c = true) (s : Text) :
    readParts m (c :: s) = readParts m s := by
  by_cases hs : ∀ d ∈ s.head?, isBlank d = false
  · obtain ⟨a, r, ha⟩ := List.exists_cons_of_ne_nil (parts_ne_nil s)
    have htrim : trim (c :: a) = trim a := by
      rw [trim, trim, ← List.singleton_append, trimStart_append_of_blank (by simpa using hc)]
    rw [readParts, readParts, parts_keep (not_mark_of_blank hc) fun _ => hs, ha]
    simp only [List.modifyHead_cons, List.foldl_cons, addPart_congr htrim]
  · push Not at hs
    obtain ⟨d, hd, hblank⟩ := hs
    obtain ⟨t, rfl⟩ := List.head?_eq_some_iff.mp hd
    rw [readParts, parts_blanks hc (by simpa using hblank), List.foldl_cons, addPart_nil, readParts]

/-- A gap in front of a text says nothing. -/
theorem readParts_append_of_gap (m : Metadata) {g : Text}
    (hg : ∀ c ∈ g, isPartMark c = true ∨ isBlank c = true)
    (s : Text) : readParts m (g ++ s) = readParts m s := by
  induction g with
  | nil => rfl
  | cons c g ih =>
    rw [List.cons_append]
    rcases hg c (List.mem_cons_self ..) with hc | hc
    · rw [readParts_mark m hc, ih fun x hx => hg x (List.mem_cons_of_mem _ hx)]
    · rw [readParts_blank m hc, ih fun x hx => hg x (List.mem_cons_of_mem _ hx)]

theorem IsPart.readParts_eq {s : Text} (h : IsPart s) (m : Metadata) :
    readParts m s = addPart m s := by
  have := h.parts_append []
  rw [List.append_nil] at this
  rw [readParts, this]
  simp [parts]

/-- A gap of one blank. -/
def Gap.IsSingle (g : Gap) : Prop := ∃ b, g.text = [b] ∧ isBlank b = true

/-- Every gap but a single blank ends a part. -/
theorem IsPart.readParts_append_gap {s : Text} (h : IsPart s) (m : Metadata) {g : Gap}
    (hg : ¬ g.IsSingle) (t : Text) :
    readParts m (s ++ (g.text ++ t)) = readParts (addPart m s) t := by
  have hchars := g.separates
  obtain ⟨text, nonempty, chars⟩ := g
  obtain ⟨c, g', rfl⟩ := List.exists_cons_of_ne_nil nonempty
  have hrest : ∀ x ∈ g', isPartMark x = true ∨ isBlank x = true :=
    fun x hx => hchars x (List.mem_cons_of_mem _ hx)
  rcases hchars c (List.mem_cons_self ..) with hc | hc
  · rw [readParts, h.parts_append, List.cons_append, parts_mark hc]
    simp only [List.modifyHead_cons, List.append_nil, List.foldl_cons]
    exact readParts_append_of_gap _ hrest t
  · cases g' with
    | nil => exact absurd ⟨c, rfl, hc⟩ hg
    | cons d g' =>
      rcases hrest d (List.mem_cons_self ..) with hd | hd
      · have htrim : trim (s ++ [c]) = trim s := trim_append_of_blank (by simpa using hc) s
        have hkeep : isBlank c = true → ∀ e ∈ (d :: (g' ++ t)).head?, isBlank e = false := by
          intro _ e he
          obtain rfl : d = e := by simpa using he
          by_contra hb
          simp [not_mark_of_blank (by simpa using hb)] at hd
        rw [readParts, h.parts_append, List.cons_append, List.cons_append,
          parts_keep (not_mark_of_blank hc) hkeep, parts_mark hd]
        simp only [List.modifyHead_cons, List.foldl_cons, addPart_congr htrim]
        exact readParts_append_of_gap _ (fun x hx => hrest x (List.mem_cons_of_mem _ hx)) t
      · rw [readParts, h.parts_append, List.cons_append, List.cons_append, parts_blanks hc hd]
        simp only [List.modifyHead_cons, List.append_nil, List.foldl_cons]
        exact readParts_append_of_gap _ hrest t

/-! ### Layouts -/

theorem layout_cons (w : Word) (x : Gap × Word) (ws : List (Gap × Word)) :
    layout w (x :: ws) = w.spell ++ (x.1.text ++ layout x.2 ws) := by
  simp [layout, follow]

theorem layout_append (w : Word) (gs ws : List (Gap × Word)) :
    layout w (gs ++ ws) = layout w gs ++ follow ws := by
  simp [layout, follow]

theorem isPart_layout (w : Word) {gs : List (Gap × Word)} (h : ∀ x ∈ gs, x.1.IsSingle) :
    IsPart (layout w gs) := by
  induction gs generalizing w with
  | nil => simpa [layout, follow] using isPart_spell w
  | cons x gs ih =>
    obtain ⟨b, hx, hb⟩ := h x (List.mem_cons_self ..)
    rw [layout_cons, hx]
    exact (isPart_spell w).append hb (ih x.2 fun y hy => h y (List.mem_cons_of_mem _ hy))

theorem words_spell (w : Word) : words w.spell = [w.spell] := by
  obtain ⟨c, s, hs, -⟩ := w.exists_first
  exact words_of_forall_not (by simp [hs]) fun c hc => (isInnerChar_iff.mp (w.inner c hc)).1

theorem words_layout (w : Word) {gs : List (Gap × Word)} (h : ∀ x ∈ gs, x.1.IsSingle) :
    words (layout w gs) = (w :: gs.map Prod.snd).map Word.spell := by
  induction gs generalizing w with
  | nil => simpa [layout, follow] using words_spell w
  | cons x gs ih =>
    obtain ⟨b, hx, hb⟩ := h x (List.mem_cons_self ..)
    rw [layout_cons, hx, List.singleton_append, words_append_cons hb, words_spell,
      ih x.2 fun y hy => h y (List.mem_cons_of_mem _ hy)]
    rfl

/-- The map after some words. -/
def addWords (m : Metadata) (ws : List Word) : Metadata :=
  ws.foldl (fun m w => m.insert w.entry.1 w.entry.2) m

/-- A part gives the words it is written with. -/
theorem addPart_layout (m : Metadata) (w : Word) {gs : List (Gap × Word)}
    (h : ∀ x ∈ gs, x.1.IsSingle) : addPart m (layout w gs) = addWords m (w :: gs.map Prod.snd) := by
  have hpart := isPart_layout w h
  have hne : ¬ (layout w gs).isEmpty = true := by
    obtain ⟨c, s, hs, -⟩ := hpart.first
    simp [hs]
  simp only [addPart, hpart.trim_eq, hpart.tightenColons_eq, words_layout w h, if_neg hne]
  cases gs with
  | nil => simp [layout, follow, Word.addWord_spell, addWords]
  | cons x gs =>
    rw [if_pos]
    · simp only [List.foldl_map, Word.addWord_spell, addWords]
    · simp [Word.isWordLike_spell]

/-- **Reading a layout.** The induction is on the words that are still to come; those before them
that stand in the same part are `gs`. -/
theorem readParts_layout (m : Metadata) (w : Word) (gs : List (Gap × Word))
    (h : ∀ x ∈ gs, x.1.IsSingle) (ws : List (Gap × Word)) :
    readParts m (layout w (gs ++ ws)) = addWords m (w :: (gs ++ ws).map Prod.snd) := by
  induction ws generalizing m w gs with
  | nil => rw [List.append_nil, (isPart_layout w h).readParts_eq, addPart_layout m w h]
  | cons x ws ih =>
    by_cases hx : x.1.IsSingle
    · -- the next word stands in the same part
      have h' : ∀ y ∈ gs ++ [x], y.1.IsSingle := by
        intro y hy
        rcases List.mem_append.mp hy with hy | hy
        · exact h y hy
        · rwa [List.mem_singleton.mp hy]
      have := ih m w _ h'
      rwa [List.append_assoc, List.singleton_append] at this
    · have hfollow : follow (x :: ws) = x.1.text ++ layout x.2 ([] ++ ws) := by
        simp [follow, layout]
      rw [layout_append, hfollow, (isPart_layout w h).readParts_append_gap m hx,
        addPart_layout m w h, ih _ x.2 [] (by simp)]
      simp [addWords]

theorem not_close_of_mem_layout (w : Word) (ws : List (Gap × Word)) :
    ∀ c ∈ layout w ws, (c == ')') = false := by
  induction ws generalizing w with
  | nil =>
    intro c hc
    exact (isInnerChar_iff.mp (w.inner c (by simpa [layout, follow] using hc))).2.2
  | cons x ws ih =>
    intro c hc
    rw [layout_cons] at hc
    rcases List.mem_append.mp hc with hc | hc
    · exact (isInnerChar_iff.mp (w.inner c hc)).2.2
    rcases List.mem_append.mp hc with hc | hc
    · rw [beq_eq_false_iff_ne]
      rintro rfl
      exact absurd (x.1.separates _ hc) (by decide)
    · exact ih x.2 c hc

theorem trim_dropSeparator (rest : Text) : trim (dropSeparator (trimEnd rest)) = message rest := by
  rw [dropSeparator, trimStart_trimEnd]
  unfold message
  split
  · next s hs => simp [hs]
  · next s hs => simp [hs]
  · next hcolon hdash =>
    rw [if_neg, trim_trim]
    rintro (h | h)
    · obtain ⟨s, hs⟩ := List.head?_eq_some_iff.mp h
      exact hcolon s hs
    · obtain ⟨s, hs⟩ := List.head?_eq_some_iff.mp h
      exact hdash s hs

theorem entries_addWords_ne_nil (m : Metadata) (w : Word) (ws : List Word) :
    (addWords m (w :: ws)).entries ≠ [] := by
  induction ws generalizing m w with
  | nil => exact place_ne_nil _ _ m.entries
  | cons w' ws ih => exact ih _ w'

/-- **Layouts of metadata.** Words with any gaps between them, in parentheses, are read as the map
of their entries, where a later word overrides an earlier one, and the text behind them is the
message. -/
theorem parse_layout (w : Word) (ws : List (Gap × Word)) (rest : Text) :
    parse ('(' :: layout w ws ++ ')' :: rest) =
        ⟨message rest, some (ofList ((w :: ws.map Prod.snd).map Word.entry))⟩ ∧
      ∀ k, (ofList ((w :: ws.map Prod.snd).map Word.entry)).get? k =
        ((w :: ws.map Prod.snd).map Word.entry).reverse.lookup k := by
  refine ⟨?_, fun k => get?_ofList k _⟩
  have htrim : trim ('(' :: layout w ws ++ ')' :: rest) =
      '(' :: (layout w ws ++ ')' :: trimEnd rest) := by
    rw [trim, List.cons_append, trimStart_of_head (by decide), ← List.cons_append,
      trimEnd_append_cons (by decide), List.cons_append]
  have hinside : parenthesized? ('(' :: (layout w ws ++ ')' :: trimEnd rest)) =
      some (layout w ws, trimEnd rest) :=
    splitOnce_append_cons (not_close_of_mem_layout w ws) (by decide) _
  have hmap : (parts (layout w ws)).foldl addPart .empty = addWords .empty (w :: ws.map Prod.snd) :=
    readParts_layout .empty w [] (by simp) ws
  have hne := entries_addWords_ne_nil .empty w (ws.map Prod.snd)
  rw [parse, htrim]
  simp only [hinside, hmap, withMetadata, trim_dropSeparator]
  rw [if_neg (by simpa using hne), ofList, List.foldl_map]
  rfl

/-- Single blanks, double blanks, commas and bars, a key that is given twice, a colon in a value. -/
theorem parse_layout_mixed :
    parse "(@bob due:1, |prio:a:b  due:2)\t- fix  it ".toList =
        ⟨"fix  it".toList, some (ofList [("assignee".toList, "bob".toList),
          ("due".toList, "1".toList), ("prio".toList, "a:b".toList), ("due".toList, "2".toList)])⟩ ∧
      ∀ k, (ofList [("assignee".toList, "bob".toList), ("due".toList, "1".toList),
          ("prio".toList, "a:b".toList), ("due".toList, "2".toList)]).get? k =
        [("due".toList, "2".toList), ("prio".toList, "a:b".toList), ("due".toList, "1".toList),
          ("assignee".toList, "bob".toList)].lookup k :=
  parse_layout (.handle "bob".toList (by decide) (by decide))
    [(⟨" ".toList, by decide, by decide⟩, .pair "due".toList "1".toList (by decide) (by decide)
        (by decide) (by decide) (by decide)),
      (⟨", |".toList, by decide, by decide⟩, .pair "prio".toList "a:b".toList (by decide)
        (by decide) (by decide) (by decide) (by decide)),
      (⟨"  ".toList, by decide, by decide⟩, .pair "due".toList "2".toList (by decide) (by decide)
        (by decide) (by decide) (by decide))]
    "\t- fix  it ".toList

end Tail

end ActionItems
