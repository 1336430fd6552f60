import ActionItems.Proofs.MetadataLayout

/-! # Metadata in an inline token

Metadata may stand in front of a message as one token without blanks, `key:value,key:value message`.
The token is recognised by its first pair alone (`isInlineToken_iff`) and then read piece by piece,
between its commas; a piece without a colon, or with nothing on one side of its first colon, says
nothing (`IsVoid`).

* `parse_inline` and `parse_in_parentheses`: pairs with commas between them are read as the same map
  in a token and in parentheses. The pieces of the token are the parts of the text in parentheses,
  since there are no blanks in it (`parts_eq_splitAll`), and a pair is the same piece and part
  (`applyInline_spell`, `addPart_spell`).
* `applyInline_cases`: reading a piece puts in the value that it gives to a key (`Gives`), or
  nothing. So a token without metadata is one whose pieces all say nothing, and such tokens look
  like `key:,…` (`isVoidToken_iff`): they are cut off the message all the same. -/

namespace ActionItems

open Text

namespace Tail

open Metadata

/-! ### Pairs with commas between them -/

/-- A key with its value. -/
structure Pair where
  key : Text
  value : Text
  key_nonempty : key ≠ []
  value_nonempty : value ≠ []
  key_chars : key.all fun c => isInnerChar c && c != ':'
  value_chars : value.all isInnerChar

namespace Pair

/-- A pair as it is written. -/
def spell (p : Pair) : Text := p.key ++ ':' :: p.value

/-- What a pair says. -/
def entry (p : Pair) : Text × Text := (p.key, p.value)

theorem inner (p : Pair) : ∀ c ∈ p.spell, isInnerChar c = true :=
  inner_pair p.key_chars p.value_chars

theorem not_blank (p : Pair) : ∀ c ∈ p.spell, isBlank c = false :=
  fun c hc => (isInnerChar_iff.mp (p.inner c hc)).1

theorem not_mark (p : Pair) : ∀ c ∈ p.spell, isPartMark c = false :=
  fun c hc => (isInnerChar_iff.mp (p.inner c hc)).2.1

theorem applyInline_spell (m : Metadata) (p : Pair) :
    applyInline m p.spell = m.insert p.key p.value := by
  rw [applyInline, spell, splitOnce_pair p.key_chars]
  exact addPair_pair p.key_chars p.value_chars p.key_nonempty p.value_nonempty m

theorem addWord_spell (m : Metadata) (p : Pair) : addWord m p.spell = m.insert p.key p.value := by
  rw [addWord, spell, Word.handle?_of_colon (by simp), splitOnce_pair p.key_chars]
  exact addPair_pair p.key_chars p.value_chars p.key_nonempty p.value_nonempty m

/-- A pair alone in its part is that word. Its value may end with a colon, which no blank
follows. -/
theorem addPart_spell (m : Metadata) (p : Pair) : addPart m p.spell = m.insert p.key p.value := by
  have hne : p.spell ≠ [] := by simp [spell]
  have htrim : trim p.spell = p.spell := trim_of_forall_not p.not_blank
  have htight : tightenColons p.spell = p.spell := by
    refine tightenColons_of_isChain (List.Pairwise.isChain ?_)
    refine List.pairwise_of_forall_mem_list fun c hc d hd => ?_
    exact ⟨by simp [p.not_blank c hc], by simp [p.not_blank d hd]⟩
  have hwords : words p.spell = [p.spell] := words_of_forall_not hne p.not_blank
  simp only [addPart, htrim, htight, hwords]
  rw [if_neg (by simpa using hne), if_neg (by simp), addWord_spell]

end Pair

/-- Pairs as they are written, with commas between them. -/
def spellAll (ps : List Pair) : Text := join [','] (ps.map Pair.spell)

theorem of_mem_spellAll {ps : List Pair} {c : Char} (h : c ∈ spellAll ps) :
    isBlank c = false ∧ (c == ')') = false := by
  rcases mem_join h with hc | ⟨q, hq, hc⟩
  · obtain rfl : c = ',' := by simpa using hc
    decide
  · obtain ⟨p, -, rfl⟩ := List.mem_map.mp hq
    obtain ⟨hblank, -, hclose⟩ := isInnerChar_iff.mp (p.inner c hc)
    exact ⟨hblank, hclose⟩

/-- The pairs are found between the commas, also where a bar would cut. -/
theorem splitAll_spellAll {cuts : Char → Bool} (hcomma : cuts ',' = true)
    (hmark : ∀ c, cuts c = true → isPartMark c = true) {ps : List Pair} (hne : ps ≠ []) :
    splitAll cuts (spellAll ps) = ps.map Pair.spell := by
  refine splitAll_join hcomma (by simpa using hne) fun q hq c hc => ?_
  obtain ⟨p, -, rfl⟩ := List.mem_map.mp hq
  cases hcut : cuts c with
  | false => rfl
  | true => exact absurd (hmark c hcut) (by simp [p.not_mark c hc])

/-- Where there are no blanks, only marks cut. -/
theorem parts_eq_splitAll {s : Text} (h : ∀ c ∈ s, isBlank c = false) :
    parts s = splitAll isPartMark s := by
  induction s with
  | nil => rfl
  | cons c s ih =>
    have htail := ih fun d hd => h d (List.mem_cons_of_mem _ hd)
    by_cases hc : isPartMark c = true
    · rw [parts_mark hc, splitAll_cons_of_pos hc, htail]
    · obtain ⟨a, r, hs, hcs⟩ := exists_splitAll_cons_of_neg hc s
      have hkeep : isBlank c = true → ∀ d ∈ s.head?, isBlank d = false := by
        simp [h c (List.mem_cons_self ..)]
      rw [parts_keep (by simpa using hc) hkeep, htail, hs, hcs]
      rfl

theorem foldl_spell {add : Metadata → Text → Metadata}
    (hadd : ∀ m p, add m (Pair.spell p) = m.insert p.key p.value) (ps : List Pair) :
    (ps.map Pair.spell).foldl add .empty = ofList (ps.map Pair.entry) := by
  rw [ofList, List.foldl_map, List.foldl_map]
  simp only [hadd, Pair.entry]

theorem entries_ofList_ne_nil {l : List (Text × Text)} (h : l ≠ []) : (ofList l).entries ≠ [] := by
  induction l using List.reverseRecOn with
  | nil => exact absurd rfl h
  | append_singleton l e _ =>
    rw [ofList, List.foldl_append]
    exact place_ne_nil _ _ _

/-! ### Tokens that are recognised -/

theorem inner_of_isKeyChar {c : Char} (h : isKeyChar c = true) :
    isInnerChar c = true ∧ c ≠ ':' ∧ c ≠ '(' := by
  have hhandle : isHandleChar c = true := by
    simp only [isKeyChar, Bool.or_eq_true] at h
    rcases h with (h | h) | h <;> simp [isHandleChar, h]
  obtain ⟨hinner, hcolon⟩ := isInnerChar_of_handle hhandle
  refine ⟨hinner, hcolon, ?_⟩
  rintro rfl
  exact absurd hhandle (by decide)

/-- **A token** is recognised by its first key, and by what follows the colon not being the rest of
a link. -/
theorem isInlineToken_iff {token : Text} :
    isInlineToken token = true ↔ ∃ key value, token = key ++ ':' :: value ∧ key ≠ [] ∧
      (∀ c ∈ key, isKeyChar c = true) ∧ value ≠ [] ∧ ¬ ['/', '/'] <+: value := by
  constructor
  · intro h
    unfold isInlineToken at h
    dsimp only at h
    split at h
    · next value hdrop =>
      simp only [Bool.and_eq_true, Bool.not_eq_true', List.isEmpty_eq_false_iff] at h
      obtain ⟨⟨hkey, hvalue⟩, hlink⟩ := h
      refine ⟨token.takeWhile isKeyChar, value, ?_, hkey, fun c hc => List.mem_takeWhile_imp hc,
        hvalue, ?_⟩
      · rw [← hdrop, List.takeWhile_append_dropWhile]
      · rw [← List.isPrefixOf_iff_prefix, hlink]
        simp
    · simp at h
  · rintro ⟨key, value, rfl, hkey, hchars, hvalue, hlink⟩
    have hcolon : isKeyChar ':' = false := by decide
    have htake : (key ++ ':' :: value).takeWhile isKeyChar = key := by
      rw [List.takeWhile_append_of_pos hchars, List.takeWhile_cons_of_neg (by simp [hcolon]),
        List.append_nil]
    have hdrop : (key ++ ':' :: value).dropWhile isKeyChar = ':' :: value := by
      rw [List.dropWhile_append_of_pos hchars, List.dropWhile_cons_of_neg (by simp [hcolon])]
    rw [← List.isPrefixOf_iff_prefix, Bool.not_eq_true] at hlink
    simp only [isInlineToken, htake, hdrop, hlink]
    simp [hkey, hvalue]

theorem splitInline_eq_some_iff {tail token rest : Text} :
    splitInline tail = some (token, rest) ↔ (∃ b, isBlank b = true ∧ tail = token ++ b :: rest) ∧
      (∀ c ∈ token, isBlank c = false) ∧ isInlineToken token = true := by
  rw [splitInline, Option.filter_eq_some_iff, splitOnce_eq_some_iff, and_assoc]

section Parse
variable {raw token rest : Text} (hopen : parenthesized? (trim raw) = none)
include hopen

theorem parse_of_splitInline (h : splitInline (trim raw) = some (token, rest)) :
    parse raw = withMetadata rest ((splitAll (· == ',') token).foldl applyInline .empty) := by
  simp only [parse, hopen, h]

theorem parse_of_splitInline_eq_none (h : splitInline (trim raw) = none) :
    parse raw = ⟨trim raw, none⟩ := by
  simp only [parse, hopen, h]

end Parse

/-! ### The two ways to write pairs -/

theorem spellAll_cons (p : Pair) (ps : List Pair) :
    ∃ more, spellAll (p :: ps) = p.key ++ ':' :: (p.value ++ more) ∧
    ∀ c ∈ more.head?, c = ',' := by
  cases ps with
  | nil => exact ⟨[], by simp [spellAll, join, Pair.spell], by simp⟩
  | cons p' ps => exact ⟨',' :: spellAll (p' :: ps), by simp [spellAll, join, Pair.spell], by simp⟩

/-- What follows the first value is a comma, which does not make it a link. -/
theorem isInlineToken_spellAll {p : Pair} (hkey : p.key.all isKeyChar)
    (hlink : ¬ ['/', '/'] <+: p.value)
    (ps : List Pair) : isInlineToken (spellAll (p :: ps)) = true := by
  obtain ⟨more, hspell, hcomma⟩ := spellAll_cons p ps
  refine isInlineToken_iff.mpr ⟨p.key, p.value ++ more, hspell, p.key_nonempty, by simpa using hkey,
    by simp [p.value_nonempty], fun hpre => ?_⟩
  match hvalue : p.value with
  | [] => exact p.value_nonempty hvalue
  | [c] =>
    rw [hvalue, List.singleton_append, List.cons_prefix_cons] at hpre
    obtain ⟨t, ht⟩ := hpre.2
    exact absurd (hcomma '/' (by simp [← ht])) (by decide)
  | c :: d :: v =>
    rw [hvalue] at hlink hpre
    simp only [List.cons_append, List.cons_prefix_cons] at hpre hlink
    exact hlink ⟨hpre.1, hpre.2.1, List.nil_prefix⟩

theorem parse_inline {p : Pair} (hkey : p.key.all isKeyChar) (hlink : ¬ ['/', '/'] <+: p.value)
    (ps : List Pair)
    {msg : Text} (hmsg : ∃ c ∈ msg, isBlank c = false) :
    parse (spellAll (p :: ps) ++ ' ' :: msg) =
      ⟨trim msg, some (ofList ((p :: ps).map Pair.entry))⟩ := by
  obtain ⟨more, hspell, -⟩ := spellAll_cons p ps
  obtain ⟨c, key, hc⟩ := List.exists_cons_of_ne_nil p.key_nonempty
  have hfirst : spellAll (p :: ps) = c :: (key ++ ':' :: (p.value ++ more)) := by
    rw [hspell, hc, List.cons_append]
  obtain ⟨hinner, -, hparen⟩ := inner_of_isKeyChar (List.all_eq_true.mp hkey c (by simp [hc]))
  have htrim :
      trim (spellAll (p :: ps) ++ ' ' :: msg) = spellAll (p :: ps) ++ ' ' :: trimEnd msg := by
    have hend := trimEnd_append_of_exists hmsg (spellAll (p :: ps) ++ [' '])
    rw [List.append_assoc, List.append_assoc, List.singleton_append, List.singleton_append] at hend
    rw [trim, ← hend, hfirst, List.cons_append, trimStart_of_head (isInnerChar_iff.mp hinner).1]
  have hopen : parenthesized? (trim (spellAll (p :: ps) ++ ' ' :: msg)) = none := by
    rw [htrim, hfirst, List.cons_append, parenthesized?]
    exact fun body hbody => hparen (List.cons.inj hbody).1
  have hsplit : splitInline (trim (spellAll (p :: ps) ++ ' ' :: msg)) =
    some (spellAll (p :: ps), trimEnd msg) :=
    splitInline_eq_some_iff.mpr ⟨⟨' ', rfl, htrim⟩, fun c hc => (of_mem_spellAll hc).1,
      isInlineToken_spellAll hkey hlink ps⟩
  have hpieces : splitAll (· == ',') (spellAll (p :: ps)) = (p :: ps).map Pair.spell :=
    splitAll_spellAll rfl (fun c hc => by simp [isPartMark, eq_of_beq hc]) (List.cons_ne_nil p ps)
  have hne : (ofList ((p :: ps).map Pair.entry)).entries ≠ [] := entries_ofList_ne_nil (by simp)
  rw [parse_of_splitInline hopen hsplit, hpieces, foldl_spell Pair.applyInline_spell, withMetadata,
    trim_trimEnd,
    if_neg (by simpa using hne)]

theorem message_colon (msg : Text) : message (':' :: ' ' :: msg) = trim msg := by
  have htrim : trim (':' :: ' ' :: msg) = ':' :: trimEnd (' ' :: msg) := by
    rw [trim, trimStart_of_head (by decide)]
    exact trimEnd_append_cons (by decide) [] _
  have hblank : trim (' ' :: msg) = trim msg := by
    rw [trim, trim, ← List.singleton_append,
      trimStart_append_of_blank (List.forall_mem_singleton.mpr rfl)]
  rw [message]
  simp only [htrim]
  rw [if_pos (Or.inl List.head?_cons), List.drop_one, List.tail_cons, trim_trimEnd, hblank]

theorem parse_in_parentheses {ps : List Pair} (hne : ps ≠ []) (msg : Text) :
    parse ('(' :: spellAll ps ++ "): ".toList ++ msg) =
      ⟨trim msg, some (ofList (ps.map Pair.entry))⟩ := by
  have hraw : '(' :: spellAll ps ++ "): ".toList ++ msg =
      '(' :: (spellAll ps ++ ')' :: ':' :: ' ' :: msg) := by simp
  have htrim : trim ('(' :: (spellAll ps ++ ')' :: ':' :: ' ' :: msg)) =
      '(' :: (spellAll ps ++ ')' :: trimEnd (':' :: ' ' :: msg)) := by
    rw [trim, trimStart_of_head (by decide), ← List.cons_append, trimEnd_append_cons (by decide),
      List.cons_append]
  have hinside : parenthesized? ('(' :: (spellAll ps ++ ')' :: trimEnd (':' :: ' ' :: msg))) =
      some (spellAll ps, trimEnd (':' :: ' ' :: msg)) :=
    splitOnce_append_cons (fun c hc => (of_mem_spellAll hc).2) (by decide) _
  have hparts : parts (spellAll ps) = ps.map Pair.spell := by
    rw [parts_eq_splitAll fun c hc => (of_mem_spellAll hc).1]
    exact splitAll_spellAll rfl (fun c hc => hc) hne
  have hentries : (ofList (ps.map Pair.entry)).entries ≠ [] :=
    entries_ofList_ne_nil (by simpa using hne)
  rw [hraw, parse, htrim]
  simp only [hinside, hparts, foldl_spell Pair.addPart_spell, withMetadata, trim_dropSeparator,
    message_colon]
  rw [if_neg (by simpa using hentries)]

/-- **The two shapes agree.** Pairs with commas between them are read alike in front of a message,
as one token, and in parentheses: the message is trimmed, and a later pair overrides an earlier one
of the same key. -/
theorem shapes_agree {p : Pair} (hkey : p.key.all isKeyChar) (hlink : ¬ ['/', '/'] <+: p.value)
    (ps : List Pair)
    {msg : Text} (hmsg : ∃ c ∈ msg, isBlank c = false) :
    parse (spellAll (p :: ps) ++ ' ' :: msg) =
      parse ('(' :: spellAll (p :: ps) ++ "): ".toList ++ msg) ∧
    parse (spellAll (p :: ps) ++ ' ' :: msg) =
      ⟨trim msg, some (ofList ((p :: ps).map Pair.entry))⟩ ∧
    ∀ k, (ofList ((p :: ps).map Pair.entry)).get? k =
      ((p :: ps).map Pair.entry).reverse.lookup k := by
  have hinline := parse_inline hkey hlink ps hmsg
  have hparens := parse_in_parentheses (List.cons_ne_nil p ps) msg
  exact ⟨hinline.trans hparens.symm, hinline, fun k => get?_ofList k _⟩

/-- A key that is given twice, a value that ends with a colon, one of slashes behind the first, and
a message that begins with a colon. -/
theorem shapes_agree_overriding :
    let p : Pair := ⟨"due".toList, "/".toList, by decide, by decide, by decide, by decide⟩
    let ps : List Pair := [⟨"@é".toList, "//x:".toList, by decide, by decide, by decide, by decide⟩,
      ⟨"due".toList, "a:b".toList, by decide, by decide, by decide, by decide⟩]
    let entries := (p :: ps).map Pair.entry
    p.key.all isKeyChar ∧ ¬ ['/', '/'] <+: p.value ∧
      (∃ c ∈ " : fix  it ".toList, isBlank c = false) ∧
      parse "due:/,@é://x:,due:a:b  : fix  it ".toList =
        parse "(due:/,@é://x:,due:a:b):  : fix  it ".toList ∧
      parse "due:/,@é://x:,due:a:b  : fix  it ".toList =
        ⟨": fix  it".toList, some (ofList entries)⟩ ∧
      ∀ k, (ofList entries).get? k = entries.reverse.lookup k := by
  intro p ps entries
  have hkey : p.key.all isKeyChar := by decide
  have hlink : ¬ ['/', '/'] <+: p.value := by decide
  have hmsg : ∃ c ∈ " : fix  it ".toList, isBlank c = false := ⟨':', by decide, by decide⟩
  exact ⟨hkey, hlink, hmsg, shapes_agree hkey hlink ps hmsg⟩

/-! ### What a piece says -/

/-- A piece gives a value to a key: they stand on the two sides of its first colon, and neither is
empty. -/
structure Gives (piece k v : Text) : Prop where
  spelt : piece = k ++ ':' :: v
  first : ':' ∉ k
  key_nonempty : k ≠ []
  value_nonempty : v ≠ []

/-- A piece without a colon, or with nothing on one side of its first colon. -/
def IsVoid (piece : Text) : Prop := ∀ k v, piece = k ++ ':' :: v → ':' ∉ k → k = [] ∨ v = []

theorem isVoid_iff {piece : Text} : IsVoid piece ↔ ∀ k v, ¬ Gives piece k v := by
  constructor
  · exact fun h k v hgives =>
      (h k v hgives.spelt hgives.first).elim hgives.key_nonempty hgives.value_nonempty
  · intro h k v hspelt hfirst
    by_contra hne
    rw [not_or] at hne
    exact h k v ⟨hspelt, hfirst, hne.1, hne.2⟩

theorem isVoid_of_not_mem {piece : Text} (h : ':' ∉ piece) : IsVoid piece := by
  rintro k v rfl
  simp at h

theorem splitOnce_colon_iff {s k v : Text} :
    splitOnce (· == ':') s = some (k, v) ↔ s = k ++ ':' :: v ∧ ':' ∉ k := by
  rw [splitOnce_eq_some_iff]
  constructor
  · rintro ⟨⟨d, hd, hs⟩, hk⟩
    obtain rfl : d = ':' := by simpa using hd
    exact ⟨hs, fun hc => by simpa using hk _ hc⟩
  · rintro ⟨hs, hk⟩
    refine ⟨⟨':', rfl, hs⟩, fun c hc => ?_⟩
    rw [beq_eq_false_iff_ne]
    rintro rfl
    exact hk hc

/-- The first colon is the same however the text is cut. -/
theorem eq_of_first_colon {k v k' v' : Text} (hk : ':' ∉ k) (hk' : ':' ∉ k')
    (h : k ++ ':' :: v = k' ++ ':' :: v') :
    k = k' ∧ v = v' := by
  have hcut := splitOnce_colon_iff.mpr ⟨h, hk'⟩
  rw [splitOnce_colon_iff.mpr ⟨rfl, hk⟩] at hcut
  simpa using hcut

theorem isVoid_append_cons_iff {k : Text} (hk : ':' ∉ k) (v : Text) :
    IsVoid (k ++ ':' :: v) ↔ k = [] ∨ v = [] := by
  constructor
  · exact fun h => h k v rfl hk
  · rintro h k' v' heq hk'
    obtain ⟨rfl, rfl⟩ := eq_of_first_colon hk hk' heq
    exact h

/-- **Reading one piece** puts in what it gives, if it gives anything. -/
theorem applyInline_cases (m : Metadata) {piece : Text} (h : ∀ c ∈ piece, isBlank c = false) :
    (∃ k v, Gives piece k v ∧ applyInline m piece = m.insert k v) ∨
      applyInline m piece = m ∧ ∀ k v, ¬ Gives piece k v := by
  cases hcut : splitOnce (· == ':') piece with
  | none =>
    refine Or.inr ⟨by simp only [applyInline, hcut], fun k v hgives => ?_⟩
    simp [splitOnce_colon_iff.mpr ⟨hgives.spelt, hgives.first⟩] at hcut
  | some kv =>
    obtain ⟨k, v⟩ := kv
    obtain ⟨rfl, hfirst⟩ := splitOnce_colon_iff.mp hcut
    have hk : trim k = k := trim_of_forall_not fun c hc => h c (by simp [hc])
    have hv : trim v = v := trim_of_forall_not fun c hc => h c (by simp [hc])
    simp only [applyInline, hcut, addPair, hk, hv, Bool.or_eq_true, List.isEmpty_iff]
    split_ifs with hvoid
    · exact Or.inr ⟨rfl, isVoid_iff.mp ((isVoid_append_cons_iff hfirst v).mpr hvoid)⟩
    · rw [not_or] at hvoid
      exact Or.inl ⟨k, v, ⟨rfl, hfirst, hvoid.1, hvoid.2⟩, rfl⟩

/-- A piece leaves the map empty just if it was empty and the piece says nothing. -/
theorem applyInline_entries_eq_nil_iff {m : Metadata} {piece : Text}
    (h : ∀ c ∈ piece, isBlank c = false) :
    (applyInline m piece).entries = [] ↔ m.entries = [] ∧ IsVoid piece := by
  rw [isVoid_iff]
  rcases applyInline_cases m h with ⟨k, v, hgives, happly⟩ | ⟨happly, hno⟩
  · have hgiven : ¬ ∀ k v, ¬ Gives piece k v := fun hno => hno k v hgives
    simp [happly, Metadata.insert, place_ne_nil, hgiven]
  · simp [happly, hno]

theorem foldl_applyInline_entries_eq_nil_iff {pieces : List Text}
    (h : ∀ q ∈ pieces, ∀ c ∈ q, isBlank c = false)
    (m : Metadata) :
    (pieces.foldl applyInline m).entries = [] ↔ m.entries = [] ∧ ∀ q ∈ pieces, IsVoid q := by
  induction pieces generalizing m with
  | nil => simp
  | cons q pieces ih =>
    have hstep := applyInline_entries_eq_nil_iff (m := m) (h q (List.mem_cons_self ..))
    rw [List.foldl_cons, ih fun x hx => h x (List.mem_cons_of_mem _ hx), hstep,
      List.forall_mem_cons, and_assoc]

/-! ### Tokens that say nothing -/

/-- A token that is recognised although it says nothing: a key with its colon, a comma, and pieces
that say nothing. -/
def IsVoidToken (token : Text) : Prop :=
  ∃ key more, token = key ++ ':' :: ',' :: more ∧ key ≠ [] ∧ (∀ c ∈ key, isKeyChar c = true) ∧
    ∀ q ∈ splitAll (· == ',') more, IsVoid q

theorem of_mem_key {key : Text} (h : ∀ c ∈ key, isKeyChar c = true) :
    ':' ∉ key ∧ ∀ c ∈ key ++ [':'], (c == ',') = false := by
  refine ⟨fun hc => (inner_of_isKeyChar (h _ hc)).2.1 rfl, fun c hc => ?_⟩
  rw [beq_eq_false_iff_ne]
  rintro rfl
  rcases List.mem_append.mp hc with hc | hc
  · exact absurd (inner_of_isKeyChar (h _ hc)).1 (by decide)
  · simp at hc

theorem isVoidToken_iff {token : Text} :
    IsVoidToken token ↔ isInlineToken token = true ∧ ∀ q ∈ splitAll (· == ',') token, IsVoid q := by
  have hcut : ∀ {key more : Text}, (∀ c ∈ key ++ [':'], (c == ',') = false) →
      splitAll (· == ',') (key ++ ':' :: ',' :: more) =
        (key ++ [':']) :: splitAll (· == ',') more := by
    intro key more hcomma
    have htoken : key ++ ':' :: ',' :: more = (key ++ [':']) ++ ',' :: more := by simp
    rw [htoken, splitAll_append_cons (p := (· == ',')) rfl, splitAll_of_forall_not hcomma]
    rfl
  constructor
  · rintro ⟨key, more, rfl, hne, hkey, hvoid⟩
    obtain ⟨hcolon, hcomma⟩ := of_mem_key hkey
    refine ⟨isInlineToken_iff.mpr ⟨key, ',' :: more, rfl, hne, hkey, by simp, by simp⟩, ?_⟩
    rw [hcut hcomma, List.forall_mem_cons]
    exact ⟨(isVoid_append_cons_iff hcolon []).mpr (Or.inr rfl), hvoid⟩
  · rintro ⟨htoken, hvoid⟩
    obtain ⟨key, value, rfl, hne, hkey, hvalue, -⟩ := isInlineToken_iff.mp htoken
    obtain ⟨hcolon, hcomma⟩ := of_mem_key hkey
    obtain ⟨c, more, rfl⟩ := List.exists_cons_of_ne_nil hvalue
    by_cases hc : c = ','
    · subst hc
      rw [hcut hcomma, List.forall_mem_cons] at hvoid
      exact ⟨key, more, rfl, hne, hkey, hvoid.2⟩
    · -- the first piece is the key with a value
      obtain ⟨a, r, hpieces⟩ : ∃ a r, splitAll (· == ',') (key ++ ':' :: c :: more) =
        (key ++ ':' :: c :: a) :: r := by
        obtain ⟨a, r, -, hmore⟩ :=
          exists_splitAll_cons_of_neg (p := (· == ',')) (by simpa using hc) more
        obtain ⟨a', r', hvalue, hall⟩ := exists_splitAll_append hcomma (c :: more)
        obtain ⟨rfl, rfl⟩ : c :: a = a' ∧ r = r' := by simpa [hmore] using hvalue
        exact ⟨a, r, by simpa using hall⟩
      have hfirst := hvoid (key ++ ':' :: c :: a) (by simp [hpieces])
      rcases (isVoid_append_cons_iff hcolon _).mp hfirst with h | h
      · exact absurd h hne
      · simp at h

/-- A tail begins with a token that says nothing, and goes on behind a blank. -/
structure OpensVoid (tail token rest : Text) : Prop where
  cut : ∃ b, isBlank b = true ∧ tail = token ++ b :: rest
  unbroken : ∀ c ∈ token, isBlank c = false
  void : IsVoidToken token

theorem OpensVoid.trim_ne {tail token rest : Text} (h : OpensVoid tail token rest) :
    trim rest ≠ tail := by
  obtain ⟨b, -, htail⟩ := h.cut
  obtain ⟨a, e, hrest, -, -⟩ := exists_trim rest
  have hlen := congrArg List.length hrest
  have hlen' := congrArg List.length htail
  simp only [List.length_append, List.length_cons] at hlen hlen'
  intro heq
  rw [heq] at hlen
  omega

theorem parenthesized?_eq_none {tail : Text} (h : tail.head? ≠ some '(' ∨ ')' ∉ tail.tail) :
    parenthesized? tail = none := by
  rw [Option.eq_none_iff_forall_ne_some]
  rintro ⟨inside, rest⟩ hopen
  unfold parenthesized? at hopen
  split at hopen
  · obtain ⟨⟨d, hd, hbody⟩, -⟩ := splitOnce_eq_some_iff.mp hopen
    obtain rfl : d = ')' := by simpa using hd
    simp [hbody] at h
  · simp at hopen

section NotInParentheses
variable {raw : Text} (hplain : (trim raw).head? ≠ some '(' ∨ ')' ∉ (trim raw).tail)
include hplain

theorem parse_of_opensVoid {token rest : Text} (h : OpensVoid (trim raw) token rest) :
    parse raw = ⟨trim rest, none⟩ := by
  obtain ⟨htoken, hvoid⟩ := isVoidToken_iff.mp h.void
  have hblank : ∀ q ∈ splitAll (· == ',') token, ∀ c ∈ q, isBlank c = false :=
    fun q hq c hc => h.unbroken c (of_mem_splitAll hq c hc).1
  have hnone := (foldl_applyInline_entries_eq_nil_iff hblank .empty).mpr ⟨rfl, hvoid⟩
  rw [parse_of_splitInline (parenthesized?_eq_none hplain)
    (splitInline_eq_some_iff.mpr ⟨h.cut, h.unbroken, htoken⟩),
    withMetadata, hnone]
  rfl

theorem parse_of_metadata_eq_none (hnone : (parse raw).metadata = none) :
    parse raw = ⟨trim raw, none⟩ ∨ ∃ token rest, OpensVoid (trim raw) token rest := by
  have hopen := parenthesized?_eq_none hplain
  cases hsplit : splitInline (trim raw) with
  | none => exact Or.inl (parse_of_splitInline_eq_none hopen hsplit)
  | some cut =>
    obtain ⟨token, rest⟩ := cut
    obtain ⟨hcut, hunbroken, htoken⟩ := splitInline_eq_some_iff.mp hsplit
    have hblank : ∀ q ∈ splitAll (· == ',') token, ∀ c ∈ q, isBlank c = false :=
      fun q hq c hc => hunbroken c (of_mem_splitAll hq c hc).1
    have hempty : ((splitAll (· == ',') token).foldl applyInline .empty).entries = [] := by
      rw [parse_of_splitInline hopen hsplit, withMetadata] at hnone
      by_contra hne
      simp [hne] at hnone
    have hvoid := ((foldl_applyInline_entries_eq_nil_iff hblank .empty).mp hempty).2
    exact Or.inr ⟨token, rest, hcut, hunbroken, isVoidToken_iff.mpr ⟨htoken, hvoid⟩⟩

end NotInParentheses

/-- **What is kept of a tail without metadata.** A tail that is not in parentheses and has no
metadata is kept whole, except for a token at its head that is recognised but says nothing: of such
a tail the message is what follows the token. -/
theorem text_of_metadata_eq_none {raw : Text}
    (hplain : (trim raw).head? ≠ some '(' ∨ ')' ∉ (trim raw).tail)
    (hnone : (parse raw).metadata = none) :
    ((parse raw).text = trim raw ↔ ¬ ∃ token rest, OpensVoid (trim raw) token rest) ∧
    ∀ token rest, OpensVoid (trim raw) token rest → (parse raw).text = trim rest := by
  have hcut : ∀ token rest, OpensVoid (trim raw) token rest → (parse raw).text = trim rest := by
    intro token rest hvoid
    rw [parse_of_opensVoid hplain hvoid]
  refine ⟨⟨?_, fun hno => ?_⟩, hcut⟩
  · rintro hkept ⟨token, rest, hvoid⟩
    exact hvoid.trim_ne ((hcut token rest hvoid).symm.trans hkept)
  · rcases parse_of_metadata_eq_none hplain hnone with hparse | hvoid
    · rw [hparse]
    · exact absurd hvoid hno

/-- An opening parenthesis that is not closed, which is kept; and a token that says nothing. -/
theorem text_of_metadata_eq_none_token :
    let kept := " (a:, fix it".toList
    let cut := "a:,:b,c  fix it".toList
    ((trim kept).head? ≠ some '(' ∨ ')' ∉ (trim kept).tail) ∧ (parse kept).metadata = none ∧
      ((parse kept).text = trim kept ↔ ¬ ∃ token rest, OpensVoid (trim kept) token rest) ∧
      ((trim cut).head? ≠ some '(' ∨ ')' ∉ (trim cut).tail) ∧ (parse cut).metadata = none ∧
      OpensVoid (trim cut) "a:,:b,c".toList " fix it".toList ∧
        (parse cut).text = trim " fix it".toList := by
  intro kept cut
  have hkept : (trim kept).head? ≠ some '(' ∨ ')' ∉ (trim kept).tail := by decide
  have hcut : (trim cut).head? ≠ some '(' ∨ ')' ∉ (trim cut).tail := by decide
  have hnone : (parse kept).metadata = none ∧ (parse cut).metadata = none := by decide
  have hvoid : OpensVoid (trim cut) "a:,:b,c".toList " fix it".toList := by
    refine ⟨⟨' ', by decide, by decide⟩, ?_, ['a'], ":b,c".toList, by decide, by decide, ?_, ?_⟩
    · have hall : ("a:,:b,c".toList.all fun c => !isBlank c) = true := by decide
      simpa using hall
    · simpa using show isKeyChar 'a' = true by decide
    · have hpieces : splitAll (· == ',') ":b,c".toList = [[] ++ ':' :: ['b'], ['c']] := by decide
      rw [hpieces, List.forall_mem_cons, List.forall_mem_singleton]
      exact ⟨(isVoid_append_cons_iff (by simp) ['b']).mpr (Or.inl rfl),
        isVoid_of_not_mem (by decide)⟩
  exact ⟨hkept, hnone.1, (text_of_metadata_eq_none hkept hnone.1).1, hcut, hnone.2, hvoid,
    (text_of_metadata_eq_none hcut hnone.2).2 _ _ hvoid⟩

/-- **A token that says nothing is lost**: its key is in neither the metadata nor the message. -/
theorem token_lost :
    ¬ ∀ raw : Text, ((trim raw).head? ≠ some '(' ∨ ')' ∉ (trim raw).tail) →
      (parse raw).metadata = none →
      (parse raw).text = trim raw := by
  intro h
  have hlost : (parse "a:, fix".toList).text = "fix".toList := by decide
  have hkept := h "a:, fix".toList (by decide) (by decide)
  rw [hlost] at hkept
  exact absurd hkept (by decide)

end Tail

end ActionItems
