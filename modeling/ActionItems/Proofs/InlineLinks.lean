import ActionItems.Proofs.InlineMetadata

/-! # Links in an inline token

A token is taken for metadata unless what follows its first colon is the rest of a link. Behind that
test the token is read piece by piece, and a piece gives a value to a key whatever the value looks
like.

* `get?_applyInline` says what reading one piece does to the value of a key, and
  `get?_foldl_applyInline` what reading all of them does: the last piece that gives it a value wins
  (`LastGives`).
* The first piece of a token that was recognised gives no link (`not_gives_link`), since a comma is
  no part of the slashes that make one. So a link that becomes a value stands behind a comma, and
  every link that stands there becomes one, unless a later piece has the same key. -/

namespace ActionItems

open Text

/-- The entries are the keys with their values. -/
theorem Metadata.mem_entries_iff {m : Metadata} {k v : Text} :
    (k, v) ∈ m.entries ↔ m.get? k = some v := by
  rw [Metadata.get?, List.lookup_eq_some_iff]
  constructor
  · intro h
    obtain ⟨a, b, hab⟩ := List.append_of_mem h
    refine ⟨a, b, hab, fun e he => ?_⟩
    have hlt : e.1 < k := by
      have hasc := m.ascending
      rw [hab, List.pairwise_append] at hasc
      exact hasc.2.2 e he (k, v) (List.mem_cons_self ..)
    rw [bne_iff_ne]
    rintro rfl
    exact List.lt_irrefl _ hlt
  · rintro ⟨a, b, hab, -⟩
    simp [hab]

namespace Tail

open Metadata

/-! ### Values, piece by piece -/

theorem Gives.eq {piece k v k' v' : Text} (h : Gives piece k v) (h' : Gives piece k' v') :
    k = k' ∧ v = v' :=
  eq_of_first_colon h.first h'.first (h.spelt.symm.trans h'.spelt)

theorem get?_applyInline {m : Metadata} {piece : Text} (h : ∀ c ∈ piece, isBlank c = false)
    {k v : Text} :
    (applyInline m piece).get? k = some v ↔
      Gives piece k v ∨ m.get? k = some v ∧ ∀ w, ¬ Gives piece k w := by
  rcases applyInline_cases m h with ⟨k', v', hgives, happly⟩ | ⟨happly, hno⟩
  · rw [happly, get?_insert]
    split_ifs with hkey
    · subst hkey
      constructor
      · rintro hv
        obtain rfl : v' = v := by simpa using hv
        exact Or.inl hgives
      · rintro (hgives' | ⟨-, hno⟩)
        · rw [(hgives.eq hgives').2]
        · exact absurd hgives (hno v')
    · have hother : ∀ w, ¬ Gives piece k w := fun w hw => hkey (hw.eq hgives).1
      simp [hother]
  · simp [happly, hno]

/-- The last piece that gives a value to the key gives it this one. -/
def LastGives (pieces : List Text) (k v : Text) : Prop :=
  ∃ before piece after, pieces = before ++ piece :: after ∧ Gives piece k v ∧
    ∀ q ∈ after, ∀ w, ¬ Gives q k w

theorem lastGives_cons_iff {piece : Text} {pieces : List Text} {k v : Text} :
    LastGives (piece :: pieces) k v ↔
      LastGives pieces k v ∨ Gives piece k v ∧ ∀ q ∈ pieces, ∀ w, ¬ Gives q k w := by
  constructor
  · rintro ⟨before, q, after, hpieces, hgives, hno⟩
    cases before with
    | nil =>
      obtain ⟨rfl, rfl⟩ := List.cons.inj hpieces
      exact Or.inr ⟨hgives, hno⟩
    | cons x before =>
      obtain ⟨rfl, rfl⟩ := List.cons.inj hpieces
      exact Or.inl ⟨before, q, after, rfl, hgives, hno⟩
  · rintro (⟨before, q, after, rfl, hgives, hno⟩ | ⟨hgives, hno⟩)
    · exact ⟨piece :: before, q, after, rfl, hgives, hno⟩
    · exact ⟨[], piece, pieces, rfl, hgives, hno⟩

/-- **Reading all pieces**: a key keeps its value unless a piece gives it another, and the last such
piece wins. -/
theorem get?_foldl_applyInline {pieces : List Text} (h : ∀ q ∈ pieces, ∀ c ∈ q, isBlank c = false)
    (m : Metadata) {k v : Text} : (pieces.foldl applyInline m).get? k = some v ↔
      LastGives pieces k v ∨ m.get? k = some v ∧ ∀ q ∈ pieces, ∀ w, ¬ Gives q k w := by
  induction pieces generalizing m with
  | nil => simp [LastGives]
  | cons q pieces ih =>
    have hrest := ih (fun x hx => h x (List.mem_cons_of_mem _ hx)) (applyInline m q)
    rw [List.foldl_cons, hrest, get?_applyInline (h q (List.mem_cons_self ..)), lastGives_cons_iff,
      List.forall_mem_cons]
    tauto

/-! ### Links behind commas -/

/-- A tail begins with a token that is taken for metadata, and goes on behind a blank. -/
structure OpensInline (tail token rest : Text) : Prop where
  cut : ∃ b, isBlank b = true ∧ tail = token ++ b :: rest
  unbroken : ∀ c ∈ token, isBlank c = false
  recognised : isInlineToken token = true

theorem splitInline_eq_some_iff_opensInline {tail token rest : Text} :
    splitInline tail = some (token, rest) ↔ OpensInline tail token rest :=
  splitInline_eq_some_iff.trans ⟨fun h => ⟨h.1, h.2.1, h.2.2⟩,
    fun h => ⟨h.cut, h.unbroken, h.recognised⟩⟩

theorem not_gives_link {token first : Text} {others : List Text}
    (htoken : isInlineToken token = true)
    (hpieces : splitAll (· == ',') token = first :: others) {k v : Text}
    (hlink : ['/', '/'] <+: v) :
    ¬ Gives first k v := by
  intro hgives
  obtain ⟨key, value, rfl, -, hkey, -, hnolink⟩ := isInlineToken_iff.mp htoken
  obtain ⟨hcolon, hcomma⟩ := of_mem_key hkey
  -- the first piece is the key with the beginning of what follows it
  obtain ⟨a, r, hvalue, hall⟩ := exists_splitAll_append hcomma value
  rw [List.append_assoc, List.singleton_append] at hall
  obtain ⟨rfl, -⟩ := List.cons.inj (hall.symm.trans hpieces)
  have hspelt := hgives.spelt
  rw [List.append_assoc, List.singleton_append] at hspelt
  obtain ⟨-, rfl⟩ := eq_of_first_colon hcolon hgives.first hspelt
  rw [eq_takeWhile_of_splitAll hvalue] at hlink
  exact hnolink (hlink.trans (List.takeWhile_prefix _))

section NotInParentheses
variable {raw : Text} (hplain : (trim raw).head? ≠ some '(' ∨ ')' ∉ (trim raw).tail)
include hplain

/-- What a token at the head of the tail says, key by key. -/
theorem mem_metadata_iff {k v : Text} :
    (∃ m, (parse raw).metadata = some m ∧ (k, v) ∈ m.entries) ↔
      ∃ token rest, OpensInline (trim raw) token rest ∧
        LastGives (splitAll (· == ',') token) k v := by
  have hopen := parenthesized?_eq_none hplain
  cases hsplit : splitInline (trim raw) with
  | none =>
    have hno : ∀ token rest, ¬ OpensInline (trim raw) token rest := fun token rest h => by
      simp [splitInline_eq_some_iff_opensInline.mpr h] at hsplit
    simp [parse_of_splitInline_eq_none hopen hsplit, hno]
  | some cut =>
    obtain ⟨token, rest⟩ := cut
    have htoken := splitInline_eq_some_iff_opensInline.mp hsplit
    have hblank : ∀ q ∈ splitAll (· == ',') token, ∀ c ∈ q, isBlank c = false :=
      fun q hq c hc => htoken.unbroken c (of_mem_splitAll hq c hc).1
    have hget := get?_foldl_applyInline hblank .empty (k := k) (v := v)
    have hnone : Metadata.empty.get? k ≠ some v := by simp [Metadata.empty, Metadata.get?]
    simp only [hnone, false_and, or_false] at hget
    rw [parse_of_splitInline hopen hsplit, withMetadata]
    constructor
    · rintro ⟨m, hm, hmem⟩
      split_ifs at hm
      obtain rfl := Option.some.inj hm
      exact ⟨token, rest, htoken, hget.mp (mem_entries_iff.mp hmem)⟩
    · rintro ⟨token', rest', htoken', hlast⟩
      obtain ⟨rfl, rfl⟩ : token = token' ∧ rest = rest' := by
        simpa [hsplit] using splitInline_eq_some_iff_opensInline.mpr htoken'
      have hmem := mem_entries_iff.mpr (hget.mpr hlast)
      refine ⟨_, if_neg ?_, hmem⟩
      rw [List.isEmpty_iff]
      exact List.ne_nil_of_mem hmem

/-- A tail that begins with a link is kept whole. -/
theorem parse_of_link {key more : Text} (hkey : ∀ c ∈ key, isKeyChar c = true)
    (htail : trim raw = key ++ ':' :: '/' :: '/' :: more) : parse raw = ⟨trim raw, none⟩ := by
  refine parse_of_splitInline_eq_none (parenthesized?_eq_none hplain) ?_
  rw [Option.eq_none_iff_forall_ne_some]
  rintro ⟨token, rest⟩ hsplit
  obtain ⟨⟨b, hb, hcut⟩, -, htoken⟩ := splitInline_eq_some_iff.mp hsplit
  obtain ⟨key', value, rfl, -, hkey', hvalue, hnolink⟩ := isInlineToken_iff.mp htoken
  have hsame := htail.symm.trans hcut
  rw [List.append_assoc, List.cons_append] at hsame
  obtain ⟨-, hslashes⟩ := eq_of_first_colon (of_mem_key hkey).1 (of_mem_key hkey').1 hsame
  match value with
  | [] => exact hvalue rfl
  | [c] =>
    -- the blank behind the token would be a slash
    obtain ⟨-, rfl, -⟩ : '/' = c ∧ '/' = b ∧ more = rest := by simpa using hslashes
    exact absurd hb (by decide)
  | c :: d :: value =>
    obtain ⟨rfl, rfl, -⟩ : '/' = c ∧ '/' = d ∧ more = value ++ b :: rest := by simpa using hslashes
    exact hnolink ⟨value, rfl⟩

end NotInParentheses

/-- **Which links become values.** In front of a message, a link becomes the value of a key just if
it stands behind a comma of the token, as the last value of that key; a tail that begins with a link
is kept whole. -/
theorem link_value_iff {raw : Text} (hplain : (trim raw).head? ≠ some '(' ∨ ')' ∉ (trim raw).tail) :
    (∀ k v : Text, ['/', '/'] <+: v →
      ((∃ m, (parse raw).metadata = some m ∧ (k, v) ∈ m.entries) ↔
        ∃ token rest first others, OpensInline (trim raw) token rest ∧
          splitAll (· == ',') token = first :: others ∧ LastGives others k v)) ∧
    ∀ key more : Text, (∀ c ∈ key, isKeyChar c = true) →
      trim raw = key ++ ':' :: '/' :: '/' :: more →
      parse raw = ⟨trim raw, none⟩ := by
  refine ⟨fun k v hlink => ?_, fun key more hkey htail => parse_of_link hplain hkey htail⟩
  rw [mem_metadata_iff hplain]
  constructor
  · rintro ⟨token, rest, htoken, hlast⟩
    obtain ⟨first, others, hpieces⟩ := List.exists_cons_of_ne_nil (splitAll_ne_nil (· == ',') token)
    rw [hpieces, lastGives_cons_iff] at hlast
    rcases hlast with hlast | ⟨hgives, -⟩
    · exact ⟨token, rest, first, others, htoken, hpieces, hlast⟩
    · exact absurd hgives (not_gives_link htoken.recognised hpieces hlink)
  · rintro ⟨token, rest, first, others, htoken, hpieces, hlast⟩
    refine ⟨token, rest, htoken, ?_⟩
    rw [hpieces, lastGives_cons_iff]
    exact Or.inl hlast

/-- A key that two links follow, behind a value that begins with one slash; and a link at the
head. -/
theorem link_value_iff_last :
    let raw := " due:/,https://a,https://b fix it".toList
    let whole := "https://a,due:b fix it".toList
    ((trim raw).head? ≠ some '(' ∨ ')' ∉ (trim raw).tail) ∧
      (∃ m, (parse raw).metadata = some m ∧ ("https".toList, "//b".toList) ∈ m.entries) ∧
      ((trim whole).head? ≠ some '(' ∨ ')' ∉ (trim whole).tail) ∧
        parse whole = ⟨trim whole, none⟩ := by
  intro raw whole
  have hraw : (trim raw).head? ≠ some '(' ∨ ')' ∉ (trim raw).tail := by decide
  have hwhole : (trim whole).head? ≠ some '(' ∨ ')' ∉ (trim whole).tail := by decide
  have htoken : OpensInline (trim raw) "due:/,https://a,https://b".toList "fix it".toList := by
    refine ⟨⟨' ', by decide, by decide⟩, ?_, by decide⟩
    have hall : ("due:/,https://a,https://b".toList.all fun c => !isBlank c) = true := by decide
    simpa using hall
  have hlast : LastGives ["https://a".toList, "https://b".toList] "https".toList "//b".toList :=
    ⟨["https://a".toList], "https://b".toList, [], rfl,
      ⟨by decide, by decide, by decide, by decide⟩, by simp⟩
  have hkey : ∀ c ∈ "https".toList, isKeyChar c = true := by
    have hall : ("https".toList.all isKeyChar) = true := by decide
    simpa using hall
  refine ⟨hraw, ?_, hwhole,
    (link_value_iff hwhole).2 "https".toList "a,due:b fix it".toList hkey (by decide)⟩
  exact ((link_value_iff hraw).1 _ _ (by decide)).mpr
    ⟨_, _, "due:/".toList, _, htoken, by decide, hlast⟩

/-- **A link behind a comma** is stored under the name of its scheme. -/
theorem link_behind_comma :
    ¬ ∀ raw : Text, ((trim raw).head? ≠ some '(' ∨ ')' ∉ (trim raw).tail) →
      ∀ m, (parse raw).metadata = some m →
      ∀ e ∈ m.entries, ¬ ['/', '/'] <+: e.2 := by
  intro h
  have hmeta : (parse "a:b,https://x.y/z fix".toList).metadata =
      some (ofList [(['a'], ['b']), ("https".toList, "//x.y/z".toList)]) := by decide
  exact h _ (by decide) _ hmeta ("https".toList, "//x.y/z".toList) (by decide) (by decide)

end Tail

end ActionItems
