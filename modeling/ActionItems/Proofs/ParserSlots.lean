import Mathlib.Data.Finset.Card
import ActionItems.Extraction

/-! # The parsers of an extractor

An extractor makes the parser of a language when it is first asked for it, before it knows whether
the source has an error, and keeps it in the slot of the language. No two languages share a slot, so
a parser that is found in a slot is one for the language that was asked for, and what a call gives
does not depend on the calls before it (`Extractor.extract_eq`). What calls leave behind is the set
of the languages that were asked for (`Holds.load`); the parsers are counted by it
(`Holds.size_eq`). -/

namespace ActionItems.Extractor

variable {e : Extractor} {ls : Finset Language}

/-! ### Slots -/

theorem parser?_put_self (e : Extractor) (p : Parser) : (e.put p).parser? p.language = some p := by
  simp [parser?, put]

theorem parser?_put_of_ne {p : Parser} {m : Language} (h : m ≠ p.language) (e : Extractor) :
    (e.put p).parser? m = e.parser? m := by
  have hslot : p.language.slot.val ≠ m.slot.val :=
    fun heq => h (Language.eq_of_slot_eq (Fin.ext heq)).symm
  simp [parser?, put, Vector.getElem_set_ne, hslot]

theorem isSome_parser?_load_self (e : Extractor) (l : Language) :
    ((e.load l).parser? l).isSome = true := by
  unfold load acquire
  split
  · next p h => rw [h]; rfl
  · exact Option.isSome_of_eq_some (parser?_put_self e ⟨l⟩)

theorem parser?_load_of_ne {l m : Language} (h : m ≠ l) (e : Extractor) :
    (e.load l).parser? m = e.parser? m := by
  unfold load acquire
  split
  · rfl
  · exact parser?_put_of_ne (by exact h) e

/-- There is a slot for each language and no other. -/
theorem size_eq_countP (e : Extractor) :
    e.size = Language.all.countP fun l => (e.parser? l).isSome := by
  obtain ⟨⟨⟨slots⟩, hlength⟩, -⟩ := e
  match slots, hlength with
  | [_, _, _, _], _ => rfl

/-! ### Languages that were asked for -/

/-- The extractor has a parser for these languages and for no other. -/
def Holds (e : Extractor) (ls : Finset Language) : Prop :=
  ∀ l : Language, (e.parser? l).isSome = true ↔ l ∈ ls

theorem holds_fresh : fresh.Holds ∅ := by
  intro l
  simp [fresh, parser?]

theorem Holds.load (h : e.Holds ls) (l : Language) : (e.load l).Holds (insert l ls) := by
  intro m
  rw [Finset.mem_insert]
  by_cases hm : m = l
  · subst hm
    exact iff_of_true (isSome_parser?_load_self e m) (Or.inl rfl)
  · rw [parser?_load_of_ne hm, h m]
    exact (or_iff_right hm).symm

/-- **The parsers are counted by the languages** that were asked for. -/
theorem Holds.size_eq (h : e.Holds ls) : e.size = ls.card := by
  have hls : ls = (Language.all.filter fun l => (e.parser? l).isSome).toFinset := by
    ext l
    rw [List.mem_toFinset, List.mem_filter, h l, and_iff_right (List.mem_of_getElem? l.all_slot)]
  have hnodup : Language.all.Nodup := by decide
  rw [hls, List.toFinset_card_of_nodup (hnodup.filter _), size_eq_countP,
    List.countP_eq_length_filter]

/-! ### Calls in turn -/

/-- What calls in turn give, each with the number of parsers after it. -/
def answers (e : Extractor) :
    List (Language × Text) → List (Except SyntaxFault (List Annotation) × Nat)
  | [] => []
  | (l, source) :: calls =>
    let (e, result) := e.extract l source
    (result, e.size) :: e.answers calls

theorem answers_cons (e : Extractor) (c : Language × Text) (calls : List (Language × Text)) :
    e.answers (c :: calls) =
      (c.1.extract c.2, (e.load c.1).size) :: (e.load c.1).answers calls := by
  obtain ⟨l, source⟩ := c
  simp only [answers, extract_eq]

theorem Holds.answers (h : e.Holds ls) (calls : List (Language × Text)) (i : Nat) :
    (e.answers calls)[i]? = calls[i]?.map fun c =>
      (c.1.extract c.2, (ls ∪ ((calls.take (i + 1)).map Prod.fst).toFinset).card) := by
  induction calls generalizing e ls i with
  | nil => rfl
  | cons c calls ih =>
    rw [answers_cons]
    cases i with
    | zero => simp [(h.load c.1).size_eq]
    | succ i =>
      rw [List.getElem?_cons_succ, List.getElem?_cons_succ, ih (h.load c.1)]
      simp [Finset.insert_union, Finset.union_insert]

/-- **The state of an extractor is only a store of parsers.** Whatever calls are made in turn, with
sources that have errors or not, each gives what it gives as the first call of all, and after it
there are as many parsers as there are languages among the calls so far. -/
theorem answers_of_fresh (calls : List (Language × Text)) (i : Nat) :
    (fresh.answers calls)[i]? = calls[i]?.map fun c =>
      ((fresh.extract c.1 c.2).2, ((calls.take (i + 1)).map Prod.fst).toFinset.card) := by
  rw [holds_fresh.answers calls i]
  simp only [extract_eq, Finset.empty_union]

end ActionItems.Extractor
