import ActionItems.Json.Printer
import ActionItems.Json.Reader

/-! # Values are read back from their text

The printer writes a string character by character (`readString_escape`), a number by its digits
(`readNumber_ofInt`) and an array or object on lines of its own. Each step of the reader gives the
value back together with the text behind it, whatever that text is; only behind a number it must not
go on with the number (`IsApart`), and the printer puts a comma or a new line there. A text is at
least as long as the reader has to go down in it, so its length is enough fuel (`ReadsBack`).

Doubles are left out (`IsExact`): a finding holds none, and the reader takes the nearest one. -/

namespace ActionItems.Json

/-! ### Strings -/

theorem readString_unescape {c d : Char} (h : escaped c = some d) (rest : Text) :
    readString ('\\' :: c :: rest) = before d (readString rest) := by
  have hu : c ≠ 'u' := by
    rintro rfl
    simp [escaped] at h
  rw [readString.eq_def]
  split
  · next heq => simp at heq
  · next heq => simp_all
  · next heq =>
    simp only [List.cons.injEq, true_and] at heq
    obtain ⟨rfl, rfl⟩ := heq
    rw [h]
  · next hne heq =>
    obtain ⟨rfl, rfl⟩ := List.cons.inj heq
    exact absurd rfl (hne _ _ rfl)
  · next heq => cases heq

theorem readString_plain {c : Char} (hquote : c ≠ '\x22') (hback : c ≠ '\\') (hlow : 0x20 ≤ c.toNat)
    (rest : Text) : readString (c :: rest) = before c (readString rest) := by
  rw [readString.eq_def]
  split
  · next heq => exact absurd (List.cons.inj heq).1 hquote
  · next heq => exact absurd (List.cons.inj heq).1 hback
  · next heq => exact absurd (List.cons.inj heq).1 hback
  · next heq =>
    obtain ⟨rfl, rfl⟩ := List.cons.inj heq
    rw [if_neg (by simp [hback, hlow])]
  · next heq => cases heq

theorem hexValue_hexDigit : ∀ n < 16, hexValue (hexDigit n) = some n := by decide

theorem readString_control {n : Nat} (h : n < 0x20) (rest : Text) :
    readString ('\\' :: 'u' :: '0' :: '0' :: hexDigit (n / 16) :: hexDigit (n % 16) :: rest) =
      before (Char.ofNat n) (readString rest) := by
  have hunit : hexUnit '0' '0' (hexDigit (n / 16)) (hexDigit (n % 16)) = some n := by
    have hzero : hexValue '0' = some 0 := by decide
    have hhigh := hexValue_hexDigit (n / 16) (by omega)
    have hlow := hexValue_hexDigit (n % 16) (by omega)
    simp only [hexUnit, hzero, hhigh, hlow, Option.bind_eq_bind, Option.bind_some, Option.pure_def,
      Option.some.injEq]
    omega
  have hhigh : isHighUnit n = false := by
    simp only [isHighUnit, Bool.and_eq_false_imp, decide_eq_true_eq, decide_eq_false_iff_not]
    omega
  have hlow : isLowUnit n = false := by
    simp only [isLowUnit, Bool.and_eq_false_imp, decide_eq_true_eq, decide_eq_false_iff_not]
    omega
  rw [readString]
  simp only [hunit, hhigh, hlow, Bool.false_eq_true, if_false]

theorem readString_escape (c : Char) (rest : Text) :
    readString (escape c ++ rest) = before c (readString rest) := by
  have hletter : ∀ {n : Nat} {d : Char}, c.toNat = n → escaped d = some (Char.ofNat n) →
      readString (['\\', d] ++ rest) = before c (readString rest) := by
    rintro n d rfl hd
    rw [Char.ofNat_toNat] at hd
    exact readString_unescape hd rest
  unfold escape
  split
  · next h => exact hletter h rfl
  · next h => exact hletter h rfl
  · next h => exact hletter h rfl
  · next h => exact hletter h rfl
  · next h => exact hletter h rfl
  · next h => exact hletter h rfl
  · next h => exact hletter h rfl
  · next hquote hback _ _ _ _ _ =>
    split
    · next hlow =>
      have hread := readString_control hlow rest
      rwa [Char.ofNat_toNat] at hread
    · next hlow =>
      refine readString_plain ?_ ?_ (Nat.le_of_not_lt hlow) rest
      · rintro rfl
        exact hquote rfl
      · rintro rfl
        exact hback rfl

theorem readString_flatMap_escape (s rest : Text) :
    readString (s.flatMap escape ++ '\x22' :: rest) = some (s, rest) := by
  induction s with
  | nil => rw [List.flatMap_nil, List.nil_append, readString]
  | cons c s ih =>
    rw [List.flatMap_cons, List.append_assoc, readString_escape, ih]
    rfl

theorem quote_append (s rest : Text) :
    quote s ++ rest = '\x22' :: (s.flatMap escape ++ '\x22' :: rest) := by
  simp [quote]

/-! ### Numbers -/

theorem isDigit_of_mem_ofNat {n : Nat} {c : Char} (h : c ∈ Text.ofNat n) : c.isDigit = true :=
  Nat.isDigit_of_mem_toDigits (by decide) (by decide) h

theorem exists_ofNat_cons (n : Nat) : ∃ d ds, Text.ofNat n = d :: ds ∧ d.isDigit = true := by
  have hne : Text.ofNat n ≠ [] := Nat.toDigits_ne_nil
  obtain ⟨d, ds, hds⟩ := List.exists_cons_of_ne_nil hne
  exact ⟨d, ds, hds, isDigit_of_mem_ofNat (hds ▸ List.mem_cons_self)⟩

theorem head?_ofNat {n : Nat} (h : 0 < n) : (Text.ofNat n).head? ≠ some '0' := by
  unfold Text.ofNat
  induction n using Nat.strongRecOn with
  | ind n ih =>
    by_cases hlt : n < 10
    · have hdigit : ∀ d < 10, 0 < d → Nat.digitChar d ≠ '0' := by decide
      rw [Nat.toDigits_of_lt_base hlt]
      simpa using hdigit n hlt h
    · obtain ⟨c, ds, hds, -⟩ := exists_ofNat_cons (n / 10)
      have hne := ih (n / 10) (by omega) (by omega)
      rw [Text.ofNat] at hds
      rw [Nat.toDigits_of_base_le (by decide) (Nat.le_of_not_lt hlt)]
      rw [hds] at hne ⊢
      exact hne

/-- A zero stands in front of no other digit. -/
theorem length_of_head?_ofNat {n : Nat} (h : (Text.ofNat n).head? = some '0') :
    (Text.ofNat n).length = 1 := by
  by_cases hpos : 0 < n
  · exact absurd h (head?_ofNat hpos)
  · obtain rfl : n = 0 := by omega
    rfl

theorem digitsValue_ofNat (n : Nat) : digitsValue (Text.ofNat n) = n := by
  have hvalue : digitsValue (Text.ofNat n) = Nat.ofDigitChars 10 (Text.ofNat n) 0 := by
    simp only [digitsValue, Nat.ofDigitChars, Nat.mul_comm 10]
    rfl
  rw [hvalue, Text.ofNat, Nat.ofDigitChars_ten_toDigits]

/-- A text that cannot go on with a number. -/
def IsApart (rest : Text) : Prop :=
  ∀ c ∈ rest.head?, c.isDigit = false ∧ c ≠ '.' ∧ c ≠ 'e' ∧ c ≠ 'E'

section Numbers

variable {rest : Text} (h : IsApart rest)
include h

theorem takeWhile_ofNat (n : Nat) :
    (Text.ofNat n ++ rest).takeWhile Char.isDigit = Text.ofNat n := by
  have hrest : rest.takeWhile Char.isDigit = [] := by
    cases rest with
    | nil => rfl
    | cons c s => simp [(h c rfl).1]
  rw [List.takeWhile_append_of_pos fun c hc => isDigit_of_mem_ofNat hc, hrest, List.append_nil]

theorem dropWhile_ofNat (n : Nat) : (Text.ofNat n ++ rest).dropWhile Char.isDigit = rest := by
  have hrest : rest.dropWhile Char.isDigit = rest := by
    cases rest with
    | nil => rfl
    | cons c s => simp [(h c rfl).1]
  rw [List.dropWhile_append_of_pos fun c hc => isDigit_of_mem_ofNat hc, hrest]

theorem IsApart.readFraction_eq : readFraction rest = some ([], rest) := by
  unfold readFraction
  split
  · exact absurd rfl (h '.' rfl).2.1
  · rfl

theorem IsApart.readExponent_eq : readExponent rest = some (none, rest) := by
  unfold readExponent
  split
  · next c s =>
    obtain ⟨-, -, he, hE⟩ := h c rfl
    rw [if_neg (by simp [he, hE])]
  · rfl

theorem readNumber_of_sign {s : Text} {negative : Bool} {n : Nat}
    (hsign : (match s with | '-' :: r => (true, r) | r => (false, r)) =
      (negative, Text.ofNat n ++ rest)) :
    readNumber s = some (wholeNumber negative n, rest) := by
  have hempty : (Text.ofNat n).isEmpty = false := by
    obtain ⟨d, ds, hds, -⟩ := exists_ofNat_cons n
    rw [hds]
    rfl
  have hzero :
      ((Text.ofNat n).head? == some '0' && decide (1 < (Text.ofNat n).length)) = false := by
    cases hhead : (Text.ofNat n).head? == some '0' with
    | false => rfl
    | true => simp [length_of_head?_ofNat (eq_of_beq hhead)]
  unfold readNumber
  split
  next b r heq =>
    obtain ⟨rfl, rfl⟩ := Prod.mk.inj (heq.symm.trans hsign)
    simp [takeWhile_ofNat h, dropWhile_ofNat h, hempty, hzero, h.readFraction_eq, h.readExponent_eq,
      digitsValue_ofNat]

theorem readNumber_ofInt {n : Int} (hlow : -(UInt64.size / 2 : Nat) ≤ n) (hhigh : n < UInt64.size) :
    readNumber (Text.ofInt n ++ rest) = some (.int n, rest) := by
  cases n with
  | ofNat n =>
    have hsign : (match Text.ofNat n ++ rest with | '-' :: r => (true, r) | r => (false, r)) =
        (false, Text.ofNat n ++ rest) := by
      split
      · next r heq =>
        obtain ⟨d, ds, hds, hdigit⟩ := exists_ofNat_cons n
        rw [hds, List.cons_append] at heq
        obtain ⟨rfl, -⟩ := List.cons.inj heq
        exact absurd hdigit (by decide)
      · rfl
    have hn : n < UInt64.size := Int.ofNat_lt.mp hhigh
    rw [Text.ofInt, readNumber_of_sign h hsign, wholeNumber, if_neg (by simp), if_pos hn]
    rfl
  | negSucc n =>
    have hn : n + 1 ≤ UInt64.size / 2 := by omega
    rw [Text.ofInt, readNumber_of_sign h rfl, wholeNumber, if_pos rfl, if_pos (by simpa using hn)]
    rfl

end Numbers

/-- A number starts with its sign or a digit. -/
theorem exists_ofInt_cons (n : Int) :
    ∃ c s, Text.ofInt n = c :: s ∧ (c = '-' ∨ c.isDigit = true) := by
  cases n with
  | ofNat n =>
    obtain ⟨d, ds, hds, hd⟩ := exists_ofNat_cons n
    exact ⟨d, ds, hds, Or.inr hd⟩
  | negSucc n => exact ⟨'-', _, rfl, Or.inl rfl⟩

/-! ### Blanks -/

theorem skipBlanks_of_head {c : Char} (h : isJsonBlank c = false) (s : Text) :
    skipBlanks (c :: s) = c :: s := by
  rw [skipBlanks, List.dropWhile_cons_of_neg (by simp [h])]

theorem skipBlanks_append {blanks : Text} (h : ∀ c ∈ blanks, isJsonBlank c = true) (s : Text) :
    skipBlanks (blanks ++ s) = skipBlanks s :=
  List.dropWhile_append_of_pos h

theorem isJsonBlank_of_mem_newLine {depth : Nat} {c : Char} (h : c ∈ newLine depth) :
    isJsonBlank c = true := by
  rcases List.mem_cons.mp h with rfl | h
  · rfl
  · rw [List.eq_of_mem_replicate h]
    rfl

theorem skipBlanks_newLine (depth : Nat) (s : Text) :
    skipBlanks (newLine depth ++ s) = skipBlanks s :=
  skipBlanks_append (fun _ h => isJsonBlank_of_mem_newLine h) s

theorem skipBlanks_skipBlanks (s : Text) : skipBlanks (skipBlanks s) = skipBlanks s := by
  induction s with
  | nil => rfl
  | cons c s ih =>
    by_cases h : isJsonBlank c = true
    · rwa [show skipBlanks (c :: s) = skipBlanks s from List.dropWhile_cons_of_pos h]
    · rw [skipBlanks_of_head (by simpa using h), skipBlanks_of_head (by simpa using h)]

theorem readValue_skipBlanks (fuel : Nat) (s : Text) :
    readValue fuel (skipBlanks s) = readValue fuel s := by
  cases fuel with
  | zero => rfl
  | succ fuel => rw [readValue, readValue, skipBlanks_skipBlanks]

theorem readElements_skipBlanks (fuel : Nat) (s : Text) :
    readElements fuel (skipBlanks s) = readElements fuel s := by
  cases fuel with
  | zero => rfl
  | succ fuel => rw [readElements, readElements, readValue_skipBlanks]

theorem readMembers_skipBlanks (fuel : Nat) (s : Text) :
    readMembers fuel (skipBlanks s) = readMembers fuel s := by
  cases fuel with
  | zero => rfl
  | succ fuel => rw [readMembers, readMembers, skipBlanks_skipBlanks]

theorem isApart_cons {c : Char} (h : c = ',' ∨ isJsonBlank c = true) (s : Text) :
    IsApart (c :: s) := by
  intro d hd
  obtain rfl : c = d := by simpa using hd
  rcases h with rfl | h
  · decide
  · simp only [isJsonBlank, Bool.or_eq_true, beq_iff_eq] at h
    rcases h with ((rfl | rfl) | rfl) | rfl <;> decide

theorem isApart_newLine (depth : Nat) (s : Text) : IsApart (newLine depth ++ s) :=
  isApart_cons (Or.inr rfl) _

/-! ### Values -/

/-- The values whose numbers are integers of 64 bits. -/
inductive IsExact : Json → Prop
  | null : IsExact .null
  | bool (b : Bool) : IsExact (.bool b)
  | int {n : Int} (low : -(UInt64.size / 2 : Nat) ≤ n) (high : n < UInt64.size) : IsExact (.int n)
  | str (s : Text) : IsExact (.str s)
  | arr {vs : List Json} (elements : ∀ v ∈ vs, IsExact v) : IsExact (.arr vs)
  | obj {ms : List (Text × Json)} (members : ∀ m ∈ ms, IsExact m.2) : IsExact (.obj ms)

theorem isJsonBlank_eq_false {c : Char} (h : c = '-' ∨ c.isDigit = true) :
    isJsonBlank c = false := by
  rcases h with rfl | h
  · rfl
  · have hne : ∀ d : Char, d.isDigit = false → c ≠ d := by
      rintro d hd rfl
      rw [h] at hd
      cases hd
    simp [isJsonBlank, hne]

theorem exists_pretty_cons {v : Json} (h : IsExact v) (depth : Nat) :
    ∃ c s, v.pretty depth = c :: s ∧ isJsonBlank c = false ∧ c ≠ ']' := by
  cases h with
  | null => exact ⟨_, _, rfl, by decide, by decide⟩
  | bool b => cases b <;> exact ⟨_, _, rfl, by decide, by decide⟩
  | @int n =>
    obtain ⟨c, s, hs, hc⟩ := exists_ofInt_cons n
    refine ⟨c, s, hs, isJsonBlank_eq_false hc, ?_⟩
    rintro rfl
    simp at hc
  | str s => exact ⟨_, _, rfl, by decide, by decide⟩
  | @arr vs => cases vs <;> exact ⟨_, _, rfl, by decide, by decide⟩
  | @obj ms => cases ms <;> exact ⟨_, _, rfl, by decide, by decide⟩

theorem readValue_number {n : Int} {rest : Text} (hlow : -(UInt64.size / 2 : Nat) ≤ n)
    (hhigh : n < UInt64.size) (h : IsApart rest) (fuel : Nat) :
    readValue (fuel + 1) (Text.ofInt n ++ rest) = some (.int n, rest) := by
  obtain ⟨c, s, hs, hc⟩ := exists_ofInt_cons n
  have hread := readNumber_ofInt h hlow hhigh
  rw [hs, List.cons_append] at hread ⊢
  rw [readValue, skipBlanks_of_head (isJsonBlank_eq_false hc)]
  split
  case h_7 => exact hread
  -- no other value starts with a sign or a digit
  all_goals
    next heq =>
      obtain ⟨rfl, -⟩ := List.cons.inj heq
      simp at hc

/-- Whatever follows, the value is read back from its text if there is enough fuel. -/
def ReadsBack (v : Json) : Prop :=
  ∀ (depth fuel : Nat) (rest : Text), (v.pretty depth).length ≤ fuel → IsApart rest →
    readValue fuel (v.pretty depth ++ rest) = some (v, rest)

theorem ReadsBack.after {v : Json} (h : ReadsBack v) {blanks rest : Text} {depth fuel : Nat}
    (hblanks : ∀ c ∈ blanks, isJsonBlank c = true) (hfuel : (v.pretty depth).length ≤ fuel)
    (hrest : IsApart rest) :
    readValue fuel (blanks ++ (v.pretty depth ++ rest)) = some (v, rest) := by
  rw [← readValue_skipBlanks, skipBlanks_append hblanks, readValue_skipBlanks]
  exact h depth fuel rest hfuel hrest

theorem readsBack_of_succ {v : Json} (h : IsExact v) (hread : ∀ (depth fuel : Nat) (rest : Text),
    (v.pretty depth).length ≤ fuel + 1 → IsApart rest →
      readValue (fuel + 1) (v.pretty depth ++ rest) = some (v, rest)) : ReadsBack v := by
  intro depth fuel rest hfuel hrest
  cases fuel with
  | zero =>
    obtain ⟨c, s, hs, -⟩ := exists_pretty_cons h depth
    rw [hs, List.length_cons] at hfuel
    omega
  | succ fuel => exact hread depth fuel rest hfuel hrest

/-! ### Elements and members -/

/-- One element is read up to what stands behind it, the end of the array or a comma. -/
theorem readElements_element {v : Json} (h : ReadsBack v) {depth fuel : Nat} {rest : Text}
    (hfuel : (v.pretty depth).length ≤ fuel) (hrest : IsApart rest) :
    (∀ r, skipBlanks rest = ']' :: r →
      readElements (fuel + 1) (newLine depth ++ (v.pretty depth ++ rest)) = some ([v], r)) ∧
    ∀ r vs tail, skipBlanks rest = ',' :: r → readElements fuel r = some (vs, tail) →
      readElements (fuel + 1) (newLine depth ++ (v.pretty depth ++ rest)) =
        some (v :: vs, tail) := by
  have hvalue : readValue fuel (newLine depth ++ (v.pretty depth ++ rest)) = some (v, rest) :=
    h.after (fun _ => isJsonBlank_of_mem_newLine) hfuel hrest
  rw [readElements, hvalue]
  constructor
  · intro r hend
    simp only [hend]
  · intro r vs tail hcomma hmore
    simp only [hcomma, hmore, Option.map_some]

theorem readElements_pretty (depth outer : Nat) (rest : Text) :
    ∀ (vs : List Json) (v : Json) (fuel : Nat), (∀ w ∈ v :: vs, ReadsBack w) →
      (prettyElements depth (v :: vs)).length ≤ fuel →
      readElements fuel (prettyElements depth (v :: vs) ++ (newLine outer ++ ']' :: rest)) =
        some (v :: vs, rest)
  | [], v, 0, _, hfuel => by simp [prettyElements, newLine] at hfuel
  | [], v, fuel + 1, h, hfuel => by
    simp only [prettyElements, newLine, List.length_append, List.length_cons] at hfuel
    have hlast := (readElements_element (h v List.mem_cons_self)
      (by omega : (v.pretty depth).length ≤ fuel) (isApart_newLine outer (']' :: rest))).1
    rw [prettyElements, List.append_assoc]
    exact hlast rest (by rw [skipBlanks_newLine, skipBlanks_of_head (by decide)])
  | w :: vs, v, 0, _, hfuel => by simp [prettyElements, newLine] at hfuel
  | w :: vs, v, fuel + 1, h, hfuel => by
    simp only [prettyElements, newLine, List.length_append, List.length_cons] at hfuel
    have hrest := readElements_pretty depth outer rest vs w fuel
      (fun u hu => h u (List.mem_cons_of_mem v hu)) (by omega)
    have hmore := (readElements_element (h v List.mem_cons_self)
      (by omega : (v.pretty depth).length ≤ fuel)
      (isApart_cons (Or.inl rfl)
        (prettyElements depth (w :: vs) ++ (newLine outer ++ ']' :: rest)))).2
    rw [prettyElements, List.append_assoc, List.append_assoc, List.cons_append]
    exact hmore _ _ _ (skipBlanks_of_head (by decide) _) hrest

/-- One member is read up to what stands behind it, the end of the object or a comma. -/
theorem readMembers_member {v : Json} (h : ReadsBack v) (k : Text) {depth fuel : Nat} {rest : Text}
    (hfuel : (v.pretty depth).length ≤ fuel) (hrest : IsApart rest) :
    (∀ r, skipBlanks rest = '\x7d' :: r →
      readMembers (fuel + 1)
        (newLine depth ++ (quote k ++ ':' :: ' ' :: (v.pretty depth ++ rest))) =
        some ([(k, v)], r)) ∧
    ∀ r ms tail, skipBlanks rest = ',' :: r → readMembers fuel r = some (ms, tail) →
      readMembers (fuel + 1)
        (newLine depth ++ (quote k ++ ':' :: ' ' :: (v.pretty depth ++ rest))) =
        some ((k, v) :: ms, tail) := by
  have hvalue : readValue fuel ([' '] ++ (v.pretty depth ++ rest)) = some (v, rest) :=
    h.after (by simp [isJsonBlank]) hfuel hrest
  rw [List.singleton_append] at hvalue
  rw [readMembers, skipBlanks_newLine, quote_append, skipBlanks_of_head (by decide)]
  simp only [readString_flatMap_escape, skipBlanks_of_head (by decide : isJsonBlank ':' = false),
    hvalue]
  constructor
  · intro r hend
    simp only [hend]
  · intro r ms tail hcomma hmore
    simp only [hcomma, hmore, Option.map_some]

theorem readMembers_pretty (depth outer : Nat) (rest : Text) :
    ∀ (ms : List (Text × Json)) (m : Text × Json) (fuel : Nat), (∀ m' ∈ m :: ms, ReadsBack m'.2) →
      (prettyMembers depth (m :: ms)).length ≤ fuel →
      readMembers fuel (prettyMembers depth (m :: ms) ++ (newLine outer ++ '\x7d' :: rest)) =
        some (m :: ms, rest)
  | [], (k, v), 0, _, hfuel => by simp [prettyMembers, newLine] at hfuel
  | [], (k, v), fuel + 1, h, hfuel => by
    simp only [prettyMembers, newLine, List.length_append, List.length_cons] at hfuel
    have hlast := (readMembers_member (h (k, v) List.mem_cons_self) k
      (by omega : (v.pretty depth).length ≤ fuel) (isApart_newLine outer ('\x7d' :: rest))).1
    simp only [prettyMembers, List.append_assoc, List.cons_append]
    exact hlast rest (by rw [skipBlanks_newLine, skipBlanks_of_head (by decide)])
  | m' :: ms, (k, v), 0, _, hfuel => by simp [prettyMembers, newLine] at hfuel
  | m' :: ms, (k, v), fuel + 1, h, hfuel => by
    simp only [prettyMembers, newLine, List.length_append, List.length_cons] at hfuel
    have hrest := readMembers_pretty depth outer rest ms m' fuel
      (fun u hu => h u (List.mem_cons_of_mem _ hu)) (by omega)
    have hmore := (readMembers_member (h (k, v) List.mem_cons_self) k
      (by omega : (v.pretty depth).length ≤ fuel)
      (isApart_cons (Or.inl rfl)
        (prettyMembers depth (m' :: ms) ++ (newLine outer ++ '\x7d' :: rest)))).2
    simp only [prettyMembers, List.append_assoc, List.cons_append]
    exact hmore _ _ _ (skipBlanks_of_head (by decide) _) hrest

theorem readValue_bracket {s s' : Text} {c : Char} (h : skipBlanks s = c :: s') (hc : c ≠ ']')
    (fuel : Nat) : readValue (fuel + 1) ('[' :: s) =
      (readElements fuel s).map fun (vs, r) => (.arr vs, r) := by
  rw [readValue, skipBlanks_of_head (by decide)]
  simp only
  split
  · next heq =>
    rw [h] at heq
    exact absurd (List.cons.inj heq).1 hc
  · rw [readElements_skipBlanks]

theorem readValue_brace {s s' : Text} {c : Char} (h : skipBlanks s = c :: s') (hc : c ≠ '\x7d')
    (fuel : Nat) : readValue (fuel + 1) ('\x7b' :: s) =
      (readMembers fuel s).map fun (ms, r) => (.obj ms, r) := by
  rw [readValue, skipBlanks_of_head (by decide)]
  simp only
  split
  · next heq =>
    rw [h] at heq
    exact absurd (List.cons.inj heq).1 hc
  · rw [readMembers_skipBlanks]

theorem exists_skipBlanks_elements {v : Json} (h : IsExact v) (depth : Nat) (vs : List Json)
    (rest : Text) :
    ∃ c s, skipBlanks (prettyElements depth (v :: vs) ++ rest) = c :: s ∧ c ≠ ']' := by
  obtain ⟨c, s, hs, hblank, hclose⟩ := exists_pretty_cons h depth
  have hsplit : ∃ s', prettyElements depth (v :: vs) = newLine depth ++ (c :: s ++ s') := by
    cases vs with
    | nil => exact ⟨[], by rw [prettyElements, hs, List.append_nil]⟩
    | cons w vs => exact ⟨_, by rw [prettyElements, hs, List.append_assoc]⟩
  obtain ⟨s', hs'⟩ := hsplit
  refine ⟨c, s ++ s' ++ rest, ?_, hclose⟩
  rw [hs', List.append_assoc, skipBlanks_newLine]
  exact skipBlanks_of_head hblank _

theorem exists_skipBlanks_members (depth : Nat) (m : Text × Json) (ms : List (Text × Json))
    (rest : Text) : ∃ s, skipBlanks (prettyMembers depth (m :: ms) ++ rest) = '\x22' :: s := by
  have hsplit : ∃ s, prettyMembers depth (m :: ms) = newLine depth ++ '\x22' :: s := by
    cases ms with
    | nil => exact ⟨_, by rw [prettyMembers, List.append_assoc, quote_append]⟩
    | cons m' ms =>
      exact ⟨_, by rw [prettyMembers, List.append_assoc, List.append_assoc, quote_append]⟩
  obtain ⟨s, hs⟩ := hsplit
  refine ⟨s ++ rest, ?_⟩
  rw [hs, List.append_assoc, skipBlanks_newLine]
  exact skipBlanks_of_head (by decide) _

/-- **Values are read back** from their indented text. -/
theorem IsExact.readsBack {v : Json} (h : IsExact v) : ReadsBack v := by
  induction h with
  | null => exact readsBack_of_succ .null fun depth fuel rest _ _ => by rw [readValue]; rfl
  | bool b =>
    refine readsBack_of_succ (.bool b) fun depth fuel rest _ _ => ?_
    cases b <;> (rw [readValue]; rfl)
  | int low high =>
    refine readsBack_of_succ (.int low high) fun depth fuel rest _ hrest => ?_
    rw [pretty]
    exact readValue_number low high hrest fuel
  | str s =>
    refine readsBack_of_succ (.str s) fun depth fuel rest _ _ => ?_
    rw [pretty, quote_append, readValue, skipBlanks_of_head (by decide)]
    simp only [readString_flatMap_escape, Option.map_some]
  | @arr vs elements ih =>
    refine readsBack_of_succ (.arr elements) fun depth fuel rest hfuel hrest => ?_
    cases vs with
    | nil => rw [readValue]; rfl
    | cons v vs =>
      simp only [pretty, List.length_append, List.length_cons] at hfuel
      have hread := readElements_pretty (depth + 1) depth rest vs v fuel ih (by omega)
      obtain ⟨c, s, hs, hc⟩ := exists_skipBlanks_elements (elements v List.mem_cons_self)
        (depth + 1) vs
        (newLine depth ++ ']' :: rest)
      simp only [pretty, List.append_assoc, List.cons_append, List.nil_append]
      rw [readValue_bracket hs hc, hread]
      rfl
  | @obj ms members ih =>
    refine readsBack_of_succ (.obj members) fun depth fuel rest hfuel hrest => ?_
    cases ms with
    | nil => rw [readValue]; rfl
    | cons m ms =>
      simp only [pretty, List.length_append, List.length_cons] at hfuel
      have hread := readMembers_pretty (depth + 1) depth rest ms m fuel ih (by omega)
      obtain ⟨s, hs⟩ := exists_skipBlanks_members (depth + 1) m ms (newLine depth ++ '\x7d' :: rest)
      simp only [pretty, List.append_assoc, List.cons_append, List.nil_append]
      rw [readValue_brace hs (by decide), hread]
      rfl

/-- **The indented text of a value** denotes that value, whatever blanks follow. -/
theorem parse_pretty {v : Json} (h : IsExact v) (depth : Nat) {blanks : Text}
    (hblanks : ∀ c ∈ blanks, isJsonBlank c = true) : parse (v.pretty depth ++ blanks) = some v := by
  have hapart : IsApart blanks := by
    cases blanks with
    | nil => intro c hc; cases hc
    | cons c s => exact isApart_cons (Or.inr (hblanks c List.mem_cons_self)) s
  have hend : skipBlanks blanks = [] := by
    have hskip := skipBlanks_append hblanks []
    rw [List.append_nil] at hskip
    exact hskip
  have hread := h.readsBack depth (2 * (v.pretty depth ++ blanks).length + 1) blanks
    (by rw [List.length_append]; omega) hapart
  rw [parse, hread]
  simp only [hend, List.isEmpty_nil, if_true]

end ActionItems.Json
