import Mathlib.Data.List.Basic
import ActionItems.Text.Utf8

/-! # Reading and writing bytes

*Reading.* A line feed belongs to no longer character and is no part of a broken one, so the bytes
before it and the bytes after it are read on their own (`decodeLossy_append_feed`), and the text has
as many line feeds as the bytes have (`count_decodeLossy`).

*Writing.* The bytes of a smaller character come before those of a greater one, whatever follows
(`encodeChar_lt`). So texts and their bytes are in the same order (`encode_lt_encode`), and bytes
that start with those of a text are the bytes of a text that starts with it
(`exists_of_encode_append`).

*Both.* A text is read back from its bytes (`decodeLossy_encode`), so the bytes that hold text are
just those of the texts (`decode?_eq_some_iff`). -/

namespace ActionItems.Utf8

/-! ### Line feeds -/

/-- The byte of a line feed. -/
def feed : UInt8 := 0x0A

theorem isTail_feed : isTail feed = false := by decide

theorem isSecond_feed (a : UInt8) : isSecond a feed = false := by
  unfold isSecond
  split_ifs <;> decide

/-- A line feed ends a character that is not complete as the end of the bytes does. -/
theorem head_append_feed (a : UInt8) (r s : Bytes) : head a (r ++ feed :: s) = head a r := by
  unfold head
  rcases r with _ | ⟨b, _ | ⟨c, _ | ⟨d, r⟩⟩⟩ <;>
    simp only [List.nil_append, List.cons_append, isTail_feed, isSecond_feed, Bool.false_eq_true,
      ↓reduceIte]

theorem head_snd_le (a : UInt8) (r : Bytes) : (head a r).2 ≤ r.length := by
  unfold head
  rcases r with _ | ⟨b, _ | ⟨c, _ | ⟨d, r⟩⟩⟩ <;> dsimp only <;> split_ifs <;> simp

theorem decodeFrom_append_feed (y : Bytes) : ∀ (n : Nat) (x : Bytes), n ≤ x.length →
    decodeFrom n (x ++ feed :: y) = decodeFrom n x ++ '\n' :: decodeLossy y
  | 0, [], _ => rfl
  | n + 1, [], h => absurd h (Nat.not_succ_le_zero n)
  | 0, a :: r, _ => by
    rw [List.cons_append, decodeFrom, decodeFrom, head_append_feed,
      decodeFrom_append_feed y _ r (head_snd_le a r), List.cons_append]
  | n + 1, a :: r, h => by
    rw [List.cons_append, decodeFrom, decodeFrom]
    exact decodeFrom_append_feed y n r (Nat.le_of_succ_le_succ h)

/-- **The bytes on the two sides of a line feed are read on their own.** -/
theorem decodeLossy_append_feed (x y : Bytes) :
    decodeLossy (x ++ feed :: y) = decodeLossy x ++ '\n' :: decodeLossy y :=
  decodeFrom_append_feed y 0 x (Nat.zero_le _)

theorem toNat_ofNat_eq (n : Nat) : (Char.ofNat n).toNat = n ∨ (Char.ofNat n).toNat = 0 := by
  unfold Char.ofNat
  by_cases h : n.isValidChar
  · rw [dif_pos h]
    exact Or.inl rfl
  · rw [dif_neg h]
    exact Or.inr rfl

theorem ofNat_ne_feed {n : Nat} (h : n ≠ 10) : Char.ofNat n ≠ '\n' := by
  intro he
  have h10 : (Char.ofNat n).toNat = 10 := by rw [he]; rfl
  rcases toNat_ofNat_eq n with h' | h' <;> omega

theorem lead_two_ne {a b : UInt8} (ha : (0xC2 ≤ a && a ≤ 0xDF) = true) :
    a.toNat % 32 * 64 + low b ≠ 10 := by
  simp only [Bool.and_eq_true, decide_eq_true_eq, UInt8.le_iff_toNat_le, UInt8.reduceToNat] at ha
  omega

theorem lead_three_ne {a b : UInt8} (ha : (0xE0 ≤ a && a ≤ 0xEF) = true)
    (hb : isSecond a b = true) (n : Nat) : a.toNat % 16 * 4096 + low b * 64 + n ≠ 10 := by
  simp only [Bool.and_eq_true, decide_eq_true_eq, UInt8.le_iff_toNat_le, UInt8.reduceToNat] at ha
  by_cases h0 : a = 0xE0
  · -- the second byte after the least first byte is not among the least ones
    subst h0
    have hb' : (0xA0 ≤ b && b ≤ 0xBF) = true := hb
    simp only [Bool.and_eq_true, decide_eq_true_eq, UInt8.le_iff_toNat_le, UInt8.reduceToNat] at hb'
    simp only [low, UInt8.reduceToNat]
    omega
  · have : a.toNat ≠ 0xE0 := fun he => h0 (UInt8.toNat_inj.mp he)
    omega

theorem lead_four_ne {a b : UInt8} (ha : (0xF0 ≤ a && a ≤ 0xF4) = true)
    (hb : isSecond a b = true) (n : Nat) : a.toNat % 8 * 262144 + low b * 4096 + n ≠ 10 := by
  simp only [Bool.and_eq_true, decide_eq_true_eq, UInt8.le_iff_toNat_le, UInt8.reduceToNat] at ha
  by_cases h0 : a = 0xF0
  · subst h0
    have hb' : (0x90 ≤ b && b ≤ 0xBF) = true := hb
    simp only [Bool.and_eq_true, decide_eq_true_eq, UInt8.le_iff_toNat_le, UInt8.reduceToNat] at hb'
    simp only [low, UInt8.reduceToNat]
    omega
  · have : a.toNat ≠ 0xF0 := fun he => h0 (UInt8.toNat_inj.mp he)
    omega

/-- Only the byte of a line feed is read as one. -/
theorem head_ne_feed {a : UInt8} (ha : a ≠ feed) (r : Bytes) : (head a r).1 ≠ '\n' := by
  have hrep : replacement ≠ '\n' := by decide
  unfold head
  split_ifs with h1 h2 h3 h4
  · exact ofNat_ne_feed fun he => ha (UInt8.toNat_inj.mp he)
  · rcases r with _ | ⟨b, r⟩
    · exact hrep
    · dsimp only
      split_ifs
      · exact ofNat_ne_feed (lead_two_ne h2)
      · exact hrep
  · rcases r with _ | ⟨b, _ | ⟨c, r⟩⟩
    · exact hrep
    · dsimp only
      split_ifs <;> exact hrep
    · dsimp only
      split_ifs with hb hc
      · exact ofNat_ne_feed (lead_three_ne h3 hb (low c))
      · exact hrep
      · exact hrep
  · rcases r with _ | ⟨b, _ | ⟨c, _ | ⟨d, r⟩⟩⟩
    · exact hrep
    · dsimp only
      split_ifs <;> exact hrep
    · dsimp only
      split_ifs <;> exact hrep
    · dsimp only
      split_ifs with hb hc hd
      · rw [Nat.add_assoc]
        exact ofNat_ne_feed (lead_four_ne h4 hb _)
      · exact hrep
      · exact hrep
      · exact hrep
  · exact hrep

theorem not_mem_decodeFrom : ∀ (n : Nat) (x : Bytes), feed ∉ x → '\n' ∉ decodeFrom n x
  | _, [], _ => by simp [decodeFrom]
  | n + 1, a :: r, h => by
    rw [decodeFrom]
    exact not_mem_decodeFrom n r fun hr => h (List.mem_cons_of_mem _ hr)
  | 0, a :: r, h => by
    rw [decodeFrom, List.mem_cons, not_or]
    have ha : a ≠ feed := fun he => h (he ▸ List.mem_cons_self)
    exact ⟨(head_ne_feed ha r).symm,
      not_mem_decodeFrom _ r fun hr => h (List.mem_cons_of_mem _ hr)⟩

theorem not_mem_decodeLossy {x : Bytes} (h : feed ∉ x) : '\n' ∉ decodeLossy x :=
  not_mem_decodeFrom 0 x h

/-- **Line feeds are read one by one.** -/
theorem count_decodeLossy (x : Bytes) : (decodeLossy x).count '\n' = x.count feed := by
  induction hn : x.count feed generalizing x with
  | zero => exact List.count_eq_zero.mpr (not_mem_decodeLossy (List.count_eq_zero.mp hn))
  | succ n ih =>
    have hmem : feed ∈ x := List.count_pos_iff.mp (by omega)
    obtain ⟨s, t, rfl, hs⟩ := List.eq_append_cons_of_mem hmem
    rw [List.count_append, List.count_cons_self, List.count_eq_zero.mpr hs] at hn
    rw [decodeLossy_append_feed, List.count_append, List.count_cons_self, ih t (by omega),
      List.count_eq_zero.mpr (not_mem_decodeLossy hs)]
    omega

/-! ### The order of bytes -/

theorem div_of_bits (n : Nat) : n / 4096 = n / 64 / 64 ∧ n / 262144 = n / 64 / 64 / 64 := by
  rw [Nat.div_div_eq_div_mul, Nat.div_div_eq_div_mul]
  exact ⟨rfl, rfl⟩

/-- **A smaller character has smaller bytes**, whatever follows the two. -/
theorem encodeChar_lt {c d : Char} (h : c < d) (x y : Bytes) :
    encodeChar c ++ x < encodeChar d ++ y := by
  have hlt : c.toNat < d.toNat := h
  have hd : d.toNat < 0x110000 := by
    rcases d.valid with hv | hv
    · exact Nat.lt_trans hv (by decide)
    · exact hv.2
  unfold encodeChar
  dsimp only
  generalize c.toNat = n at hlt
  generalize d.toNat = m at hlt hd
  -- all bytes by digits to the base 64, so that equal leading digits leave the later ones
  rw [(div_of_bits n).1, (div_of_bits n).2, (div_of_bits m).1, (div_of_bits m).2]
  split_ifs <;>
    simp only [List.cons_append, List.nil_append, List.cons_lt_cons_iff, UInt8.lt_iff_toNat_lt,
      ← UInt8.toNat_inj, UInt8.toNat_ofNat'] <;> omega

theorem encode_nil : encode [] = [] := rfl

theorem encode_cons (c : Char) (s : Text) : encode (c :: s) = encodeChar c ++ encode s :=
  List.flatMap_cons

theorem encode_append (s t : Text) : encode (s ++ t) = encode s ++ encode t :=
  List.flatMap_append

theorem encodeChar_ne_nil (c : Char) : encodeChar c ≠ [] := by
  unfold encodeChar
  dsimp only
  split_ifs <;> simp

theorem encode_eq_nil {s : Text} : encode s = [] ↔ s = [] := by
  cases s with
  | nil => simp [encode_nil]
  | cons c s => simp [encode_cons, encodeChar_ne_nil]

/-- The order of texts is that of their bytes. -/
theorem encode_lt_encode {s t : Text} (h : s < t) : encode s < encode t := by
  induction s generalizing t with
  | nil =>
    cases t with
    | nil => exact absurd h (List.lt_irrefl _)
    | cons d t =>
      obtain ⟨b, bs, hb⟩ := List.exists_cons_of_ne_nil (encodeChar_ne_nil d)
      rw [encode_cons, hb]
      exact List.nil_lt_cons ..
  | cons c s ih =>
    cases t with
    | nil => exact absurd h (List.not_lt_nil _)
    | cons d t =>
      rw [encode_cons, encode_cons]
      rcases List.cons_lt_cons_iff.mp h with hlt | ⟨rfl, hlt⟩
      · exact encodeChar_lt hlt _ _
      · exact List.append_left_lt (ih hlt)

theorem encode_lt_encode_iff {s t : Text} : encode s < encode t ↔ s < t := by
  refine ⟨fun h => ?_, encode_lt_encode⟩
  by_contra hnot
  rcases List.le_iff_lt_or_eq.mp (List.not_lt.mp hnot) with hlt | rfl
  · exact List.lt_irrefl _ (List.lt_trans h (encode_lt_encode hlt))
  · exact List.lt_irrefl _ h

theorem encodeChar_append_inj {c d : Char} {x y : Bytes}
    (h : encodeChar c ++ x = encodeChar d ++ y) : c = d ∧ x = y := by
  rcases Nat.lt_trichotomy c.toNat d.toNat with hlt | heq | hlt
  · exact absurd (h ▸ encodeChar_lt hlt x y) (List.lt_irrefl _)
  · obtain rfl : c = d := by rw [← Char.ofNat_toNat c, heq, Char.ofNat_toNat]
    exact ⟨rfl, List.append_cancel_left h⟩
  · exact absurd (h ▸ encodeChar_lt hlt y x) (List.lt_irrefl _)

theorem exists_of_encode_append {x : Bytes} : ∀ {r p : Text}, encode r ++ x = encode p →
    ∃ q, p = r ++ q ∧ encode q = x
  | [], p, h => ⟨p, rfl, h.symm⟩
  | c :: r, [], h => by
    rw [encode_cons] at h
    exact absurd (List.append_eq_nil_iff.mp (List.append_eq_nil_iff.mp h).1).1 (encodeChar_ne_nil c)
  | c :: r, d :: p, h => by
    rw [encode_cons, encode_cons, List.append_assoc] at h
    obtain ⟨rfl, hrest⟩ := encodeChar_append_inj h
    obtain ⟨q, rfl, hq⟩ := exists_of_encode_append hrest
    exact ⟨q, rfl, hq⟩

theorem encode_injective {s t : Text} (h : encode s = encode t) : s = t := by
  obtain ⟨q, rfl, hq⟩ := exists_of_encode_append (r := s) (p := t) (x := [])
    (by rw [List.append_nil, h])
  rw [encode_eq_nil.mp hq, List.append_nil]

theorem encode_of_decode? {bs : Bytes} {s : Text} (h : decode? bs = some s) : encode s = bs := by
  unfold decode? at h
  dsimp only at h
  split at h
  · next henc =>
    cases h
    exact henc
  · cases h

/-! ### Reading back -/

theorem isTail_iff {b : UInt8} : isTail b = true ↔ 0x80 ≤ b.toNat ∧ b.toNat ≤ 0xBF := by
  simp [isTail, UInt8.le_iff_toNat_le]

theorem head_one {a : UInt8} (ha : a.toNat < 0x80) (r : Bytes) :
    head a r = (Char.ofNat a.toNat, 0) := by
  have h : a < 0x80 := UInt8.lt_iff_toNat_lt.mpr ha
  unfold head
  rw [if_pos h]

theorem head_two {a b : UInt8} (ha : 0xC2 ≤ a.toNat ∧ a.toNat ≤ 0xDF) (hb : isTail b = true)
    (r : Bytes) :
    head a (b :: r) = (Char.ofNat (a.toNat % 32 * 64 + low b), 1) := by
  have h1 : ¬ a < 0x80 := by simp [UInt8.lt_iff_toNat_lt]; omega
  have h2 : (0xC2 ≤ a && a ≤ 0xDF) = true := by simp [UInt8.le_iff_toNat_le]; omega
  unfold head
  rw [if_neg h1, if_pos h2]
  simp only [hb, if_true]

theorem head_three {a b c : UInt8} (ha : 0xE0 ≤ a.toNat ∧ a.toNat ≤ 0xEF) (hb : isSecond a b = true)
    (hc : isTail c = true) (r : Bytes) :
    head a (b :: c :: r) = (Char.ofNat (a.toNat % 16 * 4096 + low b * 64 + low c), 2) := by
  have h1 : ¬ a < 0x80 := by simp [UInt8.lt_iff_toNat_lt]; omega
  have h2 : ¬ (0xC2 ≤ a && a ≤ 0xDF) = true := by simp [UInt8.le_iff_toNat_le]; omega
  have h3 : (0xE0 ≤ a && a ≤ 0xEF) = true := by simp [UInt8.le_iff_toNat_le]; omega
  unfold head
  rw [if_neg h1, if_neg h2, if_pos h3]
  simp only [hb, hc, if_true]

theorem head_four {a b c d : UInt8} (ha : 0xF0 ≤ a.toNat ∧ a.toNat ≤ 0xF4)
    (hb : isSecond a b = true)
    (hc : isTail c = true) (hd : isTail d = true) (r : Bytes) :
    head a (b :: c :: d :: r) =
      (Char.ofNat (a.toNat % 8 * 262144 + low b * 4096 + low c * 64 + low d), 3) := by
  have h1 : ¬ a < 0x80 := by simp [UInt8.lt_iff_toNat_lt]; omega
  have h2 : ¬ (0xC2 ≤ a && a ≤ 0xDF) = true := by simp [UInt8.le_iff_toNat_le]; omega
  have h3 : ¬ (0xE0 ≤ a && a ≤ 0xEF) = true := by simp [UInt8.le_iff_toNat_le]; omega
  have h4 : (0xF0 ≤ a && a ≤ 0xF4) = true := by simp [UInt8.le_iff_toNat_le]; omega
  unfold head
  rw [if_neg h1, if_neg h2, if_neg h3, if_pos h4]
  simp only [hb, hc, hd, if_true]

theorem isSecond_iff {a b : UInt8} : isSecond a b = true ↔ 0x80 ≤ b.toNat ∧ b.toNat ≤ 0xBF ∧
    (a.toNat = 0xE0 → 0xA0 ≤ b.toNat) ∧ (a.toNat = 0xED → b.toNat ≤ 0x9F) ∧
    (a.toNat = 0xF0 → 0x90 ≤ b.toNat) ∧ (a.toNat = 0xF4 → b.toNat ≤ 0x8F) := by
  unfold isSecond
  simp only [← UInt8.toNat_inj]
  split_ifs <;> simp_all [isTail_iff, UInt8.le_iff_toNat_le] <;> omega

/-- **A character is read back** from its bytes. -/
theorem head_encodeChar (c : Char) (x : Bytes) :
    ∃ a r, encodeChar c = a :: r ∧ head a (r ++ x) = (c, r.length) := by
  have hback : ∀ n, n = c.toNat → Char.ofNat n = c := fun n hn => by rw [hn, Char.ofNat_toNat]
  have hvalid : c.toNat < 0xD800 ∨ 0xDFFF < c.toNat ∧ c.toNat < 0x110000 := c.valid
  unfold encodeChar
  dsimp only
  split_ifs with h1 h2 h3
  · refine ⟨_, _, rfl, ?_⟩
    rw [head_one (by rw [UInt8.toNat_ofNat']; omega), hback _ (by rw [UInt8.toNat_ofNat']; omega)]
    rfl
  · refine ⟨_, _, rfl, ?_⟩
    rw [List.singleton_append, head_two (by rw [UInt8.toNat_ofNat']; omega)
      (by rw [isTail_iff, UInt8.toNat_ofNat']; omega),
        hback _ (by rw [low, UInt8.toNat_ofNat', UInt8.toNat_ofNat']; omega)]
    rfl
  · refine ⟨_, _, rfl, ?_⟩
    rw [List.cons_append, List.singleton_append, head_three (by rw [UInt8.toNat_ofNat']; omega)
      (by rw [isSecond_iff, UInt8.toNat_ofNat', UInt8.toNat_ofNat']; omega)
      (by rw [isTail_iff, UInt8.toNat_ofNat']; omega),
      hback _ (by rw [low, low, UInt8.toNat_ofNat', UInt8.toNat_ofNat', UInt8.toNat_ofNat']; omega)]
    rfl
  · refine ⟨_, _, rfl, ?_⟩
    rw [List.cons_append, List.cons_append, List.singleton_append,
      head_four (by rw [UInt8.toNat_ofNat']; omega)
      (by rw [isSecond_iff, UInt8.toNat_ofNat', UInt8.toNat_ofNat']; omega)
      (by rw [isTail_iff, UInt8.toNat_ofNat']; omega)
      (by rw [isTail_iff, UInt8.toNat_ofNat']; omega),
      hback _ (by rw [low, low, low, UInt8.toNat_ofNat', UInt8.toNat_ofNat', UInt8.toNat_ofNat',
        UInt8.toNat_ofNat']; omega)]
    rfl

theorem decodeFrom_append (r x : Bytes) : decodeFrom r.length (r ++ x) = decodeFrom 0 x := by
  induction r with
  | nil => rfl
  | cons b r ih => exact ih

theorem decodeLossy_encode (s : Text) : decodeLossy (encode s) = s := by
  induction s with
  | nil => rfl
  | cons c s ih =>
    obtain ⟨a, r, hbytes, hhead⟩ := head_encodeChar c (encode s)
    rw [encode_cons, hbytes, decodeLossy, List.cons_append, decodeFrom, hhead, decodeFrom_append]
    exact congrArg (c :: ·) ih

theorem decode?_eq_some_iff {bs : Bytes} {s : Text} : decode? bs = some s ↔ encode s = bs := by
  refine ⟨encode_of_decode?, ?_⟩
  rintro rfl
  rw [decode?, decodeLossy_encode]
  exact if_pos rfl

end ActionItems.Utf8
