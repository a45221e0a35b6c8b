/-
  Fedservice.Entity.Function.PolicyConflicts

  Which conflicts between the operators of a combined claim policy are noticed.
  `checkRule` looks for conflicts only if the operators of both policies together
  are exactly one of a few sets, so a further operator, such as `essential`,
  keeps it from looking.
-/

import Fedservice.Entity.Function.PolicyRestriction

namespace Fedservice.Entity.Function

open Fedservice.Lib Fedservice.Py Fedservice.EntityStatement

variable {ho : HashOrder} {superior child rule : ClaimPolicy}

/-! ## When combine_claim_policy raises PolicyError -/

/-- `essential` goes from something else to False. -/
def EssentialTakenBack (superior child : ClaimPolicy) : Prop :=
  ∃ s, superior.lookup "essential" = some s ∧ child.lookup "essential" = some (.bool false) ∧
    s.norm ≠ (Json.bool false).norm

/-- `one_of` occurs together with another operator that lists values. -/
def OneOfMixed (superior child : ClaimPolicy) : Prop :=
  OperatorKind.oneOf ∈ operatorsOf superior child ∧
    (OperatorKind.subsetOf ∈ operatorsOf superior child ∨
      OperatorKind.supersetOf ∈ operatorsOf superior child)

/-- The check of `essential` passes or raises. -/
theorem checkEssential_verdict (superior child : ClaimPolicy) :
    (EssentialTakenBack superior child ∧ RaisesPolicyError (checkEssential superior child)) ∨
      (¬ EssentialTakenBack superior child ∧ checkEssential superior child = .ok ()) := by
  unfold checkEssential EssentialTakenBack item
  cases hs : superior.lookup "essential" with
  | none =>
      have hnot : "essential" ∉ superior := AList.lookup_eq_none.mp hs
      rw [if_neg (fun h => hnot h.1)]
      exact Or.inr ⟨by simp, rfl⟩
  | some s =>
      cases hc : child.lookup "essential" with
      | none =>
          have hnot : "essential" ∉ child := AList.lookup_eq_none.mp hc
          rw [if_neg (fun h => hnot h.2)]
          exact Or.inr ⟨by simp, rfl⟩
      | some c =>
          rw [if_pos ⟨Dict.mem_iff_lookup.mpr ⟨s, hs⟩, Dict.mem_iff_lookup.mpr ⟨c, hc⟩⟩]
          simp only [except_ok_bind]
          by_cases hback : c = .bool false ∧ s.norm ≠ (Json.bool false).norm
          · -- it takes the claim back
            obtain ⟨rfl, hne⟩ := hback
            have heqv : s.eqv (.bool false) = false := by
              rw [Bool.eq_false_iff]
              exact fun h => hne (Json.eqv_iff.mp h)
            refine Or.inl ⟨⟨s, rfl, rfl, hne⟩, ?_⟩
            rw [if_pos (by simp [heqv])]
            exact raisesPolicyError_throw _
          · have hkept : ¬ (!s.eqv c && decide (c = .bool false)) = true := by
              intro h
              rw [Bool.and_eq_true, Bool.not_eq_true', decide_eq_true_eq] at h
              obtain ⟨hne, rfl⟩ := h
              refine hback ⟨rfl, fun hnorm => ?_⟩
              rw [Json.eqv_iff.mpr hnorm] at hne
              exact absurd hne (by simp)
            refine Or.inr ⟨?_, ?_⟩
            · rintro ⟨s', hs', hc', hne⟩
              obtain rfl := Option.some.inj hs'
              exact hback ⟨Option.some.inj hc', hne⟩
            · rw [if_neg hkept]
              rfl

/-- So does the one of `one_of`. -/
theorem checkOneOf_verdict (superior child : ClaimPolicy) :
    (OneOfMixed superior child ∧ RaisesPolicyError (checkOneOf (operatorsOf superior child))) ∨
      (¬ OneOfMixed superior child ∧ checkOneOf (operatorsOf superior child) = .ok ()) := by
  unfold checkOneOf OneOfMixed
  by_cases h : OperatorKind.oneOf ∈ operatorsOf superior child ∧
      (OperatorKind.subsetOf ∈ operatorsOf superior child ∨
        OperatorKind.supersetOf ∈ operatorsOf superior child)
  · rw [if_pos h]
    exact Or.inl ⟨h, raisesPolicyError_throw _⟩
  · rw [if_neg h]
    exact Or.inr ⟨h, rfl⟩

theorem checkEssential_eq_ok_iff :
    checkEssential superior child = .ok () ↔ ¬ EssentialTakenBack superior child := by
  rcases checkEssential_verdict superior child with ⟨hback, text, herror⟩ | ⟨hnot, hok⟩
  · rw [herror, iff_not_comm]
    exact ⟨fun _ h => absurd h (by simp), fun _ => hback⟩
  · exact ⟨fun _ => hnot, fun _ => hok⟩

theorem checkOneOf_eq_ok_iff :
    checkOneOf (operatorsOf superior child) = .ok () ↔ ¬ OneOfMixed superior child := by
  rcases checkOneOf_verdict superior child with ⟨hmixed, text, herror⟩ | ⟨hnot, hok⟩
  · rw [herror, iff_not_comm]
    exact ⟨fun _ h => absurd h (by simp), fun _ => hmixed⟩
  · exact ⟨fun _ => hnot, fun _ => hok⟩

/-- The branch of `combine_claim_policy` for a superior that sets no value. -/
theorem combineClaimPolicy_of_no_value (hvalue : "value" ∉ superior) :
    combineClaimPolicy ho superior child = (do
      checkEssential superior child
      checkOneOf (operatorsOf superior child)
      let rule ← mergeOperators ho superior child (ho.arrange (operatorsOf superior child))
      checkRule (operatorsOf superior child) rule
      return rule) := by
  have hnot : OperatorKind.value ∉ knownOperators superior :=
    fun h => hvalue (mem_knownOperators.mp h)
  unfold combineClaimPolicy
  rw [if_neg hnot]
  rfl

/-- It returns the merged operators if they pass the checks. -/
theorem combineClaimPolicy_eq_ok_iff (hvalue : "value" ∉ superior) :
    combineClaimPolicy ho superior child = .ok rule ↔
      ¬ EssentialTakenBack superior child ∧ ¬ OneOfMixed superior child ∧
        mergeOperators ho superior child (ho.arrange (operatorsOf superior child)) = .ok rule ∧
        checkRule (operatorsOf superior child) rule = .ok () := by
  rw [combineClaimPolicy_of_no_value hvalue, ← checkEssential_eq_ok_iff, ← checkOneOf_eq_ok_iff]
  constructor
  · intro h
    obtain ⟨⟨⟩, hess, h⟩ := except_bind_eq_ok.mp h
    obtain ⟨⟨⟩, hone, h⟩ := except_bind_eq_ok.mp h
    obtain ⟨merged, hmerge, h⟩ := except_bind_eq_ok.mp h
    obtain ⟨⟨⟩, hcheck, h⟩ := except_bind_eq_ok.mp h
    obtain rfl := except_pure_eq_ok.mp h
    exact ⟨hess, hone, hmerge, hcheck⟩
  · rintro ⟨hess, hone, hmerge, hcheck⟩
    rw [hess, except_ok_bind, hone, except_ok_bind, hmerge, except_ok_bind, hcheck, except_ok_bind]
    rfl

/-- With the operators merged, `PolicyError` is raised by one of the checks. -/
theorem combineClaimPolicy_raises_iff (hvalue : "value" ∉ superior)
    (hrule : mergeOperators ho superior child (ho.arrange (operatorsOf superior child)) =
      .ok rule) :
    RaisesPolicyError (combineClaimPolicy ho superior child) ↔
      EssentialTakenBack superior child ∨ OneOfMixed superior child ∨
        RaisesPolicyError (checkRule (operatorsOf superior child) rule) := by
  rw [combineClaimPolicy_of_no_value hvalue]
  rcases checkEssential_verdict superior child with
    ⟨hback, hraises⟩ | ⟨hback, hok⟩
  · simp [raisesPolicyError_bind, hback, hraises]
  · rw [hok, except_ok_bind, or_iff_right hback]
    rcases checkOneOf_verdict superior child with
      ⟨hmixed, hraises⟩ | ⟨hmixed, hok⟩
    · simp [raisesPolicyError_bind, hmixed, hraises]
    · rw [hok, except_ok_bind, or_iff_right hmixed, hrule, except_ok_bind, raisesPolicyError_bind]
      simp [pure, Except.pure]

/-! ## What the checks for conflicts notice -/

/-- `set(..)` of what the rule has for an operator. -/
def ruleSet (rule : ClaimPolicy) (k : OperatorKind) : Except Exc JsonSet := do
  (← item rule k.name).toSet

/-- Both sets can be had, and the first has a value that the second has not. -/
def Apart (a b : Except Exc JsonSet) : Prop := ∃ s t x, a = .ok s ∧ b = .ok t ∧ x ∈ s ∧ x ∉ t

theorem not_raisesPolicyError_ruleSet {k : OperatorKind} :
    ¬ RaisesPolicyError (ruleSet rule k) := by
  unfold ruleSet
  rw [raisesPolicyError_bind]
  rintro (h | ⟨v, -, h⟩)
  · exact not_raisesPolicyError_item h
  · exact Json.not_raisesPolicyError_toSet h

/-- `requireWithin` passes on sets of which the first is within the second, -/
theorem requireWithin_eq_ok_iff {a b : Except Exc JsonSet} {message : String} {u : Unit} :
    requireWithin a b message = .ok u ↔ (∃ s, a = .ok s) ∧ (∃ t, b = .ok t) ∧ ¬ Apart a b := by
  cases u
  constructor
  · intro h
    obtain ⟨s, t, rfl, rfl, hsub⟩ := requireWithin_eq_ok h
    refine ⟨⟨s, rfl⟩, ⟨t, rfl⟩, ?_⟩
    rintro ⟨s', t', x, hs', ht', hx, hnot⟩
    obtain rfl := Except.ok.inj hs'
    obtain rfl := Except.ok.inj ht'
    exact hnot (hsub x hx)
  · rintro ⟨⟨s, rfl⟩, ⟨t, rfl⟩, hapart⟩
    have hempty : (s.sdiff t).isEmpty = true := by
      rw [KeyedSet.sdiff_isEmpty_iff]
      intro x hx
      by_contra hnot
      exact hapart ⟨s, t, x, rfl, rfl, hx, hnot⟩
    unfold requireWithin
    simp only [except_ok_bind]
    rw [if_pos hempty]
    rfl

/-- and raises `PolicyError` where it is not. -/
theorem requireWithin_raises_iff {a b : Except Exc JsonSet} {message : String}
    (ha : ¬ RaisesPolicyError a) (hb : ¬ RaisesPolicyError b) :
    RaisesPolicyError (requireWithin a b message) ↔ Apart a b := by
  unfold requireWithin
  simp only [raisesPolicyError_bind, or_iff_right ha, or_iff_right hb]
  constructor
  · rintro ⟨s, rfl, t, rfl, h⟩
    by_cases hempty : (s.sdiff t).isEmpty = true
    · rw [if_pos hempty] at h
      exact absurd h (not_raisesPolicyError_ok ())
    · rw [KeyedSet.sdiff_isEmpty_iff] at hempty
      obtain ⟨x, hx⟩ := not_forall.mp hempty
      obtain ⟨hin, hnot⟩ := Classical.not_imp.mp hx
      exact ⟨s, t, x, rfl, rfl, hin, hnot⟩
  · rintro ⟨s, t, x, rfl, rfl, hin, hnot⟩
    refine ⟨s, rfl, t, rfl, ?_⟩
    rw [if_neg (fun h => hnot (KeyedSet.sdiff_isEmpty_iff.mp h x hin))]
    exact raisesPolicyError_throw _

/-- What one check compares and finds apart, for the operators there are. -/
def Finds (ops : List OperatorKind) (rule : ClaimPolicy) : Prop :=
  (isOperatorSet ops [.supersetOf, .subsetOf] = true ∧
      Apart (ruleSet rule .supersetOf) (ruleSet rule .subsetOf)) ∨
    (isOperatorSet ops [.supersetOf, .subsetOf, .default] = true ∧
      (∃ s, ruleSet rule .supersetOf = .ok s) ∧ (∃ t, ruleSet rule .subsetOf = .ok t) ∧
        (Apart (ruleSet rule .supersetOf) (ruleSet rule .subsetOf) ∨
          Apart (ruleSet rule .default) (ruleSet rule .subsetOf) ∨
          Apart (ruleSet rule .supersetOf) (ruleSet rule .default))) ∨
    (isOperatorSet ops [.subsetOf, .default] = true ∧
      Apart (ruleSet rule .default) (ruleSet rule .subsetOf)) ∨
    (isOperatorSet ops [.supersetOf, .default] = true ∧
      Apart (ruleSet rule .supersetOf) (ruleSet rule .default)) ∨
    (isOperatorSet ops [.oneOf, .default] = true ∧
      ∃ dflt, rule.lookup "default" = some dflt ∧ Apart dflt.asSet (ruleSet rule .oneOf)) ∨
    (isOperatorSet ops [.subsetOf, .add] = true ∧
      Apart (ruleSet rule .add) (ruleSet rule .subsetOf)) ∨
    (isOperatorSet ops [.supersetOf, .add] = true ∧
      Apart (ruleSet rule .supersetOf) (ruleSet rule .add))

/-- Operators that are one display compare with another as that one does. -/
theorem isOperatorSet_congr {ops display : List OperatorKind}
    (h : isOperatorSet ops display = true) (other : List OperatorKind) :
    isOperatorSet ops other = isOperatorSet display other := by
  rw [Bool.eq_iff_iff, isOperatorSet_iff, isOperatorSet_iff]
  simp only [isOperatorSet_iff.mp h]

/-- The three comparisons that are made with a default next to both lists. -/
theorem requireAll_raises_iff {a b c : Except Exc JsonSet} {m₁ m₂ m₃ : String}
    (ha : ¬ RaisesPolicyError a) (hb : ¬ RaisesPolicyError b) (hc : ¬ RaisesPolicyError c) :
    RaisesPolicyError (do
        requireWithin a b m₁
        requireWithin c b m₂
        requireWithin a c m₃) ↔
      (∃ s, a = .ok s) ∧ (∃ t, b = .ok t) ∧ (Apart a b ∨ Apart c b ∨ Apart a c) := by
  have hab : RaisesPolicyError (requireWithin a b m₁) ↔ Apart a b := requireWithin_raises_iff ha hb
  have hcb : RaisesPolicyError (requireWithin c b m₂) ↔ Apart c b := requireWithin_raises_iff hc hb
  have hac : RaisesPolicyError (requireWithin a c m₃) ↔ Apart a c := requireWithin_raises_iff ha hc
  simp only [raisesPolicyError_bind, hab, hcb, hac, requireWithin_eq_ok_iff]
  constructor
  · rintro (h | ⟨-, ⟨hs, ht, -⟩, h⟩)
    · have ⟨s, t, _, hs, ht, _⟩ := h
      exact ⟨⟨s, hs⟩, ⟨t, ht⟩, Or.inl h⟩
    · rcases h with h | ⟨-, -, h⟩
      · exact ⟨hs, ht, Or.inr (Or.inl h)⟩
      · exact ⟨hs, ht, Or.inr (Or.inr h)⟩
  · rintro ⟨hs, ht, h⟩
    by_cases h₁ : Apart a b
    · exact Or.inl h₁
    · refine Or.inr ⟨⟨⟩, ⟨hs, ht, h₁⟩, ?_⟩
      by_cases h₂ : Apart c b
      · exact Or.inl h₂
      · -- the last comparison is the one that fails, and it has read `c`
        have h₃ := (h.resolve_left h₁).resolve_left h₂
        have ⟨_, u, _, _, hu, _⟩ := h₃
        exact Or.inr ⟨⟨⟩, ⟨⟨u, hu⟩, ht, h₂⟩, h₃⟩

/-- The checks raise `PolicyError` for what they find. -/
theorem checkRule_raises_iff {ops : List OperatorKind} :
    RaisesPolicyError (checkRule ops rule) ↔ Finds ops rule := by
  have hset : ∀ {k : OperatorKind}, ¬ RaisesPolicyError (ruleSet rule k) :=
    not_raisesPolicyError_ruleSet
  have hwithin : ∀ {k k' : OperatorKind} {message : String},
      RaisesPolicyError (requireWithin (ruleSet rule k) (ruleSet rule k') message) ↔
        Apart (ruleSet rule k) (ruleSet rule k') := requireWithin_raises_iff hset hset
  have hread : ∀ k : OperatorKind, (do (← item rule k.name).toSet) = ruleSet rule k :=
    fun _ => rfl
  unfold checkRule Finds
  -- the checks are tried in turn, and the first that fits the operators is the only one made
  simp only [hread]
  by_cases h₁ : isOperatorSet ops [.supersetOf, .subsetOf] = true
  · rw [if_pos h₁]
    simp only [isOperatorSet_congr h₁]
    simpa [isOperatorSet] using hwithin
  rw [if_neg h₁]
  by_cases h₂ : isOperatorSet ops [.supersetOf, .subsetOf, .default] = true
  · rw [if_pos h₂]
    simp only [isOperatorSet_congr h₂]
    simpa [isOperatorSet] using requireAll_raises_iff hset hset hset
  rw [if_neg h₂]
  by_cases h₃ : isOperatorSet ops [.subsetOf, .default] = true
  · rw [if_pos h₃]
    simp only [isOperatorSet_congr h₃]
    simpa [isOperatorSet] using hwithin
  rw [if_neg h₃]
  by_cases h₄ : isOperatorSet ops [.supersetOf, .default] = true
  · rw [if_pos h₄]
    simp only [isOperatorSet_congr h₄]
    simpa [isOperatorSet] using hwithin
  rw [if_neg h₄]
  by_cases h₅ : isOperatorSet ops [.oneOf, .default] = true
  · rw [if_pos h₅]
    simp only [isOperatorSet_congr h₅, raisesPolicyError_bind, or_iff_right not_raisesPolicyError_item,
      item_eq_ok, requireWithin_raises_iff Json.not_raisesPolicyError_asSet hset]
    simp [isOperatorSet, OperatorKind.name]
  rw [if_neg h₅]
  by_cases h₆ : isOperatorSet ops [.subsetOf, .add] = true
  · rw [if_pos h₆]
    simp only [isOperatorSet_congr h₆]
    simpa [isOperatorSet] using hwithin
  rw [if_neg h₆]
  by_cases h₇ : isOperatorSet ops [.supersetOf, .add] = true
  · rw [if_pos h₇]
    simp only [isOperatorSet_congr h₇]
    simpa [isOperatorSet] using hwithin
  rw [if_neg h₇]
  -- no check fits
  simp [h₁, h₂, h₃, h₄, h₅, h₆, h₇, pure, Except.pure]

/-! ## Conflicts -/

/-- What one operator has holds a value that another one does not list. -/
def Outside (rule : ClaimPolicy) (k lists : OperatorKind) : Prop :=
  ∃ v p x, rule.lookup k.name = some v ∧ rule.lookup lists.name = some p ∧ v.Holds x ∧ ¬ p.Lists x

/-- What an operator has does not hold all that `superset_of` lists. -/
def Uncovered (rule : ClaimPolicy) (k : OperatorKind) : Prop :=
  ∃ v p x, rule.lookup k.name = some v ∧ rule.lookup "superset_of" = some p ∧ p.Lists x ∧
    ¬ v.Holds x

/-- Operators of which the values of the first have to be listed by the second. -/
def withinPairs : List (OperatorKind × OperatorKind) :=
  [(.supersetOf, .subsetOf), (.default, .subsetOf), (.default, .oneOf), (.add, .subsetOf),
    (.value, .oneOf), (.value, .subsetOf)]

/-- The merged operators contradict each other. -/
inductive Conflict (rule : ClaimPolicy) : Prop
  | outside (pair : OperatorKind × OperatorKind) (hpair : pair ∈ withinPairs)
      (h : Outside rule pair.1 pair.2)
  | uncovered (k : OperatorKind) (hk : k = .default ∨ k = .value) (h : Uncovered rule k)

/-- The operators that are compared with each other where there is nothing else. -/
def comparedSets : List (List OperatorKind) :=
  [[.supersetOf, .subsetOf], [.supersetOf, .subsetOf, .default], [.subsetOf, .default],
    [.supersetOf, .default], [.oneOf, .default], [.subsetOf, .add]]

/-- The operators on sets, and the default, are lists of values that have a hash. -/
def PlainLists (rule : ClaimPolicy) : Prop :=
  ∀ k ∈ [OperatorKind.subsetOf, .supersetOf, .oneOf, .add, .default], ∀ v,
    rule.lookup k.name = some v → v.isList = true ∧ ∃ s, v.toSet = .ok s

/-- In plain lists a conflict shows to `set()`. -/
theorem apart_of_outside {k lists : OperatorKind} {v p x : Json} (hv : rule.lookup k.name = some v)
    (hp : rule.lookup lists.name = some p) (hlist : v.isList = true) (hread : ∃ s, v.toSet = .ok s)
    (hread' : ∃ t, p.toSet = .ok t) (hx : v.Holds x) (hnot : ¬ p.Lists x) :
    Apart (ruleSet rule k) (ruleSet rule lists) := by
  obtain ⟨s, hs⟩ := hread
  obtain ⟨t, ht⟩ := hread'
  obtain ⟨xs, rfl⟩ := Json.isList_iff.mp hlist
  refine ⟨s, t, x, ?_, ?_, (Json.mem_toSet hs).mpr (Json.lists_arr.mpr hx),
    fun h => hnot ((Json.mem_toSet ht).mp h)⟩
  · rw [ruleSet, item_eq_ok.mpr hv, except_ok_bind, hs]
  · rw [ruleSet, item_eq_ok.mpr hp, except_ok_bind, ht]

/-- The comparisons that are made somewhere for a conflict. -/
def comparedPairs : List (OperatorKind × OperatorKind) :=
  [(.supersetOf, .subsetOf), (.default, .subsetOf), (.default, .oneOf), (.add, .subsetOf),
    (.supersetOf, .default)]

/-- Among the operators of one comparison a conflict is one that can be compared. -/
theorem compared_of_conflict {display : List OperatorKind} (hplain : PlainLists rule)
    (hdisplay : display ∈ comparedSets) (hops : ∀ k : OperatorKind, k.name ∈ rule → k ∈ display)
    (hconflict : Conflict rule) :
    ∃ pair ∈ comparedPairs, pair.1 ∈ display ∧ pair.2 ∈ display ∧
      Apart (ruleSet rule pair.1) (ruleSet rule pair.2) := by
  have hlists : ∀ display ∈ comparedSets, ∀ k ∈ display,
      k ∈ [OperatorKind.subsetOf, .supersetOf, .oneOf, .add, .default] := by decide
  have hin : ∀ {k : OperatorKind} {v}, rule.lookup k.name = some v → k ∈ display :=
    fun hv => hops _ (Dict.mem_iff_lookup.mpr ⟨_, hv⟩)
  have hread : ∀ {k : OperatorKind} {v}, rule.lookup k.name = some v →
      v.isList = true ∧ ∃ s, v.toSet = .ok s :=
    fun hv => hplain _ (hlists display hdisplay _ (hin hv)) _ hv
  rcases hconflict with ⟨pair, hpair, v, p, x, hv, hp, hx, hnot⟩ | ⟨k, hk, v, p, x, hv, hp, hx, hnot⟩
  · -- a value is among the operators of no comparison
    have hvalue : ∀ display ∈ comparedSets, ∀ pair ∈ withinPairs, pair.1 ∈ display →
        pair ∈ comparedPairs := by decide
    exact ⟨pair, hvalue display hdisplay pair hpair (hin hv), hin hv, hin hp,
      apart_of_outside hv hp (hread hv).1 (hread hv).2 (hread hp).2 hx hnot⟩
  · have hp' : rule.lookup OperatorKind.supersetOf.name = some p := hp
    have hvalue : ∀ display ∈ comparedSets, OperatorKind.value ∉ display := by decide
    rcases hk with rfl | rfl
    · obtain ⟨xs, rfl⟩ := Json.isList_iff.mp (hread hv).1
      obtain ⟨ys, rfl⟩ := Json.isList_iff.mp (hread hp').1
      exact ⟨(.supersetOf, .default), by decide, hin hp', hin hv,
        apart_of_outside hp' hv rfl (hread hp').2 (hread hv).2 (Json.lists_arr.mp hx)
          (fun h => hnot (Json.lists_arr.mp h))⟩
    · exact absurd (hin hv) (hvalue display hdisplay)

/-- The sets of operators that there is one comparison for, and what it compares. -/
def singleComparisons : List (List OperatorKind × OperatorKind × OperatorKind) :=
  [([.supersetOf, .subsetOf], .supersetOf, .subsetOf), ([.subsetOf, .default], .default, .subsetOf),
    ([.supersetOf, .default], .supersetOf, .default), ([.oneOf, .default], .default, .oneOf),
    ([.subsetOf, .add], .add, .subsetOf)]

theorem eq_of_singleComparison {display : List OperatorKind} {k k' : OperatorKind}
    {pair : OperatorKind × OperatorKind} (hsingle : (display, k, k') ∈ singleComparisons)
    (hpair : pair ∈ comparedPairs) (h₁ : pair.1 ∈ display) (h₂ : pair.2 ∈ display) :
    pair = (k, k') := by
  have hall : ∀ entry ∈ singleComparisons, ∀ pair ∈ comparedPairs,
      pair.1 ∈ entry.1 → pair.2 ∈ entry.1 → pair = entry.2 := by decide
  exact hall _ hsingle pair hpair h₁ h₂

/-- Next to both lists the default may be in any of three comparisons. -/
theorem pair_with_default {pair : OperatorKind × OperatorKind} (hpair : pair ∈ comparedPairs)
    (h₁ : pair.1 ∈ [OperatorKind.supersetOf, .subsetOf, .default])
    (h₂ : pair.2 ∈ [OperatorKind.supersetOf, .subsetOf, .default]) :
    pair = (.supersetOf, .subsetOf) ∨ pair = (.default, .subsetOf) ∨
      pair = (.supersetOf, .default) := by
  have hall : ∀ pair ∈ comparedPairs,
      pair.1 ∈ [OperatorKind.supersetOf, .subsetOf, .default] →
        pair.2 ∈ [OperatorKind.supersetOf, .subsetOf, .default] →
          pair = (.supersetOf, .subsetOf) ∨ pair = (.default, .subsetOf) ∨
            pair = (.supersetOf, .default) := by decide
  exact hall pair hpair h₁ h₂

/-- What a rule has for an operator on sets can be read, in plain lists. -/
theorem PlainLists.exists_ruleSet (hplain : PlainLists rule) {k : OperatorKind}
    (hk : k ∈ [OperatorKind.subsetOf, .supersetOf, .oneOf, .add, .default]) (hin : k.name ∈ rule) :
    ∃ s, ruleSet rule k = .ok s := by
  obtain ⟨v, hv⟩ := Dict.mem_iff_lookup.mp hin
  obtain ⟨-, s, hs⟩ := hplain k hk v hv
  exact ⟨s, by rw [ruleSet, item_eq_ok.mpr hv, except_ok_bind, hs]⟩

/-- A default that is a list is read like the lists. -/
theorem PlainLists.ruleSet_default (hplain : PlainLists rule) {dflt : Json}
    (hdflt : rule.lookup "default" = some dflt) : ruleSet rule .default = dflt.asSet := by
  have hlist := (hplain .default (by decide) dflt hdflt).1
  have hitem : item rule OperatorKind.default.name = .ok dflt := item_eq_ok.mpr hdflt
  rw [ruleSet, hitem, except_ok_bind, Json.asSet_of_isList hlist]

/-- Each set of operators has the comparison that a conflict among them is about. -/
theorem finds_of_compared {ops display : List OperatorKind} (hplain : PlainLists rule)
    (hops : ∀ k : OperatorKind, k.name ∈ rule ↔ k ∈ display) (hdisplay : display ∈ comparedSets)
    (hset : isOperatorSet ops display = true) {pair : OperatorKind × OperatorKind}
    (hpair : pair ∈ comparedPairs) (h₁ : pair.1 ∈ display) (h₂ : pair.2 ∈ display)
    (hapart : Apart (ruleSet rule pair.1) (ruleSet rule pair.2)) : Finds ops rule := by
  unfold Finds
  simp only [comparedSets, List.mem_cons, List.not_mem_nil, or_false] at hdisplay
  rcases hdisplay with rfl | rfl | rfl | rfl | rfl | rfl
  · obtain rfl : pair = (.supersetOf, .subsetOf) :=
      eq_of_singleComparison (by decide) hpair h₁ h₂
    exact Or.inl ⟨hset, hapart⟩
  · have hsuper := hplain.exists_ruleSet (by decide) ((hops .supersetOf).mpr (by decide))
    have hsub := hplain.exists_ruleSet (by decide) ((hops .subsetOf).mpr (by decide))
    refine Or.inr (Or.inl ⟨hset, hsuper, hsub, ?_⟩)
    rcases pair_with_default hpair h₁ h₂ with rfl | rfl | rfl
    · exact Or.inl hapart
    · exact Or.inr (Or.inl hapart)
    · exact Or.inr (Or.inr hapart)
  · obtain rfl : pair = (.default, .subsetOf) :=
      eq_of_singleComparison (by decide) hpair h₁ h₂
    exact Or.inr (Or.inr (Or.inl ⟨hset, hapart⟩))
  · obtain rfl : pair = (.supersetOf, .default) :=
      eq_of_singleComparison (by decide) hpair h₁ h₂
    exact Or.inr (Or.inr (Or.inr (Or.inl ⟨hset, hapart⟩)))
  · obtain rfl : pair = (.default, .oneOf) :=
      eq_of_singleComparison (by decide) hpair h₁ h₂
    obtain ⟨dflt, hdflt⟩ := Dict.mem_iff_lookup.mp ((hops .default).mpr h₁)
    rw [hplain.ruleSet_default hdflt] at hapart
    exact Or.inr (Or.inr (Or.inr (Or.inr (Or.inl ⟨hset, dflt, hdflt, hapart⟩))))
  · obtain rfl : pair = (.add, .subsetOf) :=
      eq_of_singleComparison (by decide) hpair h₁ h₂
    exact Or.inr (Or.inr (Or.inr (Or.inr (Or.inr (Or.inl ⟨hset, hapart⟩)))))

/-- There is no conflict between `superset_of` and `add`. -/
theorem not_conflict_of_supersetOf_add
    (hops : ∀ k : OperatorKind, k.name ∈ rule → k ∈ [OperatorKind.supersetOf, .add]) :
    ¬ Conflict rule := by
  have hin : ∀ {k : OperatorKind} {v}, rule.lookup k.name = some v →
      k ∈ [OperatorKind.supersetOf, .add] :=
    fun hv => hops _ (Dict.mem_iff_lookup.mpr ⟨_, hv⟩)
  -- neither of them limits what another one may have
  have hpairs : ∀ pair ∈ withinPairs, pair.2 ∉ [OperatorKind.supersetOf, .add] := by decide
  rintro (⟨pair, hpair, v, p, x, -, hp, -⟩ | ⟨k, hk, v, p, x, hv, -⟩)
  · exact hpairs pair hpair (hin hp)
  · rcases hk with rfl | rfl
    · exact absurd (hin hv) (by decide)
    · exact absurd (hin hv) (by decide)

/-- Where there is nothing but the operators of one comparison, in plain lists, the conflict
    is found. -/
theorem finds_iff_of_plain {ops : List OperatorKind} (hplain : PlainLists rule)
    (hops : ∀ k : OperatorKind, k.name ∈ rule ↔ k ∈ ops) (hconflict : Conflict rule) :
    Finds ops rule ↔ ∃ display ∈ comparedSets, isOperatorSet ops display = true := by
  have hmem : ∀ {display}, isOperatorSet ops display = true →
      ∀ k : OperatorKind, k.name ∈ rule ↔ k ∈ display :=
    fun hset k => (hops k).trans (isOperatorSet_iff.mp hset k)
  constructor
  · rintro (⟨h, -⟩ | ⟨h, -⟩ | ⟨h, -⟩ | ⟨h, -⟩ | ⟨h, -⟩ | ⟨h, -⟩ | ⟨h, -⟩)
    · exact ⟨_, by decide, h⟩
    · exact ⟨_, by decide, h⟩
    · exact ⟨_, by decide, h⟩
    · exact ⟨_, by decide, h⟩
    · exact ⟨_, by decide, h⟩
    · exact ⟨_, by decide, h⟩
    · exact absurd hconflict (not_conflict_of_supersetOf_add fun k => (hmem h k).mp)
  · rintro ⟨display, hdisplay, hset⟩
    obtain ⟨pair, hpair, h₁, h₂, hapart⟩ :=
      compared_of_conflict hplain hdisplay (fun k => (hmem hset k).mp) hconflict
    exact finds_of_compared hplain (hmem hset) hdisplay hset hpair h₁ h₂ hapart

/-- The operators on sets are given as lists. -/
def ListValued (policy : ClaimPolicy) : Prop :=
  ∀ k ∈ [OperatorKind.subsetOf, .supersetOf, .oneOf, .add],
    (policy.lookup k.name).all Json.isList = true

instance : DecidablePred ListValued := fun policy =>
  inferInstanceAs (Decidable (∀ k ∈ [OperatorKind.subsetOf, .supersetOf, .oneOf, .add],
    (policy.lookup k.name).all Json.isList = true))

/-- Of two policies, the superior's without a value, whose merged operators contradict each
    other: `PolicyError` is raised exactly if `essential` is taken back, `one_of` is mixed
    with another list, or the operators are exactly those of one of the comparisons, which
    then finds the conflict (as it does in plain lists). -/
theorem conflict_noticed_iff (superior child rule : ClaimPolicy) (hvalue : "value" ∉ superior)
    (hrule : mergeOperators ho superior child (ho.arrange (operatorsOf superior child)) =
      .ok rule)
    (hconflict : Conflict rule) :
    (RaisesPolicyError (combineClaimPolicy ho superior child) ↔
        EssentialTakenBack superior child ∨ OneOfMixed superior child ∨
          Finds (operatorsOf superior child) rule) ∧
      (PlainLists rule →
        (RaisesPolicyError (combineClaimPolicy ho superior child) ↔
          EssentialTakenBack superior child ∨ OneOfMixed superior child ∨
            ∃ display ∈ comparedSets,
              isOperatorSet (operatorsOf superior child) display = true)) := by
  have hverdict := combineClaimPolicy_raises_iff hvalue hrule
  rw [checkRule_raises_iff] at hverdict
  refine ⟨hverdict, fun hplain => ?_⟩
  have hops : ∀ k : OperatorKind, k.name ∈ rule ↔ k ∈ operatorsOf superior child := by
    intro k
    rw [(mergedOperators_of_mergeOperators hrule).mem_iff, mem_operatorsOf]
  -- the operators of the rule are those of both policies, so plain lists decide what is found
  rw [hverdict, finds_iff_of_plain hplain hops hconflict]

/-- A superior that lists one value, -/
def listsA : ClaimPolicy := Dict.ofList [("subset_of", .arr [.str "A"])]

/-- and a subordinate that asks for another one. -/
def asksForB (more : List (String × Json)) : ClaimPolicy :=
  Dict.ofList (("superset_of", .arr [.str "B"]) :: more)

theorem conflict_noticed_iff_lists :
    RaisesPolicyError (combineClaimPolicy .insertion listsA (asksForB [])) ↔
      EssentialTakenBack listsA (asksForB []) ∨ OneOfMixed listsA (asksForB []) ∨
        Finds (operatorsOf listsA (asksForB []))
          (Dict.ofList [("subset_of", .arr [.str "A"]), ("superset_of", .arr [.str "B"])]) :=
  (@conflict_noticed_iff .insertion listsA (asksForB []) _ (by decide) rfl
    (.outside (.supersetOf, .subsetOf) (by decide)
      ⟨_, _, .str "B", rfl, rfl, ⟨.str "B", by simp [Json.held], rfl⟩, by
        simp [Json.Holds, Json.held, Json.norm]⟩)).1

/-- With `essential` next to it nobody looks. -/
theorem essential_hides_conflict :
    ¬ ∀ superior child rule : ClaimPolicy, "value" ∉ superior → ListValued superior →
      ListValued child →
      mergeOperators .insertion superior child
        (HashOrder.insertion.arrange (operatorsOf superior child)) = .ok rule →
      Conflict rule → RaisesPolicyError (combineClaimPolicy .insertion superior child) := by
  intro h
  obtain ⟨text, herror⟩ := h listsA (asksForB [("essential", .bool true)]) _
    (by decide) (by decide) (by decide) rfl
    (.outside (.supersetOf, .subsetOf) (by decide)
      ⟨_, _, .str "B", rfl, rfl, ⟨.str "B", by simp [Json.held], rfl⟩, by
        simp [Json.Holds, Json.held, Json.norm]⟩)
  -- three operators, for which there is no comparison
  have hok : (combineClaimPolicy .insertion listsA (asksForB [("essential", .bool true)])).isOk =
      true := by decide +kernel
  rw [herror] at hok
  simp [Except.isOk, Except.toBool] at hok

end Fedservice.Entity.Function
