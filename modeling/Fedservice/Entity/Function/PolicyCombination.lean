/-
  Fedservice.Entity.Function.PolicyCombination

  What `combine_claim_policy` returns when it does not raise.  Under a superior
  that sets a value the result is one of three (`combineUnderValue_eq_ok`);
  otherwise it has the operators of both sides, each merged on its own
  (`Merged`).  Everything later is derived from these two.
-/

import Fedservice.Entity.Function.Policy

namespace Fedservice.Entity.Function

open Fedservice.Lib Fedservice.Py Fedservice.EntityStatement

variable {ho : HashOrder} {superior child policy rule : ClaimPolicy}

/-! ## The operators of a policy -/

theorem mem_policyFunctions (k : OperatorKind) : k ∈ policyFunctions := by
  cases k <;> decide

@[simp] theorem mem_knownOperators {k : OperatorKind} :
    k ∈ knownOperators policy ↔ k.name ∈ policy := by
  simp [knownOperators, mem_policyFunctions]

/-- `comb_policy`: the operators of either policy. -/
def operatorsOf (superior child : ClaimPolicy) : List OperatorKind :=
  policyFunctions.filter
    (fun k => decide (k ∈ knownOperators superior) || decide (k ∈ knownOperators child))

theorem mem_operatorsOf {k : OperatorKind} :
    k ∈ operatorsOf superior child ↔ k.name ∈ superior ∨ k.name ∈ child := by
  simp [operatorsOf, mem_policyFunctions]

/-! ## Merging -/

/-- `policy` has the operators of both sides, each merged on its own. -/
structure MergedOperators (ho : HashOrder) (superior child policy : ClaimPolicy) : Prop where
  operator : ∀ k : OperatorKind, k.name ∈ superior ∨ k.name ∈ child →
    ∃ v, doPolicy ho k superior child k = .ok v ∧ policy.lookup k.name = some v
  only : ∀ n, (∀ k : OperatorKind, k.name ∈ superior ∨ k.name ∈ child → n ≠ k.name) →
    policy.lookup n = none

/-- An operator of the merged policy comes from one of the sides. -/
theorem MergedOperators.mem_iff (h : MergedOperators ho superior child policy)
    {k : OperatorKind} : k.name ∈ policy ↔ k.name ∈ superior ∨ k.name ∈ child := by
  constructor
  · intro hk
    by_contra hnot
    have hother : ∀ k' : OperatorKind, k'.name ∈ superior ∨ k'.name ∈ child → k.name ≠ k'.name :=
      fun k' hk' hname => hnot (OperatorKind.name_injective hname ▸ hk')
    exact absurd hk (AList.lookup_eq_none.mp (h.only k.name hother))
  · intro hk
    obtain ⟨v, -, hv⟩ := h.operator k hk
    exact Dict.mem_iff_lookup.mpr ⟨v, hv⟩

/-- What the loop over the operators merges. -/
theorem mergedOperators_of_mergeOperators
    (h : mergeOperators ho superior child (ho.arrange (operatorsOf superior child)) =
      .ok policy) : MergedOperators ho superior child policy := by
  obtain ⟨hall, hframe⟩ := Dict.insertEach_eq_ok OperatorKind.name_injective h
  refine ⟨fun k hk => hall k (ho.mem_arrange.mpr (mem_operatorsOf.mpr hk)), fun n hn => ?_⟩
  rw [hframe n (fun k hk => hn k (mem_operatorsOf.mp (ho.mem_arrange.mp hk))), AList.lookup_empty]

/-- The merged policy has the operators of either side. -/
theorem MergedOperators.knownOperators_eq (h : MergedOperators ho superior child policy) :
    knownOperators policy = operatorsOf superior child := by
  refine List.filter_congr (fun k _ => ?_)
  rw [Bool.eq_iff_iff, decide_eq_true_eq, h.mem_iff, Bool.or_eq_true, decide_eq_true_eq,
    decide_eq_true_eq, mem_knownOperators, mem_knownOperators]

/-- An operator that both sides have is combined, and what comes out may not be empty. -/
theorem doSubOneSuperAdd_of_both {k : OperatorKind} {s c v : Json}
    (hs : superior.lookup k.name = some s) (hc : child.lookup k.name = some c) :
    doSubOneSuperAdd ho superior child k = .ok v ↔
      op2func ho k s c = .ok v ∧ v.truthy = true := by
  simp only [doSubOneSuperAdd, hs, hc]
  constructor
  · intro h
    obtain ⟨comb, hcomb, h⟩ := except_bind_eq_ok.mp h
    cases ht : comb.truthy with
    | false => simp [ht] at h
    | true =>
        rw [ht, if_pos rfl] at h
        obtain rfl := except_pure_eq_ok.mp h
        exact ⟨hcomb, ht⟩
  · rintro ⟨hcomb, htruthy⟩
    rw [hcomb, except_ok_bind, if_pos htruthy]
    rfl

/-- An operator that one side lacks is taken over from the other. -/
theorem doPolicy_onlyOne (k : OperatorKind)
    (h : superior.lookup k.name = none ∨ child.lookup k.name = none) :
    doPolicy ho k superior child k =
      onlyOne (superior.lookup k.name) (child.lookup k.name) := by
  rcases h with h | h
  · cases k <;> simp only [doPolicy, doSubOneSuperAdd, doValue, doDefault, doEssential, h]
  · cases hs : superior.lookup k.name <;> cases k <;>
      simp only [doPolicy, doSubOneSuperAdd, doValue, doDefault, doEssential, h, hs]

/-- So it is in the merged policy as that side has it. -/
theorem MergedOperators.lookup_of_one (h : MergedOperators ho superior child policy)
    (k : OperatorKind) :
    (child.lookup k.name = none → policy.lookup k.name = superior.lookup k.name) ∧
      (superior.lookup k.name = none → policy.lookup k.name = child.lookup k.name) := by
  have hone : superior.lookup k.name = none ∨ child.lookup k.name = none →
      policy.lookup k.name = (superior.lookup k.name).or (child.lookup k.name) := by
    intro hnone
    by_cases hmem : k.name ∈ superior ∨ k.name ∈ child
    · obtain ⟨v, hdo, hv⟩ := h.operator k hmem
      rw [doPolicy_onlyOne k hnone] at hdo
      rw [hv]
      cases hs : superior.lookup k.name with
      | some s =>
          rw [hs] at hdo
          rw [← Except.ok.inj hdo, Option.some_or]
      | none =>
          cases hc : child.lookup k.name with
          | some c =>
              rw [hs, hc] at hdo
              rw [← Except.ok.inj hdo, Option.none_or]
          | none =>
              rcases hmem with hin | hin
              · exact absurd hin (AList.lookup_eq_none.mp hs)
              · exact absurd hin (AList.lookup_eq_none.mp hc)
    · have hnot : k.name ∉ policy := fun hin => hmem (h.mem_iff.mp hin)
      obtain ⟨hs, hc⟩ := not_or.mp hmem
      rw [AList.lookup_eq_none.mpr hnot, AList.lookup_eq_none.mpr hs,
        AList.lookup_eq_none.mpr hc, Option.none_or]
  constructor
  · intro hnone
    rw [hone (Or.inr hnone), hnone, Option.or_none]
  · intro hnone
    rw [hone (Or.inl hnone), hnone, Option.none_or]

/-- What `combine_claim_policy` merges under a superior without a value, and the
    checks for conflicts that the result has passed. -/
structure Merged (ho : HashOrder) (superior child policy : ClaimPolicy) : Prop
    extends MergedOperators ho superior child policy where
  oneOf_alone : OperatorKind.oneOf.name ∈ policy →
    OperatorKind.subsetOf.name ∉ policy ∧ OperatorKind.supersetOf.name ∉ policy
  checked : checkRule (knownOperators policy) policy = .ok ()

/-! ## The checks for conflicts -/

theorem isOperatorSet_iff {ops display : List OperatorKind} :
    isOperatorSet ops display = true ↔ ∀ k, k ∈ ops ↔ k ∈ display := by
  simp only [isOperatorSet, Bool.and_eq_true, List.all_eq_true, decide_eq_true_eq]
  exact ⟨fun h k => ⟨h.1 k, h.2 k⟩, fun h => ⟨fun k => (h k).mp, fun k => (h k).mpr⟩⟩

theorem requireWithin_eq_ok {a b : Except Exc JsonSet} {message : String}
    (h : requireWithin a b message = .ok ()) :
    ∃ s t, a = .ok s ∧ b = .ok t ∧ ∀ x ∈ s, x ∈ t := by
  obtain ⟨s, hs, h⟩ := except_bind_eq_ok.mp h
  obtain ⟨t, ht, h⟩ := except_bind_eq_ok.mp h
  refine ⟨s, t, hs, ht, KeyedSet.sdiff_isEmpty_iff.mp ?_⟩
  by_contra hne
  rw [if_neg hne] at h
  exact except_throw_ne_ok h

/-- With `subset_of` and `add` alone the added values have to be listed. -/
theorem checkRule_subsetOf_add {ops : List OperatorKind} {a p x : Json}
    (hops : ∀ k, k ∈ ops ↔ k = .subsetOf ∨ k = .add)
    (ha : rule.lookup "add" = some a) (hp : rule.lookup "subset_of" = some p)
    (h : checkRule ops rule = .ok ()) (hx : a.Lists x) : p.Lists x := by
  -- the other displays do not match, the first five for lack of `add`
  have hother : ∀ display, (∃ k, ¬ ((k = .subsetOf ∨ k = .add) ↔ k ∈ display)) →
      ¬ isOperatorSet ops display = true := by
    rintro display ⟨k, hk⟩ hset
    exact hk ((hops k).symm.trans (isOperatorSet_iff.mp hset k))
  unfold checkRule at h
  simp only at h
  rw [if_neg (hother _ ⟨.add, by decide⟩), if_neg (hother _ ⟨.add, by decide⟩),
    if_neg (hother _ ⟨.add, by decide⟩), if_neg (hother _ ⟨.add, by decide⟩),
    if_neg (hother _ ⟨.add, by decide⟩),
    if_pos (isOperatorSet_iff.mpr (fun k => by rw [hops]; simp))] at h
  obtain ⟨s, t, hs, ht, hsub⟩ := requireWithin_eq_ok h
  obtain ⟨a', ha', hs⟩ := except_bind_eq_ok.mp hs
  obtain ⟨p', hp', ht⟩ := except_bind_eq_ok.mp ht
  obtain rfl : a' = a := Option.some.inj ((item_eq_ok.mp ha').symm.trans ha)
  obtain rfl : p' = p := Option.some.inj ((item_eq_ok.mp hp').symm.trans hp)
  exact (Json.mem_toSet ht).mp (hsub x ((Json.mem_toSet hs).mpr hx))

/-! ## combine_claim_policy -/

/-- Under a superior that sets a value: nothing to add, `essential` next to the
    value, or the same value again. -/
theorem combineUnderValue_eq_ok
    (h : combineUnderValue superior child (knownOperators child) = .ok policy) :
    ((∀ k : OperatorKind, k.name ∉ child) ∧ policy = superior) ∨
      ((∀ k : OperatorKind, k.name ∈ child ↔ k = .essential) ∧
        policy.lookup "value" = superior.lookup "value" ∧
        policy.lookup "essential" = child.lookup "essential" ∧
        ∀ n, n ≠ "value" → n ≠ "essential" → policy.lookup n = none) ∨
      ("essential" ∉ child ∧
        (∃ v w, superior.lookup "value" = some v ∧ child.lookup "value" = some w ∧
          w.eqv v = true) ∧ policy = superior) := by
  unfold combineUnderValue at h
  -- the branches of the source, in its order: an empty child, `essential` alone
  -- or with others, the same or another value, anything else
  by_cases hempty : (knownOperators child).isEmpty = true
  · rw [if_pos hempty] at h
    refine Or.inl ⟨fun k hk => ?_, (except_pure_eq_ok.mp h).symm⟩
    have hmem := mem_knownOperators.mpr hk
    rw [List.isEmpty_iff.mp hempty] at hmem
    exact List.not_mem_nil hmem
  · rw [if_neg hempty] at h
    by_cases hess : OperatorKind.essential ∈ knownOperators child
    · rw [if_pos hess] at h
      by_cases hlen : (knownOperators child).length = 1
      · rw [if_pos hlen] at h
        obtain ⟨v, hv, h⟩ := except_bind_eq_ok.mp h
        obtain ⟨e, he, h⟩ := except_bind_eq_ok.mp h
        obtain rfl := except_pure_eq_ok.mp h
        obtain ⟨k₀, hk₀⟩ := List.length_eq_one_iff.mp hlen
        obtain rfl : OperatorKind.essential = k₀ := by simpa [hk₀] using hess
        refine Or.inr (Or.inl ⟨fun k => ?_, ?_, ?_, fun n hn hn' => ?_⟩)
        · rw [← mem_knownOperators, hk₀, List.mem_singleton]
        · rw [item_eq_ok.mp hv]
          rfl
        · rw [item_eq_ok.mp he]
          rfl
        · rw [Dict.ofList, List.foldl_cons, List.foldl_cons, List.foldl_nil,
            AList.lookup_insert_ne hn', AList.lookup_insert_ne hn]
          rfl
      · rw [if_neg hlen] at h
        exact absurd h except_throw_ne_ok
    · rw [if_neg hess] at h
      by_cases hval : OperatorKind.value ∈ knownOperators child
      · rw [if_pos hval] at h
        obtain ⟨w, hw, h⟩ := except_bind_eq_ok.mp h
        obtain ⟨v, hv, h⟩ := except_bind_eq_ok.mp h
        cases heqv : w.eqv v with
        | false => simp [heqv] at h
        | true =>
            simp only [heqv, Bool.not_true, Bool.false_eq_true, if_false, except_pure_eq_ok] at h
            exact Or.inr (Or.inr ⟨fun hc => hess (mem_knownOperators.mpr hc),
              ⟨v, w, item_eq_ok.mp hv, item_eq_ok.mp hw, heqv⟩, h.symm⟩)
      · rw [if_neg hval] at h
        exact absurd h except_throw_ne_ok

/-- A value set by the superior is in the result. -/
theorem value_of_combineUnderValue (hsup : "value" ∈ superior)
    (h : combineUnderValue superior child (knownOperators child) = .ok policy) :
    "value" ∈ policy := by
  obtain ⟨v, hv⟩ := Dict.mem_iff_lookup.mp hsup
  rcases combineUnderValue_eq_ok h with ⟨-, rfl⟩ | ⟨-, hlook, -⟩ | ⟨-, -, rfl⟩
  · exact hsup
  · exact Dict.mem_iff_lookup.mpr ⟨v, hlook.trans hv⟩
  · exact hsup

theorem checkOneOf_eq_ok {combPolicy : List OperatorKind} (h : checkOneOf combPolicy = .ok ()) :
    OperatorKind.oneOf ∈ combPolicy →
      OperatorKind.subsetOf ∉ combPolicy ∧ OperatorKind.supersetOf ∉ combPolicy := by
  intro hone
  by_contra hnot
  have hboth : OperatorKind.oneOf ∈ combPolicy ∧
      (OperatorKind.subsetOf ∈ combPolicy ∨ OperatorKind.supersetOf ∈ combPolicy) :=
    ⟨hone, by by_contra hno; exact hnot (not_or.mp hno)⟩
  rw [checkOneOf, if_pos hboth] at h
  exact except_throw_ne_ok h

/-- The two ways `combine_claim_policy` returns. -/
theorem combineClaimPolicy_eq_ok (h : combineClaimPolicy ho superior child = .ok policy) :
    ("value" ∈ superior ∧ combineUnderValue superior child (knownOperators child) = .ok policy) ∨
      ("value" ∉ superior ∧ Merged ho superior child policy) := by
  unfold combineClaimPolicy at h
  by_cases hval : OperatorKind.value ∈ knownOperators superior
  · rw [if_pos hval] at h
    exact Or.inl ⟨mem_knownOperators.mp hval, h⟩
  · rw [if_neg hval] at h
    refine Or.inr ⟨fun hv => hval (mem_knownOperators.mpr hv), ?_⟩
    obtain ⟨-, -, h⟩ := except_bind_eq_ok.mp h
    obtain ⟨⟨⟩, hone, h⟩ := except_bind_eq_ok.mp h
    obtain ⟨rule, hmerge, h⟩ := except_bind_eq_ok.mp h
    obtain ⟨⟨⟩, hcheck, h⟩ := except_bind_eq_ok.mp h
    obtain rfl := except_pure_eq_ok.mp h
    have hmerged := mergedOperators_of_mergeOperators hmerge
    -- the checks look at `comb_policy`, which is what the rule ends up with
    change checkOneOf (operatorsOf superior child) = .ok () at hone
    change checkRule (operatorsOf superior child) rule = .ok () at hcheck
    rw [← hmerged.knownOperators_eq] at hone hcheck
    refine ⟨hmerged, fun hin => ?_, hcheck⟩
    simpa using checkOneOf_eq_ok hone (mem_knownOperators.mpr hin)

end Fedservice.Entity.Function
