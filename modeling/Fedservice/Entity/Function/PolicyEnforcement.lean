/-
  Fedservice.Entity.Function.PolicyEnforcement

  What holds of the claims after `apply_metadata_policy` has returned: which of
  the operators of a combined claim policy the result satisfies (`Enforced`).
  Each operator is first taken by itself, as a step on the slot of the claim;
  `evalClaim_enforced` puts the steps in sequence.
-/

import Fedservice.Entity.Function.PolicySemantics
import Fedservice.Entity.Function.PolicyCombination

namespace Fedservice.Entity.Function

open Fedservice.Lib Fedservice.Py Fedservice.EntityStatement

variable {ho : HashOrder} {claim : String} {policy : ClaimPolicy} {slot slot' : Option Json}

/-! ## One operator on a slot -/

theorem runOperator_eq_ok {kind : OperatorKind}
    (h : runOperator ho claim policy kind slot = .ok slot') :
    (kind.name ∉ policy ∧ slot' = slot) ∨
      ∃ r, (PolicyOperator.init kind).onSlot ho claim policy slot = .ok r ∧
        slot' = r.assign.or slot := by
  unfold runOperator at h
  by_cases hmem : kind.name ∈ policy
  · rw [if_pos hmem] at h
    obtain ⟨r, hr, h⟩ := except_bind_eq_ok.mp h
    exact Or.inr ⟨r, hr, (except_pure_eq_ok.mp h).symm⟩
  · rw [if_neg hmem] at h
    exact Or.inl ⟨hmem, (except_pure_eq_ok.mp h).symm⟩

theorem run_value {v : Json} (h : runOperator ho claim policy .value slot = .ok slot')
    (hv : policy.lookup "value" = some v) : slot' = some v := by
  rcases runOperator_eq_ok h with ⟨hno, -⟩ | ⟨r, hr, rfl⟩
  · exact absurd (Dict.mem_iff_lookup.mpr ⟨v, hv⟩) hno
  · obtain ⟨param, hparam, hcall⟩ := onSlot_eq_ok hr
    obtain rfl : param = v := Option.some.inj (hparam.symm.trans hv)
    exact Except.ok.inj hcall ▸ rfl

theorem run_essential (h : runOperator ho claim policy .essential slot = .ok slot') :
    slot' = slot ∧ ∀ p, policy.lookup "essential" = some p → p.eqv (.bool true) = true →
      slot.isSome = true := by
  rcases runOperator_eq_ok h with ⟨hno, rfl⟩ | ⟨r, hr, rfl⟩
  · exact ⟨rfl, fun p hp => absurd (Dict.mem_iff_lookup.mpr ⟨p, hp⟩) hno⟩
  · obtain ⟨param, hparam, hcall⟩ := onSlot_eq_ok hr
    obtain ⟨rfl, hsome⟩ := essential_call_eq_ok hcall
    refine ⟨rfl, fun p hp => ?_⟩
    obtain rfl : param = p := Option.some.inj (hparam.symm.trans hp)
    exact hsome

/-- After `add` the claim holds every added value. -/
theorem run_add {a x : Json} (h : runOperator ho claim policy .add slot = .ok slot')
    (ha : policy.lookup "add" = some a) (hx : a.Holds x) : SlotHolds slot' x := by
  rcases runOperator_eq_ok h with ⟨hno, -⟩ | ⟨r, hr, rfl⟩
  · exact absurd (Dict.mem_iff_lookup.mpr ⟨a, ha⟩) hno
  · obtain ⟨param, hparam, hcall⟩ := onSlot_eq_ok hr
    obtain rfl : param = a := Option.some.inj (hparam.symm.trans ha)
    rcases add_call_eq_ok hcall with ⟨-, rfl⟩ | ⟨v, s, -, hs, rfl⟩
    · exact ⟨param, rfl, hx⟩
    · obtain ⟨base, hbase, hs⟩ := except_bind_eq_ok.mp hs
      obtain ⟨ext, hext, hs⟩ := except_bind_eq_ok.mp hs
      obtain rfl := except_pure_eq_ok.mp hs
      have hin : x ∈ base.union ext :=
        KeyedSet.mem_union.mpr (Or.inr ((Json.mem_asSet hext).mpr hx))
      exact ⟨_, rfl, (holds_listOf ho).mpr hin⟩

theorem run_default (h : runOperator ho claim policy .default slot = .ok slot') :
    slot' = slot.or (policy.lookup "default") := by
  rcases runOperator_eq_ok h with ⟨hno, rfl⟩ | ⟨r, hr, rfl⟩
  · have hnone : policy.lookup "default" = none := AList.lookup_eq_none.mpr hno
    rw [hnone, Option.or_none]
  · obtain ⟨param, hparam, hcall⟩ := onSlot_eq_ok hr
    have hparam : policy.lookup "default" = some param := hparam
    rw [default_call_eq_ok hcall, hparam]
    cases slot <;> rfl

/-- `one_of` changes nothing, and a single value is among those allowed. -/
theorem run_oneOf (h : runOperator ho claim policy .oneOf slot = .ok slot') :
    slot' = slot ∧ ∀ p v, policy.lookup "one_of" = some p → slot = some v → v.isList = false →
      v.isIn p = .ok true := by
  rcases runOperator_eq_ok h with ⟨hno, rfl⟩ | ⟨r, hr, rfl⟩
  · exact ⟨rfl, fun p _ hp => absurd (Dict.mem_iff_lookup.mpr ⟨p, hp⟩) hno⟩
  · obtain ⟨param, hparam, hcall⟩ := onSlot_eq_ok hr
    rcases oneOf_call_eq_ok hcall with ⟨hnot, rfl⟩ | ⟨w, rfl, -, hin, rfl⟩
    · refine ⟨rfl, fun p v _ hv hl => ?_⟩
      simp [hv, hl] at hnot
    · refine ⟨rfl, fun p v hp hv _ => ?_⟩
      obtain rfl : param = p := Option.some.inj (hparam.symm.trans hp)
      obtain rfl := Option.some.inj hv
      exact hin

/-- A value found in the policy object is the name of one of its operators. -/
theorem isIn_toJson {v : Json} (h : v.isIn policy.toJson = .ok true) :
    ∃ name ∈ policy, v = .str name := by
  unfold ClaimPolicy.toJson Json.isIn at h
  by_cases hh : v.hashable = true
  · simp only [hh, if_true, Except.ok.injEq, List.any_map, List.any_eq_true] at h
    obtain ⟨e, he, heq⟩ := h
    have hnorm := Json.eqv_iff.mp heq
    refine ⟨e.1, AList.mem_keys.mpr (List.mem_map_of_mem he), ?_⟩
    cases v <;> simp_all [Json.norm]
  · simp [hh] at h

/-- After `subset_of` the claim holds what it held of the listed values, unless
    its value was taken for the name of an operator. -/
theorem run_subsetOf (h : runOperator ho claim policy .subsetOf slot = .ok slot') :
    (slot.isNone → slot' = none) ∧
      ∀ p, policy.lookup "subset_of" = some p →
        (∃ name ∈ policy, slot = some (.str name)) ∨
          ∀ x, SlotHolds slot' x ↔ SlotHolds slot x ∧ p.Lists x := by
  rcases runOperator_eq_ok h with ⟨hno, rfl⟩ | ⟨r, hr, rfl⟩
  · exact ⟨Option.isNone_iff_eq_none.mp, fun p hp =>
      absurd (Dict.mem_iff_lookup.mpr ⟨p, hp⟩) hno⟩
  · obtain ⟨param, hparam, hcall⟩ := onSlot_eq_ok hr
    rcases subsetOf_call_eq_ok hcall with
      ⟨rfl, rfl⟩ | ⟨v, p, q, rfl, hl, hp, hq, rfl⟩ | ⟨v, xs, rfl, -, hin, rfl⟩
    · -- an absent claim stays absent
      exact ⟨fun _ => rfl, fun p _ => Or.inr (by simp [SlotHolds])⟩
    · -- a list becomes the intersection
      refine ⟨by simp, fun p' hp' => Or.inr fun x => ?_⟩
      obtain rfl : param = p' := Option.some.inj (hparam.symm.trans hp')
      obtain ⟨vs, rfl⟩ := Json.isList_iff.mp hl
      simp [SlotHolds, holds_listOf, KeyedSet.mem_inter, Json.mem_toSet hp, Json.mem_toSet hq,
        and_comm]
    · -- another value passes when it is found among the keys of the policy
      refine ⟨by simp, fun p' _ => Or.inl ?_⟩
      obtain ⟨name, hname, rfl⟩ := isIn_toJson hin
      exact ⟨name, hname, rfl⟩

/-- `superset_of` changes nothing, and a list holds every listed value. -/
theorem run_supersetOf (h : runOperator ho claim policy .supersetOf slot = .ok slot') :
    slot' = slot ∧ ∀ p vs x, policy.lookup "superset_of" = some p → slot = some (.arr vs) →
      p.Lists x → SlotHolds slot x := by
  rcases runOperator_eq_ok h with ⟨hno, rfl⟩ | ⟨r, hr, rfl⟩
  · exact ⟨rfl, fun p _ _ hp => absurd (Dict.mem_iff_lookup.mpr ⟨p, hp⟩) hno⟩
  · obtain ⟨param, hparam, hcall⟩ := onSlot_eq_ok hr
    obtain ⟨rfl, hheld⟩ := supersetOf_call_eq_ok hcall
    refine ⟨rfl, fun p vs x hp hv hx => ?_⟩
    obtain rfl : param = p := Option.some.inj (hparam.symm.trans hp)
    obtain ⟨s, t, hs, ht, hsub⟩ := hheld _ hv
    have hin : x ∈ t := KeyedSet.sdiff_isEmpty_iff.mp hsub x ((Json.mem_toSet hs).mpr hx)
    exact ⟨_, hv, Json.lists_arr.mp ((Json.mem_toSet ht).mp hin)⟩

/-! ## The operators in sequence -/

/-- What `subset_of` gets to see is a string that names an operator of the
    policy: the claim's value where nothing is added to it, or the added or
    default value of an absent claim. -/
def OffersOperatorName (policy : ClaimPolicy) (before : Option Json) : Prop :=
  ∃ name ∈ policy, (before = some (.str name) ∧ "add" ∉ policy) ∨
    (before = none ∧ (policy.lookup "add").or (policy.lookup "default") = some (.str name))

/-- What a combined claim policy enforces: `before` and `after` are the claim
    before and after the policy is applied. -/
structure Enforced (policy : ClaimPolicy) (before after : Option Json) : Prop where
  value : ∀ v, policy.lookup "value" = some v → after = some v
  essential : ∀ p, policy.lookup "essential" = some p → p.eqv (.bool true) = true →
    after.isSome = true
  /-- A present value that is not a list is among those of `one_of`. -/
  oneOf : "value" ∉ policy → ∀ xs v, policy.lookup "one_of" = some (.arr xs) → after = some v →
    v.isList = false → (Json.arr xs).Holds v
  /-- Every value held is listed by `subset_of`. -/
  subsetOf : "value" ∉ policy → ∀ p, policy.lookup "subset_of" = some p →
    ¬ OffersOperatorName policy before → ∀ x, SlotHolds after x → p.Lists x
  /-- A list holds every value that `superset_of` lists. -/
  supersetOf : "value" ∉ policy → ∀ p vs, policy.lookup "superset_of" = some p →
    after = some (.arr vs) → ∀ x, p.Lists x → SlotHolds after x
  /-- Every added value is held, unless `subset_of` does not list it. -/
  add : "value" ∉ policy → ∀ a, policy.lookup "add" = some a →
    ¬ OffersOperatorName policy before →
    ∀ x, a.Holds x → (∀ p, policy.lookup "subset_of" = some p → p.Lists x) → SlotHolds after x

/-- The value that `add` and `default` hand on, when it is a string that names
    an operator. -/
theorem offersOperatorName_of_run {s₁ s₂ : Option Json} {name : String}
    (hadd : runOperator ho claim policy .add slot = .ok s₁)
    (hdef : runOperator ho claim policy .default s₁ = .ok s₂)
    (hname : name ∈ policy) (hs : s₂ = some (.str name)) : OffersOperatorName policy slot := by
  refine ⟨name, hname, ?_⟩
  rw [run_default hdef] at hs
  rcases runOperator_eq_ok hadd with ⟨hno, rfl⟩ | ⟨r, hr, rfl⟩
  · cases s₁ with
    | some v => exact Or.inl ⟨by simpa using hs, hno⟩
    | none =>
        have hnone : policy.lookup "add" = none := AList.lookup_eq_none.mpr hno
        exact Or.inr ⟨rfl, by simpa [hnone] using hs⟩
  · obtain ⟨param, hparam, hcall⟩ := onSlot_eq_ok hr
    have hparam : policy.lookup "add" = some param := hparam
    rcases add_call_eq_ok hcall with ⟨rfl, rfl⟩ | ⟨v, t, rfl, -, rfl⟩
    · exact Or.inr ⟨rfl, by simpa [hparam] using hs⟩
    · -- what is added to a present claim is a list
      exact absurd hs (by simp [listOf])

/-- What is added is still there after the default. -/
theorem added_of_run {s₁ s₂ : Option Json} (hadd : runOperator ho claim policy .add slot = .ok s₁)
    (hdef : runOperator ho claim policy .default s₁ = .ok s₂) {a x : Json}
    (ha : policy.lookup "add" = some a) (hx : a.Holds x) : SlotHolds s₂ x := by
  obtain ⟨v, hs₁, hv⟩ := run_add hadd ha hx
  rw [run_default hdef, hs₁]
  exact ⟨v, rfl, hv⟩

/-- `value` overrides everything, the other operators are not looked at. -/
theorem enforced_of_value {s₁ : Option Json} (hv : "value" ∈ policy)
    (hval : runOperator ho claim policy .value slot = .ok s₁)
    (hess : runOperator ho claim policy .essential s₁ = .ok slot') :
    Enforced policy slot slot' := by
  obtain ⟨rfl, hthere⟩ := run_essential hess
  exact ⟨fun v hlook => run_value hval hlook, hthere, fun hno => absurd hv hno,
    fun hno => absurd hv hno, fun hno => absurd hv hno, fun hno => absurd hv hno⟩

/-- A single value that `one_of` allows; the set operators are absent. -/
theorem enforced_of_oneOf {s₁ s₂ s₃ : Option Json} (hv : "value" ∉ policy)
    (hone : "one_of" ∈ policy → "subset_of" ∉ policy ∧ "superset_of" ∉ policy)
    (hadd : runOperator ho claim policy .add slot = .ok s₁)
    (hdef : runOperator ho claim policy .default s₁ = .ok s₂)
    (honeOf : runOperator ho claim policy .oneOf s₂ = .ok s₃)
    (hdec : decidedByOneOf policy s₂ = true)
    (hess : runOperator ho claim policy .essential s₃ = .ok slot') :
    Enforced policy slot slot' := by
  obtain ⟨rfl, hamong⟩ := run_oneOf honeOf
  obtain ⟨rfl, hthere⟩ := run_essential hess
  simp only [decidedByOneOf, Bool.and_eq_true, decide_eq_true_eq] at hdec
  obtain ⟨hnosub, hnosup⟩ := hone hdec.1
  exact ⟨fun v hlook => absurd (Dict.mem_iff_lookup.mpr ⟨v, hlook⟩) hv, hthere,
    fun _ xs v hp hs hl => Json.isIn_arr.mp (hamong _ v hp hs hl),
    fun _ p hp => absurd (Dict.mem_iff_lookup.mpr ⟨p, hp⟩) hnosub,
    fun _ p _ hp => absurd (Dict.mem_iff_lookup.mpr ⟨p, hp⟩) hnosup,
    fun _ a ha _ x hx _ => added_of_run hadd hdef ha hx⟩

/-- The set operators, each on what the one before it leaves. -/
theorem enforced_of_sets {s₁ s₂ s₃ s₄ s₅ : Option Json} (hv : "value" ∉ policy)
    (hone : "one_of" ∈ policy → "subset_of" ∉ policy ∧ "superset_of" ∉ policy)
    (hadd : runOperator ho claim policy .add slot = .ok s₁)
    (hdef : runOperator ho claim policy .default s₁ = .ok s₂)
    (honeOf : runOperator ho claim policy .oneOf s₂ = .ok s₃)
    (hdec : decidedByOneOf policy s₂ = false)
    (hsub : runOperator ho claim policy .subsetOf s₃ = .ok s₄)
    (hsup : runOperator ho claim policy .supersetOf s₄ = .ok s₅)
    (hess : runOperator ho claim policy .essential s₅ = .ok slot') :
    Enforced policy slot slot' := by
  obtain ⟨rfl, -⟩ := run_oneOf honeOf
  obtain ⟨rfl, hthere⟩ := run_essential hess
  obtain ⟨rfl, hcover⟩ := run_supersetOf hsup
  have hlisted : ∀ p, policy.lookup "subset_of" = some p →
      ¬ OffersOperatorName policy slot → ∀ x, SlotHolds slot' x ↔ SlotHolds s₃ x ∧ p.Lists x := by
    intro p hp hoffer
    rcases (run_subsetOf hsub).2 p hp with ⟨name, hname, hs⟩ | hiff
    · exact absurd (offersOperatorName_of_run hadd hdef hname hs) hoffer
    · exact hiff
  refine ⟨fun v hlook => absurd (Dict.mem_iff_lookup.mpr ⟨v, hlook⟩) hv, hthere,
    fun _ xs v hp hs hl => ?_, fun _ p hp hoffer x hx => ((hlisted p hp hoffer x).mp hx).2,
    fun _ p vs hp hs x hx => hcover p vs x hp hs hx, fun _ a ha hoffer x hx hlist => ?_⟩
  · -- `one_of` did not decide, so what it saw was absent or a list
    have hmem : OperatorKind.oneOf.name ∈ policy := Dict.mem_iff_lookup.mpr ⟨_, hp⟩
    have hsame : slot' = s₃ := by
      rcases runOperator_eq_ok hsub with ⟨-, hs⟩ | ⟨r, hr, -⟩
      · exact hs
      · obtain ⟨param, hparam, -⟩ := onSlot_eq_ok hr
        exact absurd (Dict.mem_iff_lookup.mpr ⟨param, hparam⟩) (hone hmem).1
    rw [← hsame, hs] at hdec
    simp [decidedByOneOf, hmem, hl] at hdec
  · have hadded := added_of_run hadd hdef ha hx
    cases hp : policy.lookup "subset_of" with
    | some p => exact (hlisted p hp hoffer x).mpr ⟨hadded, hlist p hp⟩
    | none =>
        have hno : OperatorKind.subsetOf.name ∉ policy := AList.lookup_eq_none.mp hp
        have hsame := hsub
        rw [runOperator_of_not_mem hno] at hsame
        exact Except.ok.inj hsame ▸ hadded

/-- Running the operators of a combined policy on a claim enforces it. -/
theorem evalClaim_enforced
    (hone : "value" ∉ policy → "one_of" ∈ policy → "subset_of" ∉ policy ∧ "superset_of" ∉ policy)
    (h : evalClaim ho claim policy slot = .ok slot') : Enforced policy slot slot' := by
  unfold evalClaim at h
  by_cases hv : OperatorKind.value.name ∈ policy
  · rw [if_pos hv] at h
    obtain ⟨s, hs, h⟩ := except_bind_eq_ok.mp h
    exact enforced_of_value hv hs h
  · rw [if_neg hv] at h
    obtain ⟨s₁, hadd, h⟩ := except_bind_eq_ok.mp h
    obtain ⟨s₂, hdef, h⟩ := except_bind_eq_ok.mp h
    obtain ⟨s₃, honeOf, h⟩ := except_bind_eq_ok.mp h
    cases hdec : decidedByOneOf policy s₂ with
    | true =>
        rw [hdec, if_pos rfl] at h
        exact enforced_of_oneOf hv (hone hv) hadd hdef honeOf hdec h
    | false =>
        rw [hdec, if_neg (by simp)] at h
        obtain ⟨s₄, hsub, h⟩ := except_bind_eq_ok.mp h
        obtain ⟨s₅, hsup, h⟩ := except_bind_eq_ok.mp h
        exact enforced_of_sets hv (hone hv) hadd hdef honeOf hdec hsub hsup h

/-! ## Combined policies -/

/-- A combined policy with a value in it aside, `one_of` stands alone in it. -/
theorem oneOf_alone_of_combined {superior child : ClaimPolicy}
    (h : combineClaimPolicy ho superior child = .ok policy) (hvalue : "value" ∉ policy) :
    "one_of" ∈ policy → "subset_of" ∉ policy ∧ "superset_of" ∉ policy := by
  rcases combineClaimPolicy_eq_ok h with ⟨hsup, hunder⟩ | ⟨-, hmerged⟩
  · exact absurd (value_of_combineUnderValue hsup hunder) hvalue
  · exact hmerged.oneOf_alone

/-- Where `add` and `subset_of` are the only operators, every added value is
    among those listed. -/
theorem added_listed_of_combined {superior child : ClaimPolicy}
    (h : combineClaimPolicy ho superior child = .ok policy)
    (hops : ∀ k : OperatorKind, k.name ∈ policy ↔ k = .subsetOf ∨ k = .add) {a p x : Json}
    (ha : policy.lookup "add" = some a) (hp : policy.lookup "subset_of" = some p)
    (hx : a.Lists x) : p.Lists x := by
  have hvalue : "value" ∉ policy := fun hv => by
    simpa using (hops .value).mp hv
  rcases combineClaimPolicy_eq_ok h with ⟨hsup, hunder⟩ | ⟨-, hmerged⟩
  · exact absurd (value_of_combineUnderValue hsup hunder) hvalue
  · have hset : ∀ k, k ∈ knownOperators policy ↔ k = .subsetOf ∨ k = .add :=
      fun k => mem_knownOperators.trans (hops k)
    exact checkRule_subsetOf_add hset ha hp hmerged.checked hx

/-- Applying a combined policy enforces it on each claim it is for; and where
    `add` and `subset_of` stand alone, nothing that is added is filtered out. -/
theorem combined_policy_enforced {superior child : ClaimPolicy} {metadataPolicy : MetadataPolicy}
    {metadata metadata' : Metadata}
    (hcomb : combineClaimPolicy ho superior child = .ok policy)
    (hpolicy : metadataPolicy.lookup claim = some policy)
    (happ : applyMetadataPolicy ho metadataPolicy constructEvaluationSequence metadata =
      .ok () metadata') :
    Enforced policy (metadata.lookup claim) (metadata'.lookup claim) ∧
      ((∀ k : OperatorKind, k.name ∈ policy ↔ k = .subsetOf ∨ k = .add) →
        ∀ a p x, policy.lookup "add" = some a → policy.lookup "subset_of" = some p →
          a.Lists x → p.Lists x) :=
  ⟨evalClaim_enforced (oneOf_alone_of_combined hcomb)
    ((applyMetadataPolicy_eq_ok happ).1 claim policy hpolicy),
    fun hops _ _ _ ha hp hx => added_listed_of_combined hcomb hops ha hp hx⟩

/-- A superior that lists three values and adds one of them. -/
def addsOneOfThree : ClaimPolicy :=
  Dict.ofList [("subset_of", .arr [.str "X", .str "Y", .str "Z"]), ("add", .arr [.str "Y"])]

/-- What two policies come to of which the one below leaves out one of the values. -/
def addsOneOfTwo : ClaimPolicy :=
  Dict.ofList [("subset_of", .arr [.str "Y", .str "Z"]), ("add", .arr [.str "Y"])]

/-- One value is filtered out, and one is added. -/
theorem combined_policy_enforced_witness :
    Enforced addsOneOfTwo (some (.arr [.str "X", .str "Z"])) (some (.arr [.str "Y", .str "Z"])) ∧
      ∀ x, (Json.arr [.str "Y"]).Lists x → (Json.arr [.str "Y", .str "Z"]).Lists x := by
  obtain ⟨henforced, hlisted⟩ := combined_policy_enforced
    (show combineClaimPolicy .insertion addsOneOfThree
        (Dict.ofList [("subset_of", .arr [.str "Y", .str "Z"])]) = .ok addsOneOfTwo from rfl)
    (show (Dict.ofList [("contacts", addsOneOfTwo)]).lookup "contacts" = some addsOneOfTwo from rfl)
    (show applyMetadataPolicy .insertion (Dict.ofList [("contacts", addsOneOfTwo)])
        constructEvaluationSequence
        (Dict.ofList [("contacts", .arr [.str "X", .str "Z"])]) =
      .ok () (Dict.ofList [("contacts", .arr [.str "Y", .str "Z"])]) from rfl)
  have hops : ∀ k : OperatorKind, k.name ∈ addsOneOfTwo ↔ k = .subsetOf ∨ k = .add := by
    intro k
    cases k <;> decide
  exact ⟨henforced, fun x => hlisted hops _ _ x rfl rfl⟩

/-- `superset_of` asks nothing of a claim that is absent. -/
theorem superset_of_absent_claim :
    ¬ ∀ (superior child policy : ClaimPolicy) (metadataPolicy : MetadataPolicy) (claim : String)
      (metadata metadata' : Metadata),
      combineClaimPolicy .insertion superior child = .ok policy →
      metadataPolicy.lookup claim = some policy →
      applyMetadataPolicy .insertion metadataPolicy constructEvaluationSequence metadata =
        .ok () metadata' →
      ∀ p x, policy.lookup "superset_of" = some p → p.Lists x →
        SlotHolds (metadata'.lookup claim) x := by
  intro h
  -- no operator of the policy gives the claim a value, and only `essential` would ask
  have hheld := h (Dict.ofList [("superset_of", .arr [.str "openid"])]) ∅
    (Dict.ofList [("superset_of", .arr [.str "openid"])])
    (Dict.ofList [("scope", Dict.ofList [("superset_of", .arr [.str "openid"])])]) "scope" ∅ ∅
    rfl rfl rfl (.arr [.str "openid"]) (.str "openid") rfl (by simp [Json.Holds, Json.held])
  obtain ⟨v, hv, -⟩ := hheld
  simp at hv

end Fedservice.Entity.Function
