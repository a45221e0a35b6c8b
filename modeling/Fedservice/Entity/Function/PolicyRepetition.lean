/-
  Fedservice.Entity.Function.PolicyRepetition

  Stating a policy a second time.  What `combine_claim_policy` returns has
  absorbed the subordinate's policy, so combining it with the same policy again
  changes nothing; except that a value with `essential` next to it is refused by
  a superior with the same value, and that lists are read as sets only once two
  of them meet.
-/

import Fedservice.Entity.Function.PolicyLikeness

namespace Fedservice.Entity.Function

open Fedservice.Lib Fedservice.Py Fedservice.EntityStatement

variable {Key : Type} {ho : HashOrder} {above policy combined : ClaimPolicy}

/-! ## Policies that can be stated again -/

/-- `combine_claim_policy` accepts the policy on its own. -/
def Accepted (ho : HashOrder) (policy : ClaimPolicy) : Prop :=
  ∃ rule, combineClaimPolicy ho ∅ policy = .ok rule

/-- The operators on sets are given as lists that are not empty. -/
def NonEmptyLists (policy : ClaimPolicy) : Prop :=
  ∀ k, isSetOperator k = true → ∀ v, policy.lookup k.name = some v → ∃ x xs, v = .arr (x :: xs)

/-- A value is given without `essential`; and without a value, the lists hold nothing but
    values that have a hash. -/
structure Repeatable (policy : ClaimPolicy) : Prop where
  value : "value" ∈ policy → "essential" ∉ policy
  hashable : "value" ∉ policy → ∀ k, isSetOperator k = true → ∀ xs,
    policy.lookup k.name = some (.arr xs) → ∀ x ∈ xs, x.hashable = true

/-- A policy combined with itself is accepted, and stays what it is. -/
def Harmless (ho : HashOrder) (policy : ClaimPolicy) : Prop :=
  ∃ combined, combineClaimPolicy ho policy policy = .ok combined ∧ Alike combined policy

/-! ## What has been combined absorbs the subordinate -/

/-- Of two lists the one that results absorbs the other: it is within it where lists are
    intersected, and has all of it where they are united. -/
def AbsorbsSet (k : OperatorKind) (s t : JsonSet) : Prop :=
  if k = .add then ∀ x ∈ t, x ∈ s else ∀ x ∈ s, x ∈ t

theorem op2func_absorbs {k : OperatorKind} {v c : Json} {s t : JsonSet}
    (hk : isSetOperator k = true) (hv : v.isList = true) (hc : c.isList = true)
    (hs : v.toSet = .ok s) (ht : c.toSet = .ok t) (habsorbs : AbsorbsSet k s t) :
    ∃ comb, op2func ho k v c = .ok comb ∧ SameList comb v := by
  unfold AbsorbsSet at habsorbs
  have hinter : (∀ x ∈ s, x ∈ t) → SameList (listOf ho (s.inter t)) v := by
    intro hsub
    obtain ⟨u, hu, hmem⟩ := toSet_listOf ho (s := s.inter t)
      (fun y hy => Json.hashable_of_toSet hs y (KeyedSet.mem_elems_inter hy))
    refine ⟨rfl, hv, u, s, hu, hs, fun x => ?_⟩
    rw [hmem, KeyedSet.mem_inter]
    exact ⟨And.left, fun hx => ⟨hx, hsub x hx⟩⟩
  have hunion : (∀ x ∈ t, x ∈ s) → SameList (listOf ho (s.union t)) v := by
    intro hsub
    obtain ⟨u, hu, hmem⟩ := toSet_listOf ho (s := s.union t)
      (fun y hy => (KeyedSet.mem_elems_union hy).elim (Json.hashable_of_toSet hs y)
        (Json.hashable_of_toSet ht y))
    refine ⟨rfl, hv, u, s, hu, hs, fun x => ?_⟩
    rw [hmem, KeyedSet.mem_union]
    exact ⟨fun hx => hx.elim id (hsub x), Or.inl⟩
  cases k with
  | subsetOf | supersetOf | oneOf =>
      refine ⟨listOf ho (s.inter t), ?_, hinter (by simpa using habsorbs)⟩
      simp only [op2func, combineSubsetOf, combineSupersetOf, combineOneOf, hs, ht, except_ok_bind]
      rfl
  | add =>
      refine ⟨listOf ho (s.union t), ?_, hunion (by simpa using habsorbs)⟩
      simp only [op2func, combineAdd, Json.asSet_of_isList hv, Json.asSet_of_isList hc, hs, ht,
        except_ok_bind]
      rfl
  | value | default | essential => exact absurd hk (by decide)

/-- What two lists are merged to absorbs the second one. -/
theorem absorbs_of_op2func {k : OperatorKind} {a c v : Json} (hk : isSetOperator k = true)
    (hc : c.isList = true) (h : op2func ho k a c = .ok v) :
    v.isList = true ∧ ∃ s t, v.toSet = .ok s ∧ c.toSet = .ok t ∧ AbsorbsSet k s t := by
  cases hinter : isIntersected k with
  | true =>
      obtain ⟨s₁, t, hs₁, ht, rfl⟩ := op2func_eq_ok hinter h
      obtain ⟨s, hs, hmem⟩ := toSet_listOf ho (s := s₁.inter t)
        (fun y hy => Json.hashable_of_toSet hs₁ y (KeyedSet.mem_elems_inter hy))
      refine ⟨rfl, s, t, hs, ht, ?_⟩
      have hne : k ≠ .add := by
        rintro rfl
        exact absurd hinter (by decide)
      rw [AbsorbsSet, if_neg hne]
      intro x hx
      exact (KeyedSet.mem_inter.mp ((hmem x).mp hx)).2
  | false =>
      obtain rfl : k = .add := by
        cases k <;> first | rfl | exact absurd hk (by decide) | exact absurd hinter (by decide)
      obtain ⟨s₁, hs₁, h⟩ := except_bind_eq_ok.mp h
      obtain ⟨t, ht, h⟩ := except_bind_eq_ok.mp h
      obtain rfl := except_pure_eq_ok.mp h
      have ht' : c.toSet = .ok t := by rwa [Json.asSet_of_isList hc] at ht
      obtain ⟨s, hs, hmem⟩ := toSet_listOf ho (s := s₁.union t)
        (fun y hy => (KeyedSet.mem_elems_union hy).elim (hashable_of_asSet hs₁ y)
          (hashable_of_asSet ht y))
      refine ⟨rfl, s, t, hs, ht', ?_⟩
      rw [AbsorbsSet, if_pos rfl]
      intro x hx
      exact (hmem x).mpr (KeyedSet.mem_union.mpr (Or.inr hx))

theorem absorbsSet_refl (k : OperatorKind) (s : JsonSet) : AbsorbsSet k s s := by
  unfold AbsorbsSet
  split <;> exact fun _ hx => hx

/-- The merged value of an operator on sets that the subordinate has. -/
theorem setOperator_merged {k : OperatorKind} {v c : Json} (hk : isSetOperator k = true)
    (hmerged : MergedOperators ho above policy combined) (hlists : NonEmptyLists policy)
    (hhash : ∀ xs, policy.lookup k.name = some (.arr xs) → ∀ x ∈ xs, x.hashable = true)
    (hc : policy.lookup k.name = some c) (hv : combined.lookup k.name = some v) :
    v.isList = true ∧ v.truthy = true ∧
      ∃ s t, v.toSet = .ok s ∧ c.toSet = .ok t ∧ AbsorbsSet k s t := by
  obtain ⟨x, xs, rfl⟩ := hlists k hk c hc
  cases ha : above.lookup k.name with
  | none =>
      -- the subordinate's own list
      have hsame := (hmerged.lookup_of_one k).2 ha
      rw [hv, hc, Option.some.injEq] at hsame
      obtain rfl := hsame
      obtain ⟨s, hs⟩ := Json.exists_toSet_arr.mpr (hhash _ hc)
      exact ⟨rfl, rfl, s, s, hs, hs, absorbsSet_refl k s⟩
  | some a =>
      obtain ⟨v', hdo, hv'⟩ := hmerged.operator k (Or.inr (Dict.mem_iff_lookup.mpr ⟨_, hc⟩))
      obtain rfl : v = v' := Option.some.inj (hv.symm.trans hv')
      rw [doPolicy_of_isSetOperator hk] at hdo
      obtain ⟨hcomb, htruthy⟩ := (doSubOneSuperAdd_of_both ha hc).mp hdo
      obtain ⟨hlist, hsets⟩ := absorbs_of_op2func hk rfl hcomb
      exact ⟨hlist, htruthy, hsets⟩

/-- The merged default equals the subordinate's. -/
theorem default_merged (hmerged : MergedOperators ho above policy combined) {v c : Json}
    (hc : policy.lookup OperatorKind.default.name = some c)
    (hv : combined.lookup OperatorKind.default.name = some v) : v.eqv c = true := by
  cases ha : above.lookup OperatorKind.default.name with
  | none =>
      have hsame := (hmerged.lookup_of_one .default).2 ha
      rw [hv, hc, Option.some.injEq] at hsame
      rw [hsame]
      exact Json.eqv_refl c
  | some a =>
      obtain ⟨v', hdo, hv'⟩ := hmerged.operator .default (Or.inr (Dict.mem_iff_lookup.mpr ⟨c, hc⟩))
      obtain rfl : v = v' := Option.some.inj (hv.symm.trans hv')
      simp only [doPolicy, doDefault, ha, hc] at hdo
      by_cases heqv : a.eqv c = true
      · rw [if_pos heqv] at hdo
        obtain rfl := Except.ok.inj hdo
        exact heqv
      · rw [if_neg heqv] at hdo
        exact absurd hdo (by simp)

/-- The merged `essential` counts as true, or the subordinate's does not. -/
theorem essential_absorbs (hmerged : MergedOperators ho above policy combined) {v c : Json}
    (hc : policy.lookup OperatorKind.essential.name = some c)
    (hv : combined.lookup OperatorKind.essential.name = some v) :
    (!v.truthy && c.truthy) = false := by
  cases ha : above.lookup OperatorKind.essential.name with
  | none =>
      have hsame := (hmerged.lookup_of_one .essential).2 ha
      rw [hv, hc, Option.some.injEq] at hsame
      rw [hsame, Bool.not_and_self]
  | some a =>
      have hlookup := essential_merged hmerged ha hc
      obtain rfl := Option.some.inj (hv.symm.trans hlookup)
      by_cases hturned : (!a.truthy && c.truthy) = true
      · rw [if_pos hturned]
        rfl
      · rw [if_neg hturned]
        exact Bool.eq_false_iff.mpr hturned

/-- Merging one operator again leaves it as it is. -/
theorem doPolicy_again (hmerged : MergedOperators ho above policy combined)
    (hlists : NonEmptyLists policy) (hvalue : "value" ∉ policy)
    (hhash : ∀ k, isSetOperator k = true → ∀ xs, policy.lookup k.name = some (.arr xs) →
      ∀ x ∈ xs, x.hashable = true)
    {k : OperatorKind} {v : Json} (hv : combined.lookup k.name = some v) :
    ∃ v', doPolicy ho k combined policy k = .ok v' ∧ Like k v' v := by
  cases hc : policy.lookup k.name with
  | none =>
      refine ⟨v, ?_, Like.refl k v⟩
      rw [doPolicy_onlyOne k (Or.inr hc), hv]
      rfl
  | some c =>
      cases hk : isSetOperator k with
      | true =>
          obtain ⟨hlist, htruthy, s, t, hs, ht, habsorbs⟩ :=
            setOperator_merged hk hmerged hlists (hhash k hk) hc hv
          obtain ⟨y, ys, rfl⟩ := hlists k hk c hc
          obtain ⟨comb, hcomb, hsame⟩ := @op2func_absorbs ho _ _ _ _ _ hk hlist rfl hs ht habsorbs
          refine ⟨comb, ?_, Or.inr ⟨hk, hsame⟩⟩
          rw [doPolicy_of_isSetOperator hk]
          exact (doSubOneSuperAdd_of_both hv hc).mpr ⟨hcomb, hsame.truthy_iff.mpr htruthy⟩
      | false =>
          refine ⟨v, ?_, Like.refl k v⟩
          cases k with
          | value => exact absurd (Dict.mem_iff_lookup.mpr ⟨c, hc⟩) hvalue
          | default =>
              simp only [doPolicy, doDefault, hv, hc]
              rw [if_pos (default_merged hmerged hc hv)]
          | essential =>
              simp only [doPolicy, doEssential, hv, hc]
              rw [essential_absorbs hmerged hc hv, if_neg (by simp)]
          | subsetOf | supersetOf | oneOf | add => exact absurd hk (by decide)

theorem not_isEmpty_knownOperators {k : OperatorKind} (hk : k ∈ knownOperators policy) :
    ¬ (knownOperators policy).isEmpty = true := by
  intro h
  rw [List.isEmpty_iff.mp h] at hk
  exact List.not_mem_nil hk

/-- A child that gives the superior's value and no `essential` is accepted. -/
theorem combineUnderValue_same (hno : "essential" ∉ policy) {v w : Json}
    (hv : combined.lookup "value" = some v) (hw : policy.lookup "value" = some w)
    (heqv : w.eqv v = true) :
    combineUnderValue combined policy (knownOperators policy) = .ok combined := by
  have hin : OperatorKind.value ∈ knownOperators policy :=
    mem_knownOperators.mpr (Dict.mem_iff_lookup.mpr ⟨w, hw⟩)
  have hess : OperatorKind.essential ∉ knownOperators policy :=
    fun h => hno (mem_knownOperators.mp h)
  unfold combineUnderValue
  rw [if_neg (not_isEmpty_knownOperators hin), if_neg hess, if_pos hin, item_eq_ok.mpr hw,
    item_eq_ok.mpr hv]
  simp only [except_ok_bind, heqv, Bool.not_true, Bool.false_eq_true, if_false]
  rfl

/-- Under a superior that sets a value. -/
theorem combine_again_underValue (habove : "value" ∈ above)
    (h : combineUnderValue above policy (knownOperators policy) = .ok combined) :
    combineUnderValue combined policy (knownOperators policy) = .ok combined := by
  rcases combineUnderValue_eq_ok h with ⟨-, rfl⟩ | ⟨honly, hvalue, -⟩ | ⟨-, -, rfl⟩
  · exact h
  · -- next to `essential` alone only the value of the superior matters
    have hin : OperatorKind.essential ∈ knownOperators policy :=
      mem_knownOperators.mpr ((honly .essential).mpr rfl)
    have hitem : item combined "value" = item above "value" := item_congr hvalue
    unfold combineUnderValue at h ⊢
    rw [if_neg (not_isEmpty_knownOperators hin), if_pos hin] at h ⊢
    rw [hitem]
    exact h
  · exact h

theorem combineClaimPolicy_of_value (hvalue : "value" ∈ above) :
    combineClaimPolicy ho above policy =
      combineUnderValue above policy (knownOperators policy) := by
  unfold combineClaimPolicy
  exact if_pos (mem_knownOperators.mpr hvalue)

/-- `essential` that was not taken back once is not taken back by the same policy. -/
theorem essential_again (hmerged : MergedOperators ho above policy combined)
    (h : ¬ EssentialTakenBack above policy) : ¬ EssentialTakenBack combined policy := by
  rintro ⟨s, hs, hc, hne⟩
  cases ha : above.lookup "essential" with
  | none =>
      have hsame := (hmerged.lookup_of_one .essential).2 ha
      have hboth : some s = some (Json.bool false) := hs.symm.trans (hsame.trans hc)
      obtain rfl := Option.some.inj hboth
      exact hne rfl
  | some a =>
      have hlookup := essential_merged hmerged ha hc
      rw [Json.truthy, Bool.and_false, if_neg (by simp)] at hlookup
      obtain rfl := Option.some.inj (hs.symm.trans hlookup)
      exact h ⟨s, ha, hc, hne⟩

/-- What a policy has been merged into has its operators. -/
theorem operatorsOf_again (hmerged : MergedOperators ho above policy combined) :
    operatorsOf combined policy = operatorsOf above policy := by
  refine List.filter_congr (fun k _ => ?_)
  rw [Bool.eq_iff_iff]
  simp only [mem_knownOperators, hmerged.mem_iff, Bool.or_eq_true, decide_eq_true_eq]
  tauto

/-- Merging all the operators again leaves them as they are. -/
theorem mergeOperators_again (hmerged : MergedOperators ho above policy combined)
    (hlists : NonEmptyLists policy) (hvalue : "value" ∉ policy)
    (hhash : ∀ k, isSetOperator k = true → ∀ xs, policy.lookup k.name = some (.arr xs) →
      ∀ x ∈ xs, x.hashable = true) :
    ∃ again, mergeOperators ho combined policy (ho.arrange (operatorsOf combined policy)) =
      .ok again ∧ Alike again combined := by
  have hagain : ∀ {k : OperatorKind} {v}, combined.lookup k.name = some v →
      ∃ v', doPolicy ho k combined policy k = .ok v' ∧ Like k v' v :=
    fun hv => doPolicy_again hmerged hlists hvalue hhash hv
  obtain ⟨again, hmerge⟩ : ∃ again, mergeOperators ho combined policy
      (ho.arrange (operatorsOf combined policy)) = .ok again := by
    refine Dict.exists_insertEach_iff.mpr fun k hk => ?_
    rw [HashOrder.mem_arrange, operatorsOf_again hmerged, mem_operatorsOf, ← hmerged.mem_iff] at hk
    obtain ⟨v, hv⟩ := Dict.mem_iff_lookup.mp hk
    obtain ⟨v', hv', -⟩ := hagain hv
    exact ⟨v', hv'⟩
  have hmerged' := mergedOperators_of_mergeOperators hmerge
  -- an operator that neither of them has stays absent
  refine ⟨again, hmerge, fun k => ?_⟩
  cases hv : combined.lookup k.name with
  | some v =>
      obtain ⟨v', hdo, hlike⟩ := hagain hv
      obtain ⟨v'', hdo', hlookup⟩ :=
        hmerged'.operator k (Or.inl (Dict.mem_iff_lookup.mpr ⟨v, hv⟩))
      rw [hdo, Except.ok.injEq] at hdo'
      rw [hlookup, ← hdo']
      exact .some hlike
  | none =>
      have hno : k.name ∉ combined := AList.lookup_eq_none.mp hv
      have hno' : k.name ∉ again := by
        rw [hmerged'.mem_iff]
        rintro (hin | hin)
        · exact hno hin
        · exact hno (hmerged.mem_iff.mpr (Or.inr hin))
      rw [AList.lookup_eq_none.mpr hno']
      exact .none

/-- What a policy has been combined to can be combined with the same policy again, and stays
    what it is. -/
theorem combine_again (hlists : NonEmptyLists policy) (hrep : Repeatable policy)
    (h : combineClaimPolicy ho above policy = .ok combined) :
    ∃ again, combineClaimPolicy ho combined policy = .ok again ∧ Alike again combined := by
  by_cases hvalue : "value" ∈ above
  · rw [combineClaimPolicy_of_value hvalue] at h
    refine ⟨combined, ?_, Alike.refl combined⟩
    rw [combineClaimPolicy_of_value (value_of_combineUnderValue hvalue h)]
    exact combine_again_underValue hvalue h
  · obtain ⟨hess, hone, hmerge, hcheck⟩ := (combineClaimPolicy_eq_ok_iff hvalue).mp h
    have hmerged := mergedOperators_of_mergeOperators hmerge
    have hsame := value_of_merged hvalue hmerged
    by_cases hown : "value" ∈ policy
    · -- the subordinate's own value is the superior's now
      obtain ⟨w, hw⟩ := Dict.mem_iff_lookup.mp hown
      refine ⟨combined, ?_, Alike.refl combined⟩
      rw [combineClaimPolicy_of_value (Dict.mem_iff_lookup.mpr ⟨w, hsame.trans hw⟩)]
      exact combineUnderValue_same (hrep.value hown) (hsame.trans hw) hw (Json.eqv_refl w)
    · have hnot : "value" ∉ combined := by
        rw [← AList.lookup_eq_none, hsame]
        exact AList.lookup_eq_none.mpr hown
      obtain ⟨again, hagain, halike⟩ :=
        mergeOperators_again hmerged hlists hown (hrep.hashable hown)
      -- the checks go as they went before
      have hone' : ¬ OneOfMixed combined policy := by
        rwa [OneOfMixed, operatorsOf_again hmerged]
      have hcheck' : checkRule (operatorsOf combined policy) again = .ok () := by
        rw [operatorsOf_again hmerged]
        obtain ⟨⟨⟩, hok, -⟩ := (lockstep_checkRule halike.symm _).exists_of_ok hcheck
        exact hok
      exact ⟨again, (combineClaimPolicy_eq_ok_iff hnot).mpr
        ⟨essential_again hmerged hess, hone', hagain, hcheck'⟩, halike⟩

/-! ## A policy combined with itself -/

/-- What is accepted on its own is kept as it is. -/
theorem alike_of_accepted {rule : ClaimPolicy} (h : combineClaimPolicy ho ∅ policy = .ok rule) :
    Alike policy rule := by
  have hvalue : "value" ∉ (∅ : ClaimPolicy) := AList.notMem_empty "value"
  obtain ⟨-, -, hmerge, -⟩ := (combineClaimPolicy_eq_ok_iff hvalue).mp h
  have hmerged := mergedOperators_of_mergeOperators hmerge
  intro k
  rw [(hmerged.lookup_of_one k).2 (AList.lookup_empty k.name)]
  exact Dict.rel_refl (Like.refl k) _

theorem harmless_of_repeatable (haccepted : Accepted ho policy) (hlists : NonEmptyLists policy)
    (hrep : Repeatable policy) : Harmless ho policy := by
  obtain ⟨rule, hrule⟩ := haccepted
  obtain ⟨again, hagain, halike⟩ := combine_again hlists hrep hrule
  have hsame : Alike policy rule := alike_of_accepted hrule
  -- combined with what it is accepted as, which is alike
  obtain ⟨combined, hcombined, halike'⟩ :=
    (lockstep_combineClaimPolicy hsame.symm policy).exists_of_ok hagain
  exact ⟨combined, hcombined, halike'.symm.trans (halike.trans hsame.symm)⟩

theorem repeatable_of_harmless (h : Harmless ho policy) : Repeatable policy := by
  obtain ⟨combined, hcombined, -⟩ := h
  constructor
  · intro hvalue
    rw [combineClaimPolicy_of_value hvalue] at hcombined
    -- a child with a value has to give it without `essential`
    rcases combineUnderValue_eq_ok hcombined with ⟨hno, -⟩ | ⟨honly, -⟩ | ⟨hno, -⟩
    · exact absurd hvalue (hno .value)
    · exact absurd ((honly .value).mp hvalue) (by decide)
    · exact hno
  · intro hvalue k hk xs hxs
    obtain ⟨-, -, hmerge, -⟩ := (combineClaimPolicy_eq_ok_iff hvalue).mp hcombined
    have hmerged := mergedOperators_of_mergeOperators hmerge
    obtain ⟨v, hdo, -⟩ := hmerged.operator k (Or.inl (Dict.mem_iff_lookup.mpr ⟨_, hxs⟩))
    rw [doPolicy_of_isSetOperator hk] at hdo
    obtain ⟨hcomb, -⟩ := (doSubOneSuperAdd_of_both hxs hxs).mp hdo
    -- the list has been read as a set once
    obtain ⟨-, s, t, -, ht, -⟩ := absorbs_of_op2func hk rfl hcomb
    exact Json.exists_toSet_arr.mp ⟨t, ht⟩

/-! ## A statement that repeats the policies of its superior -/

/-- `below` has the policies of `s` for the entity type, and no metadata. -/
structure Restates (entityType : String) (s below : Statement Key) : Prop where
  policy : ∀ claim, claimPolicyOf below entityType claim = claimPolicyOf s entityType claim
  metadata : (ruleOf below entityType).metadata.isEmpty = true

/-- The policies of a rule stay what they are next to those of the statement. -/
def AbsorbsPolicies (ho : HashOrder) (entityType : String) (s : Statement Key) (mid : Rule) :
    Prop :=
  ∀ claim policy, claimPolicyOf s entityType claim = some policy →
    ∃ combined again, mid.metadataPolicy.lookup claim = some combined ∧
      combineClaimPolicy ho combined policy = .ok again ∧ Alike again combined

/-- What the repeating statement has for a claim combines, and changes nothing. -/
theorem accumulateOne_restated {entityType : String} {s below : Statement Key} {mid : Rule}
    (hrestates : Restates entityType s below) (habsorbs : AbsorbsPolicies ho entityType s mid)
    (claim : String) :
    ∃ result, accumulateOne ho entityType claim (mid.metadataPolicy.lookup claim) below =
        .ok result ∧ Option.Rel Alike result (mid.metadataPolicy.lookup claim) := by
  cases hq : claimPolicyOf s entityType claim with
  | none =>
      refine ⟨mid.metadataPolicy.lookup claim, ?_, ?_⟩
      · unfold accumulateOne
        rw [hrestates.policy, hq]
        cases mid.metadataPolicy.lookup claim <;> rfl
      · exact Dict.rel_refl Alike.refl _
  | some policy =>
      obtain ⟨combined, again, hmid, hagain, halike⟩ := habsorbs claim policy hq
      refine ⟨some again, ?_, ?_⟩
      · unfold accumulateOne
        rw [hrestates.policy, hq, hmid]
        simp only [hagain, except_ok_bind]
        rfl
      · rw [hmid]
        exact .some halike

/-- Step: the statement that repeats changes nothing. -/
theorem gatherLoop_restated {entityType : String} {s below : Statement Key} {mid : Rule}
    (hrestates : Restates entityType s below) (habsorbs : AbsorbsPolicies ho entityType s mid) :
    ∃ mid', gatherLoop ho entityType mid [below] = .ok mid' ∧ RuleAlike mid' mid := by
  have hnone : ∀ claim, (ruleOf below entityType).metadata.lookup claim = none :=
    Dict.lookup_of_isEmpty hrestates.metadata
  have hstep : GatherStep ho entityType mid below (gatherLoop ho entityType mid [below]) :=
    gatherStep_gatherLoop_one mid below
  have hagree : Agree mid.metadata (ruleOf below entityType).metadata :=
    agree_of_isEmpty hrestates.metadata
  have hapart : claimInBoth (ruleOf below entityType) = false := by
    rw [claimInBoth, List.any_eq_false]
    intro claim _
    rw [decide_eq_true_eq]
    exact AList.lookup_eq_none.mp (hnone claim)
  have hone := accumulateOne_restated hrestates habsorbs
  -- one case for each way in which the step can end; all but the first contradict `hone`
  generalize gatherLoop ho entityType mid [below] = result at hstep ⊢
  cases hstep with
  | combined mid' apart agree metadata policy =>
      refine ⟨mid', rfl, fun claim => ?_, fun claim => ?_⟩
      · rw [metadata, hnone, Option.none_or]
      · obtain ⟨result, hresult, halike⟩ := hone claim
        rw [policy claim, Except.ok.injEq] at hresult
        rw [hresult]
        exact halike
  | fault text h =>
      rcases h with hover | hclash | hcommon
      · rw [hapart] at hover
        exact absurd hover (by simp)
      · exact absurd hagree hclash
      · obtain ⟨claim, herror⟩ := accumulateOne_eq_error hcommon
        obtain ⟨result, hresult, -⟩ := hone claim
        rw [hresult] at herror
        exact absurd herror (by simp)
  | other e he apart agree common =>
      obtain ⟨claim, herror⟩ := accumulateOne_eq_error common
      obtain ⟨result, hresult, -⟩ := hone claim
      rw [hresult] at herror
      exact absurd herror (by simp)

theorem gatherLoop_append {entityType : String} {rule : Rule} (l₁ l₂ : List (Statement Key)) :
    gatherLoop ho entityType rule (l₁ ++ l₂) =
      (gatherLoop ho entityType rule l₁).bind (fun mid => gatherLoop ho entityType mid l₂) := by
  induction l₁ generalizing rule with
  | nil => rfl
  | cons es l₁ ih =>
      rw [List.cons_append, gatherLoop_cons, @gatherLoop_cons _ _ _ _ _ l₁]
      cases gatherLoop ho entityType rule [es] with
      | error e => rfl
      | ok mid => exact ih

/-- A chain with a statement right below another one that repeats its policies. -/
theorem gatherPolicies_restated {entityType : String} {above below : List (Statement Key)}
    {s s' : Statement Key} {rule : Rule} (hrestates : Restates entityType s s')
    (hpolicies : ∀ claim policy, claimPolicyOf s entityType claim = some policy →
      Accepted ho policy ∧ NonEmptyLists policy ∧ Repeatable policy)
    (h : gatherPolicies ho (above ++ s :: below) entityType = .ok rule) :
    ∃ rule', gatherPolicies ho (above ++ s :: s' :: below) entityType = .ok rule' ∧
      RuleAlike rule' rule := by
  -- from `s` on: what is gathered by then has absorbed its policies
  have hfinish : ∀ mid, AbsorbsPolicies ho entityType s mid →
      gatherLoop ho entityType mid below = .ok rule →
      ∃ rule', gatherLoop ho entityType mid (s' :: below) = .ok rule' ∧ RuleAlike rule' rule := by
    intro mid habsorbs hbelow
    obtain ⟨mid', hmid', halike⟩ := gatherLoop_restated hrestates habsorbs
    obtain ⟨rule', hrule', halike'⟩ := (lockstep_gatherLoop halike.symm below).exists_of_ok hbelow
    refine ⟨rule', ?_, halike'.symm⟩
    rw [gatherLoop_cons, hmid']
    exact hrule'
  have hown : ∀ claim policy, claimPolicyOf s entityType claim = some policy →
      ∃ again, combineClaimPolicy ho policy policy = .ok again ∧ Alike again policy := by
    intro claim policy hpolicy
    obtain ⟨haccepted, hlists, hrep⟩ := hpolicies claim policy hpolicy
    exact harmless_of_repeatable haccepted hlists hrep
  cases above with
  | nil =>
      -- `s` is the first statement: its policies are what is gathered, and absorb themselves
      refine hfinish (ruleOf s entityType) (fun claim policy hpolicy => ?_) h
      obtain ⟨again, hagain, halike⟩ := hown claim policy hpolicy
      exact ⟨policy, again, hpolicy, hagain, halike⟩
  | cons t above =>
      have h : gatherLoop ho entityType (ruleOf t entityType) (above ++ s :: below) = .ok rule := h
      rw [gatherLoop_append] at h
      obtain ⟨start, hstart, h⟩ := except_bind_eq_ok.mp h
      rw [gatherLoop_cons] at h
      obtain ⟨mid, hmid, hbelow⟩ := except_bind_eq_ok.mp h
      -- below others its policies are combined with theirs, or taken over as they are
      have habsorbs : AbsorbsPolicies ho entityType s mid := by
        intro claim policy hpolicy
        obtain ⟨hboth, -, hnew⟩ := gatherLoop_one_claimPolicy claim hmid
        cases hp : start.metadataPolicy.lookup claim with
        | none =>
            obtain ⟨again, hagain, halike⟩ := hown claim policy hpolicy
            exact ⟨policy, again, (hnew hp).trans hpolicy, hagain, halike⟩
        | some p =>
            obtain ⟨combined, hcombined, hlookup⟩ := hboth p policy hp hpolicy
            obtain ⟨-, hlists, hrep⟩ := hpolicies claim policy hpolicy
            obtain ⟨again, hagain, halike⟩ := combine_again hlists hrep hcombined
            exact ⟨combined, again, hlookup, hagain, halike⟩
      obtain ⟨rule', hrule', halike⟩ := hfinish mid habsorbs hbelow
      refine ⟨rule', ?_, halike⟩
      show gatherLoop ho entityType (ruleOf t entityType) (above ++ s :: s' :: below) = .ok rule'
      rw [gatherLoop_append, hstart]
      show gatherLoop ho entityType start (s :: s' :: below) = .ok rule'
      rw [gatherLoop_cons, hmid]
      exact hrule'

/-- A policy that is accepted on its own can be combined with itself, and stays what it is,
    exactly if it gives no value next to `essential` and, without a value, its lists can be
    read as sets.  A statement that repeats such policies of the statement above it neither
    breaks a chain nor changes what is gathered along it. -/
theorem repeated_policy_iff :
    (∀ policy : ClaimPolicy, Accepted ho policy → NonEmptyLists policy →
      (Harmless ho policy ↔ Repeatable policy)) ∧
    ∀ (entityType : String) (above below : List (Statement Key)) (s s' : Statement Key)
      (rule : Rule), Restates entityType s s' →
      (∀ claim policy, claimPolicyOf s entityType claim = some policy →
        Accepted ho policy ∧ NonEmptyLists policy ∧ Repeatable policy) →
      gatherPolicies ho (above ++ s :: below) entityType = .ok rule →
      ∃ rule', gatherPolicies ho (above ++ s :: s' :: below) entityType = .ok rule' ∧
        RuleAlike rule' rule := by
  constructor
  · intro policy haccepted hlists
    exact ⟨repeatable_of_harmless, harmless_of_repeatable haccepted hlists⟩
  · intro entityType above below s s' rule hrestates hpolicies h
    exact gatherPolicies_restated hrestates hpolicies h

/-- The scopes that a superior allows. -/
def allowedScopes : ClaimPolicy :=
  Dict.ofList [("subset_of", .arr [.str "openid", .str "email"])]

/-- The statement of `iss` about `sub`, which allows these scopes. -/
def scopeStatement (iss sub : EntityId) : Statement String where
  iss := iss
  sub := sub
  metadataPolicy := some (Dict.ofList [("openid_relying_party",
    Dict.ofList [("scope", allowedScopes)])])

/-- The scopes allowed twice, and by the trust anchor and the intermediate below it. -/
theorem repeated_policy_iff_scopes :
    (Harmless .insertion allowedScopes ↔ Repeatable allowedScopes) ∧
      ∃ rule, gatherPolicies .insertion
          [scopeStatement "https://ta.example" "https://im.example",
            scopeStatement "https://im.example" "https://rp.example"]
          "openid_relying_party" = .ok rule ∧
        RuleAlike rule (ruleOf (scopeStatement "https://ta.example" "https://im.example")
          "openid_relying_party") := by
  have haccepted : Accepted .insertion allowedScopes := ⟨_, rfl⟩
  have hlists : NonEmptyLists allowedScopes := by
    intro k hk v hv
    cases k with
    | subsetOf => exact ⟨_, _, (Option.some.inj hv).symm⟩
    | supersetOf | oneOf | add =>
        have hnone : (none : Option Json) = some v := hv
        cases hnone
    | value | default | essential => exact absurd hk (by decide)
  have hrep : Repeatable allowedScopes := by
    refine ⟨fun hvalue => absurd hvalue (by decide), fun _ k hk xs hxs x hx => ?_⟩
    cases k with
    | subsetOf =>
        have hxs : some (Json.arr [.str "openid", .str "email"]) = some (.arr xs) := hxs
        obtain rfl := Json.arr.inj (Option.some.inj hxs)
        rcases List.mem_pair.mp hx with rfl | rfl
        · rfl
        · rfl
    | supersetOf | oneOf | add =>
        have hnone : (none : Option Json) = some (.arr xs) := hxs
        cases hnone
    | value | default | essential => exact absurd hk (by decide)
  refine ⟨(@repeated_policy_iff String .insertion).1 allowedScopes haccepted hlists,
    repeated_policy_iff.2 "openid_relying_party" [] [] _ _ _ ⟨fun claim => rfl, rfl⟩ ?_ rfl⟩
  intro claim policy hpolicy
  by_cases hscope : claim = "scope"
  · subst hscope
    obtain rfl : allowedScopes = policy := Option.some.inj hpolicy
    exact ⟨haccepted, hlists, hrep⟩
  · have hnone : claimPolicyOf (scopeStatement "https://ta.example" "https://im.example")
        "openid_relying_party" claim = none := by
      show (Dict.ofList [("scope", allowedScopes)]).lookup claim = none
      rw [AList.lookup_eq_none]
      exact fun hmem => hscope (List.mem_singleton.mp hmem)
    rw [hnone] at hpolicy
    cases hpolicy

/-- A value that has to be there, stated twice. -/
theorem essential_value_refused :
    ¬ ∀ policy : ClaimPolicy, Accepted .insertion policy → NonEmptyLists policy →
      Harmless .insertion policy := by
  intro h
  obtain ⟨combined, hcombined, -⟩ :=
    h (Dict.ofList [("value", .str "web"), ("essential", .bool true)]) ⟨_, rfl⟩ (by
      intro k hk v hv
      cases k with
      | subsetOf | supersetOf | oneOf | add =>
        have hnone : (none : Option Json) = some v := hv
        cases hnone
      | value | default | essential => exact absurd hk (by decide))
  have hrefused : (combineClaimPolicy .insertion
      (Dict.ofList [("value", .str "web"), ("essential", .bool true)])
      (Dict.ofList [("value", .str "web"), ("essential", .bool true)])).isOk = false := by
    decide +kernel
  rw [hcombined] at hrefused
  exact absurd hrefused (by simp [Except.isOk, Except.toBool])

end Fedservice.Entity.Function
