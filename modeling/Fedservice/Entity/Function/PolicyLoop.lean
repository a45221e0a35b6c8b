/-
  Fedservice.Entity.Function.PolicyLoop

  The loop of `apply_metadata_policy` as a whole: it ends, `op_place` always
  finds the operator it is asked for, and what comes of it is what the operators
  run in order come to, claim by claim, in whichever order the set of claims is
  walked.
-/

import Fedservice.Entity.Function.PolicySemantics

namespace Fedservice.Entity.Function

open Fedservice.Lib Fedservice.Py Fedservice.EntityStatement

variable {ho : HashOrder}

/-! ## Which operator comes next -/

/-- An operator that names another one names `essential`, and is not the last one itself. -/
theorem onSlot_next_eq {kind : OperatorKind} {claim : String} {policy : ClaimPolicy}
    {slot : Option Json} {r : OpResult}
    (h : (PolicyOperator.init kind).onSlot ho claim policy slot = .ok r) (hne : r.next ≠ "") :
    r.next = "essential" ∧ kind ≠ .essential := by
  by_cases hvalue : kind = .value
  · subst hvalue
    obtain ⟨param, -, hcall⟩ := onSlot_eq_ok h
    obtain rfl := Except.ok.inj hcall
    exact ⟨rfl, by decide⟩
  · by_cases honeOf : kind = .oneOf
    · subst honeOf
      obtain ⟨param, -, hcall⟩ := onSlot_eq_ok h
      rcases oneOf_call_eq_ok hcall with ⟨-, rfl⟩ | ⟨v, -, -, -, rfl⟩
      · exact absurd rfl hne
      · exact ⟨rfl, by decide⟩
    · -- the other operators return `None`
      exact absurd (onSlot_next hvalue (fun hk => absurd hk honeOf) h) hne

/-- What stands at an index of the operator list. -/
theorem evaluationSequence_getElem? {i : Nat} {op : PolicyOperator}
    (h : constructEvaluationSequence[i]? = some op) :
    ∃ kind, policyApplicationOrder[i]? = some kind ∧ op = PolicyOperator.init kind := by
  rw [constructEvaluationSequence, List.getElem?_map, Option.map_eq_some_iff] at h
  obtain ⟨kind, hkind, rfl⟩ := h
  exact ⟨kind, hkind, rfl⟩

/-- `essential` is the last operator, so it is found from every index of the list. -/
theorem opPlace_essential {i : Nat} (hi : i ≤ 6) :
    opPlace "essential" constructEvaluationSequence i = some 6 := by
  have hall : ∀ i : Fin 7, opPlace "essential" constructEvaluationSequence i = some 6 := by decide
  exact hall ⟨i, Nat.lt_succ_of_le hi⟩

/-- An operator other than `essential` stands before it. -/
theorem lt_of_ne_essential {i : Nat} {kind : OperatorKind}
    (h : policyApplicationOrder[i]? = some kind) (hne : kind ≠ .essential) : i < 6 := by
  have hlt : i < 7 := (List.getElem?_eq_some_iff.mp h).1
  have hlast : i ≠ 6 := by
    rintro rfl
    exact hne (Option.some.inj h).symm
  omega

/-- `op_place` finds the operator that was named, further down the list. -/
theorem opPlace_of_call {i : Nat} {op : PolicyOperator} {claim next : String}
    {policy : ClaimPolicy} {m m' : Metadata} (hop : constructEvaluationSequence[i]? = some op)
    (hcall : op.call ho claim policy m = .ok next m') (hne : next ≠ "") :
    ∃ j, opPlace next constructEvaluationSequence i = some j ∧ i < j := by
  obtain ⟨kind, hkind, rfl⟩ := evaluationSequence_getElem? hop
  rcases call_apply ho (PolicyOperator.init kind) claim policy m with
    ⟨e, -, herror⟩ | ⟨r, m₁, honslot, hok, -, -⟩
  · rw [herror] at hcall
    exact absurd hcall (by simp)
  · rw [hok] at hcall
    obtain ⟨rfl, -⟩ := EStateM.Result.ok.inj hcall
    obtain ⟨hnext, hkne⟩ := onSlot_next_eq honslot hne
    have hi := lt_of_ne_essential hkind hkne
    exact ⟨6, by rw [hnext, opPlace_essential (Nat.le_of_lt hi)], hi⟩

/-! ## The loop ends -/

/-- One round of the loop, given what the rounds to come do from each index. -/
def loopRound (ho : HashOrder) (ops : List PolicyOperator) (claim : String) (policy : ClaimPolicy)
    (go : Nat → EStateM Exc Metadata Unit) (i : Nat) : EStateM Exc Metadata Unit :=
  let advance : EStateM Exc Metadata Unit := if i + 1 ≥ ops.length then pure () else go (i + 1)
  match ops[i]? with
  | none => throw .indexError
  | some op =>
      if op.name ∈ policy then do
        let next ← op.call ho claim policy
        if next ≠ "" then
          match opPlace next ops i with
          | some j => go j
          | none => throw .typeError
        else advance
      else advance

theorem applyOperators_succ (ops : List PolicyOperator) (claim : String) (policy : ClaimPolicy)
    (fuel i : Nat) :
    applyOperators ho ops claim policy (fuel + 1) i =
      loopRound ho ops claim policy (applyOperators ho ops claim policy fuel) i := rfl

/-- A round that does not run out of fuel only looks at rounds that do not. -/
theorem loopRound_congr {ops : List PolicyOperator} {claim : String} {policy : ClaimPolicy}
    {go go' : Nat → EStateM Exc Metadata Unit} {i : Nat} {m : Metadata}
    (hgo : ∀ j t, outcome (go j t) ≠ .error .outOfFuel → go' j t = go j t)
    (h : outcome (loopRound ho ops claim policy go i m) ≠ .error .outOfFuel) :
    loopRound ho ops claim policy go' i m = loopRound ho ops claim policy go i m := by
  have hadvance : ∀ {t : Metadata},
      outcome ((if i + 1 ≥ ops.length then pure () else go (i + 1)) t) ≠ .error .outOfFuel →
        (if i + 1 ≥ ops.length then pure () else go' (i + 1)) t =
          (if i + 1 ≥ ops.length then pure () else go (i + 1)) t := by
    intro t ht
    by_cases hend : i + 1 ≥ ops.length
    · rw [if_pos hend, if_pos hend]
    · rw [if_neg hend] at ht
      rw [if_neg hend, if_neg hend]
      exact hgo (i + 1) t ht
  unfold loopRound at h ⊢
  cases hop : ops[i]? with
  | none => rfl
  | some op =>
      simp only [hop] at h ⊢
      by_cases hmem : op.name ∈ policy
      · rw [if_pos hmem] at h
        rw [if_pos hmem, if_pos hmem]
        cases hcall : op.call ho claim policy m with
        | error e t => rw [bind_of_error hcall, bind_of_error hcall]
        | ok next t =>
            rw [bind_of_ok hcall] at h
            rw [bind_of_ok hcall, bind_of_ok hcall]
            by_cases hne : next ≠ ""
            · -- the index that `op_place` gives
              rw [if_pos hne] at h
              rw [if_pos hne, if_pos hne]
              cases hplace : opPlace next ops i with
              | none => rfl
              | some j =>
                  rw [hplace] at h
                  exact hgo j t h
            · rw [if_neg hne] at h
              rw [if_neg hne, if_neg hne]
              exact hadvance h
      · -- the policy does not have the operator, and the index goes up by one
        rw [if_neg hmem] at h
        rw [if_neg hmem, if_neg hmem]
        exact hadvance h

/-- A loop that came to an end comes to the same end with more fuel, -/
theorem applyOperators_succ_fuel {ops : List PolicyOperator} {claim : String}
    {policy : ClaimPolicy} {fuel i : Nat} {m : Metadata}
    (h : outcome (applyOperators ho ops claim policy fuel i m) ≠ .error .outOfFuel) :
    applyOperators ho ops claim policy (fuel + 1) i m =
      applyOperators ho ops claim policy fuel i m := by
  induction fuel generalizing i m with
  | zero => exact absurd rfl h
  | succ fuel ih =>
      rw [applyOperators_succ] at h ⊢
      rw [applyOperators_succ]
      exact loopRound_congr (fun j t => ih) h

/-- and with any amount more. -/
theorem applyOperators_of_le_fuel {ops : List PolicyOperator} {claim : String}
    {policy : ClaimPolicy} {fuel fuel' i : Nat} {m : Metadata} (hle : fuel ≤ fuel')
    (h : outcome (applyOperators ho ops claim policy fuel i m) ≠ .error .outOfFuel) :
    applyOperators ho ops claim policy fuel' i m =
      applyOperators ho ops claim policy fuel i m := by
  induction fuel', hle using Nat.le_induction with
  | base => rfl
  | succ fuel' hle ih =>
      rw [← ih] at h
      rw [applyOperators_succ_fuel h, ih]

/-- Fuel is the business of the loop alone: this computation is not short of it. -/
def NeedsNoFuel {α : Type} (x : Except Exc α) : Prop := x ≠ .error .outOfFuel

@[simp] theorem needsNoFuel_ok {α : Type} (a : α) : NeedsNoFuel (.ok a) := by simp [NeedsNoFuel]

@[simp] theorem needsNoFuel_pure {α : Type} (a : α) : NeedsNoFuel (pure a) := needsNoFuel_ok a

@[simp] theorem needsNoFuel_error {α : Type} {e : Exc} :
    NeedsNoFuel (.error e : Except Exc α) ↔ e ≠ .outOfFuel := by simp [NeedsNoFuel]

@[simp] theorem needsNoFuel_throw {α : Type} {e : Exc} :
    NeedsNoFuel (throw e : Except Exc α) ↔ e ≠ .outOfFuel := needsNoFuel_error

theorem needsNoFuel_bind {α β : Type} {x : Except Exc α} {f : α → Except Exc β}
    (hx : NeedsNoFuel x) (hf : ∀ a, x = .ok a → NeedsNoFuel (f a)) : NeedsNoFuel (x >>= f) := by
  cases x with
  | error e =>
      intro h
      obtain rfl := Except.error.inj h
      exact hx rfl
  | ok a => exact hf a rfl

theorem needsNoFuel_toSet (a : Json) : NeedsNoFuel a.toSet := by
  unfold Json.toSet
  split
  · simp
  · split <;> simp

theorem needsNoFuel_asSet (a : Json) : NeedsNoFuel a.asSet := by
  unfold Json.asSet Json.singletonSet
  split
  · exact needsNoFuel_toSet a
  · split <;> simp

theorem needsNoFuel_isIn (a b : Json) : NeedsNoFuel (a.isIn b) := by
  cases b with
  | obj fields =>
      simp only [Json.isIn]
      split <;> simp
  | str s => cases a <;> simp [Json.isIn]
  | _ => simp [Json.isIn]

theorem needsNoFuel_oneOf (next : String) (param : Json) (slot : Option Json) :
    NeedsNoFuel (OneOf.call next param slot) := by
  cases slot with
  | none => simp [OneOf.call]
  | some v =>
      simp only [OneOf.call]
      split
      · simp
      · refine needsNoFuel_bind (needsNoFuel_isIn v param) (fun b _ => ?_)
        cases b <;> simp

theorem needsNoFuel_add (param : Json) (slot : Option Json) :
    NeedsNoFuel (Add.call ho param slot) := by
  cases slot with
  | none => simp [Add.call]
  | some v =>
      refine needsNoFuel_bind ?_ (fun s _ => by simp)
      exact needsNoFuel_bind (needsNoFuel_asSet v) (fun base _ =>
        needsNoFuel_bind (needsNoFuel_asSet param) (fun ext _ => by simp))

theorem needsNoFuel_subsetOf (policy : ClaimPolicy) (param : Json) (slot : Option Json) :
    NeedsNoFuel (SubsetOf.call ho policy param slot) := by
  cases slot with
  | none => simp [SubsetOf.call]
  | some v =>
      simp only [SubsetOf.call]
      split
      · refine needsNoFuel_bind (needsNoFuel_toSet param) (fun p _ =>
          needsNoFuel_bind (needsNoFuel_toSet v) (fun q _ => ?_))
        split <;> simp
      · refine needsNoFuel_bind (needsNoFuel_isIn v policy.toJson) (fun b _ => ?_)
        cases b with
        | false => simp
        | true =>
            rw [if_pos rfl]
            split
            · split <;> simp
            · simp

theorem needsNoFuel_supersetOf (param : Json) (slot : Option Json) :
    NeedsNoFuel (SupersetOf.call param slot) := by
  cases slot with
  | none => simp [SupersetOf.call]
  | some v =>
      refine needsNoFuel_bind (needsNoFuel_toSet param) (fun p _ =>
        needsNoFuel_bind (needsNoFuel_toSet v) (fun q _ => ?_))
      split <;> simp

/-- No operator is short of fuel. -/
theorem needsNoFuel_onSlot (op : PolicyOperator) (claim : String) (policy : ClaimPolicy)
    (slot : Option Json) : NeedsNoFuel (op.onSlot ho claim policy slot) := by
  have hitem : NeedsNoFuel (item policy op.name) := by
    unfold item
    cases policy.lookup op.name <;> simp
  refine needsNoFuel_bind hitem (fun param _ => ?_)
  cases op.kind with
  | value => simp [Value.call]
  | add => exact needsNoFuel_add param slot
  | default => cases slot <;> simp [Default.call]
  | oneOf => exact needsNoFuel_oneOf op.next param slot
  | subsetOf => exact needsNoFuel_subsetOf policy param slot
  | supersetOf => exact needsNoFuel_supersetOf param slot
  | essential =>
      cases slot with
      | some v => simp [Essential.call]
      | none =>
          simp only [Essential.call]
          split <;> simp

theorem needsNoFuel_runOperator (claim : String) (policy : ClaimPolicy) (kind : OperatorKind)
    (slot : Option Json) : NeedsNoFuel (runOperator ho claim policy kind slot) := by
  unfold runOperator
  split
  · exact needsNoFuel_bind (needsNoFuel_onSlot _ _ _ _) (fun r _ => by simp)
  · simp

theorem needsNoFuel_evalClaim (claim : String) (policy : ClaimPolicy) (slot : Option Json) :
    NeedsNoFuel (evalClaim ho claim policy slot) := by
  have hrun : ∀ kind slot, NeedsNoFuel (runOperator ho claim policy kind slot) :=
    needsNoFuel_runOperator claim policy
  unfold evalClaim
  split
  · exact needsNoFuel_bind (hrun _ _) (fun _ _ => hrun _ _)
  · refine needsNoFuel_bind (hrun _ _) (fun _ _ => needsNoFuel_bind (hrun _ _) (fun _ _ =>
      needsNoFuel_bind (hrun _ _) (fun _ _ => ?_)))
    split
    · exact hrun _ _
    · exact needsNoFuel_bind (hrun _ _) (fun _ _ =>
        needsNoFuel_bind (hrun _ _) (fun _ _ => hrun _ _))

/-- Fuel for one round per operator is enough for the loop of a claim. -/
theorem applyOperators_ends {fuel : Nat} (claim : String) (policy : ClaimPolicy) (m : Metadata)
    (hfuel : constructEvaluationSequence.length ≤ fuel) :
    outcome (applyOperators ho constructEvaluationSequence claim policy fuel 0 m) ≠
      .error .outOfFuel := by
  intro h
  obtain ⟨m', hrun⟩ := outcome_eq_error.mp h
  have hspec := @applyOperators_spec_of_le ho claim policy fuel m hfuel
  rw [hrun] at hspec
  cases heval : evalClaim ho claim policy (m.lookup claim) with
  | ok slot => simp [heval, SlotResult] at hspec
  | error e =>
      rw [heval] at hspec
      obtain ⟨rfl, -⟩ := hspec
      exact needsNoFuel_evalClaim claim policy _ heval

/-! ## The loop over the claims -/

/-- A claim that is not walked keeps its slot, also when the walk is left by an exception. -/
theorem lookup_applyClaims_of_not_mem {metadataPolicy : MetadataPolicy} {claims : List String}
    {c : String} (hc : c ∉ claims) (m : Metadata) :
    (finalState (applyClaims ho constructEvaluationSequence metadataPolicy claims m)).lookup c =
      m.lookup c := by
  induction claims generalizing m with
  | nil => rfl
  | cons claim rest ih =>
      obtain ⟨hne, hrest⟩ := not_or.mp (fun h => hc (List.mem_cons.mpr h))
      have hspec := @applyOperators_spec ho claim ((metadataPolicy.lookup claim).getD ∅) m
      rw [applyClaims]
      cases hrun : applyOperators ho constructEvaluationSequence claim
          ((metadataPolicy.lookup claim).getD ∅) constructEvaluationSequence.length 0 m with
      | error e m₁ =>
          cases heval : evalClaim ho claim ((metadataPolicy.lookup claim).getD ∅)
              (m.lookup claim) with
          | ok slot => simp [hrun, heval, SlotResult] at hspec
          | error e' =>
              rw [hrun, heval] at hspec
              rw [bind_of_error hrun]
              exact hspec.2 c hne
      | ok u m₁ =>
          cases heval : evalClaim ho claim ((metadataPolicy.lookup claim).getD ∅)
              (m.lookup claim) with
          | error e => simp [hrun, heval, SlotResult] at hspec
          | ok slot =>
              rw [hrun, heval] at hspec
              rw [bind_of_ok hrun, ih hrest m₁]
              exact hspec.2 c hne

/-- In whichever order the claims are walked, the slots are the same in the end. -/
theorem applyClaims_perm {metadataPolicy : MetadataPolicy} {claims claims' : List String}
    {m m' : Metadata} (hperm : claims.Perm claims') (hnodup : claims.Nodup)
    (h : applyClaims ho constructEvaluationSequence metadataPolicy claims m = .ok () m') :
    ∃ m'', applyClaims ho constructEvaluationSequence metadataPolicy claims' m = .ok () m'' ∧
      ∀ c, m''.lookup c = m'.lookup c := by
  have hslots : evalClaims ho metadataPolicy claims (fun c => m.lookup c) =
      .ok (fun c => m'.lookup c) := by
    rw [← slotsOf_applyClaims, h]
    rfl
  have hslots' := updateEach_perm hperm hnodup hslots
  change evalClaims ho metadataPolicy claims' _ = _ at hslots'
  rw [← slotsOf_applyClaims] at hslots'
  obtain ⟨m'', hrun, hsame⟩ := slotsOf_eq_ok.mp hslots'
  exact ⟨m'', hrun, fun c => congrFun hsame c⟩

/-- The loop over operators and claims against the operators run in order: for every
    metadata policy and metadata `op_place` finds what it is asked for, each loop ends, the
    outcome is that of the walk which settles claim after claim, a success does not depend
    on the order of the claims, and claims without a policy keep their slot. -/
theorem applyMetadataPolicy_refines_evalClaims (ho : HashOrder) (metadataPolicy : MetadataPolicy)
    (metadata : Metadata) :
    (∀ i op claim policy m next m', constructEvaluationSequence[i]? = some op →
        op.call ho claim policy m = .ok next m' → next ≠ "" →
        ∃ j, opPlace next constructEvaluationSequence i = some j ∧ i < j) ∧
      (∀ claim policy m fuel, constructEvaluationSequence.length ≤ fuel →
        outcome (applyOperators ho constructEvaluationSequence claim policy fuel 0 m) ≠
            .error .outOfFuel ∧
          applyOperators ho constructEvaluationSequence claim policy fuel 0 m =
            applyOperators ho constructEvaluationSequence claim policy
              constructEvaluationSequence.length 0 m) ∧
      outcome (applyMetadataPolicy ho metadataPolicy constructEvaluationSequence metadata) ≠
        .error .outOfFuel ∧
      slotsOf (applyMetadataPolicy ho metadataPolicy constructEvaluationSequence metadata) =
        evalClaims ho metadataPolicy (ho.arrange metadataPolicy.keys)
          (fun claim => metadata.lookup claim) ∧
      (∀ claims claims' m', claims.Perm metadataPolicy.keys → claims'.Perm metadataPolicy.keys →
        applyClaims ho constructEvaluationSequence metadataPolicy claims metadata = .ok () m' →
        ∃ m'', applyClaims ho constructEvaluationSequence metadataPolicy claims' metadata =
            .ok () m'' ∧ ∀ claim, m''.lookup claim = m'.lookup claim) ∧
      ∀ claim, claim ∉ metadataPolicy →
        (finalState (applyMetadataPolicy ho metadataPolicy constructEvaluationSequence
          metadata)).lookup claim = metadata.lookup claim := by
  have hslots : slotsOf (applyMetadataPolicy ho metadataPolicy constructEvaluationSequence
      metadata) = evalClaims ho metadataPolicy (ho.arrange metadataPolicy.keys)
        (fun claim => metadata.lookup claim) := slotsOf_applyClaims metadata
  refine ⟨fun i op claim policy m next m' => opPlace_of_call, ?_, ?_, hslots, ?_, ?_⟩
  · intro claim policy m fuel hfuel
    have hends := @applyOperators_ends ho _ claim policy m (Nat.le_refl _)
    exact ⟨applyOperators_ends claim policy m hfuel, applyOperators_of_le_fuel hfuel hends⟩
  · -- the specification has no fuel to run out of
    intro h
    obtain ⟨m', hrun⟩ := outcome_eq_error.mp h
    rw [hrun] at hslots
    obtain ⟨claim, -, slot, herror⟩ := updateEach_eq_error hslots.symm
    exact needsNoFuel_evalClaim claim _ slot herror
  · intro claims claims' m' hperm hperm'
    exact applyClaims_perm (hperm.trans hperm'.symm)
      (hperm.nodup_iff.mpr metadataPolicy.keys_nodup)
  · intro claim hclaim
    have hnot : claim ∉ ho.arrange metadataPolicy.keys := fun h =>
      hclaim (AList.mem_keys.mpr (ho.mem_arrange.mp h))
    exact lookup_applyClaims_of_not_mem hnot metadata

end Fedservice.Entity.Function
