/-
  Fedservice.Entity.Function.PolicySemantics

  What `apply_metadata_policy` does to one claim, said without the loop.
  `evalClaim` runs the operators of a claim policy in order on the slot of the
  claim; the index-jumping loop over the operator list computes it and touches
  no other claim (`applyOperators_spec`), so a whole application is `evalClaim`
  for each claim that has a policy (`applyMetadataPolicy_eq_ok`).
-/

import Fedservice.Entity.Function.Policy
import Fedservice.Lib.UpdateEach

namespace Fedservice.Entity.Function

open Fedservice.Lib Fedservice.Py Fedservice.EntityStatement

variable (ho : HashOrder)

/-! ## Reference semantics of a claim policy -/

/-- The claim is present and holds `x`. -/
def SlotHolds (slot : Option Json) (x : Json) : Prop := ∃ v, slot = some v ∧ v.Holds x

/-- Run one operator on the slot of a claim, if the policy has it. -/
def runOperator (claim : String) (policy : ClaimPolicy) (kind : OperatorKind)
    (slot : Option Json) : Except Exc (Option Json) :=
  if kind.name ∈ policy then do
    let r ← (PolicyOperator.init kind).onSlot ho claim policy slot
    return r.assign.or slot
  else return slot

theorem runOperator_of_not_mem {ho : HashOrder} {claim : String} {policy : ClaimPolicy}
    {kind : OperatorKind} {slot : Option Json} (h : kind.name ∉ policy) :
    runOperator ho claim policy kind slot = .ok slot := by
  rw [runOperator, if_neg h]
  rfl

/-- `one_of` takes the decision: the claim holds a value that is not a list. -/
def decidedByOneOf (policy : ClaimPolicy) (slot : Option Json) : Bool :=
  decide (OperatorKind.oneOf.name ∈ policy) && slot.any (fun v => !v.isList)

/-- The operators of a claim policy in order: a value leaves only `essential` to
    be looked at, and so does a single value that is one of those allowed. -/
def evalClaim (claim : String) (policy : ClaimPolicy) (slot : Option Json) :
    Except Exc (Option Json) :=
  let run := runOperator ho claim policy
  if OperatorKind.value.name ∈ policy then do
    let slot ← run .value slot
    run .essential slot
  else do
    let slot ← run .add slot
    let slot ← run .default slot
    let slot' ← run .oneOf slot
    if decidedByOneOf policy slot then run .essential slot'
    else do
      let slot ← run .subsetOf slot'
      let slot ← run .supersetOf slot
      run .essential slot

/-- One operator with the slot as the state, which stays where the operator raises. -/
def slotOperator (claim : String) (policy : ClaimPolicy) (kind : OperatorKind) :
    EStateM Exc (Option Json) Unit := fun slot =>
  match runOperator ho claim policy kind slot with
  | .ok slot' => .ok () slot'
  | .error e => .error e slot

/-- The operators in order with the slot as the state: what `evalClaim` comes to, and what is
    in the slot when an operator raises. -/
def slotClaim (claim : String) (policy : ClaimPolicy) : EStateM Exc (Option Json) Unit :=
  let run := slotOperator ho claim policy
  if OperatorKind.value.name ∈ policy then do
    run .value
    run .essential
  else do
    run .add
    run .default
    let slot ← get
    run .oneOf
    if decidedByOneOf policy slot then run .essential
    else do
      run .subsetOf
      run .supersetOf
      run .essential

/-- The slot that a computation on it ends with, or the exception it raises. -/
def slotOutcome : EStateM.Result Exc (Option Json) Unit → Except Exc (Option Json)
  | .ok _ slot => .ok slot
  | .error e _ => .error e

theorem slotOutcome_operator {ho : HashOrder} {claim : String} {policy : ClaimPolicy}
    {kind : OperatorKind} {slot : Option Json} :
    slotOutcome (slotOperator ho claim policy kind slot) = runOperator ho claim policy kind slot := by
  rw [slotOperator]
  cases runOperator ho claim policy kind slot <;> rfl

theorem slotOutcome_bind {ho : HashOrder} {claim : String} {policy : ClaimPolicy}
    {kind : OperatorKind} {slot : Option Json} {rest : EStateM Exc (Option Json) Unit}
    {eval : Option Json → Except Exc (Option Json)}
    (hrest : ∀ slot', slotOutcome (rest slot') = eval slot') :
    slotOutcome ((slotOperator ho claim policy kind >>= fun _ => rest) slot) =
      (runOperator ho claim policy kind slot >>= eval) := by
  cases hrun : runOperator ho claim policy kind slot with
  | error e =>
      have hop : slotOperator ho claim policy kind slot = .error e slot := by
        rw [slotOperator, hrun]
      rw [bind_of_error hop]
      rfl
  | ok slot' =>
      have hop : slotOperator ho claim policy kind slot = .ok () slot' := by
        rw [slotOperator, hrun]
      rw [bind_of_ok hop, hrest]
      rfl

/-- What the operators come to does not depend on how the slot is handed on. -/
theorem slotOutcome_slotClaim {ho : HashOrder} {claim : String} {policy : ClaimPolicy}
    (slot : Option Json) :
    slotOutcome (slotClaim ho claim policy slot) = evalClaim ho claim policy slot := by
  rw [slotClaim, evalClaim]
  by_cases hv : OperatorKind.value.name ∈ policy
  · rw [if_pos hv, if_pos hv]
    exact slotOutcome_bind (fun _ => slotOutcome_operator)
  · rw [if_neg hv, if_neg hv]
    refine slotOutcome_bind (fun _ => slotOutcome_bind (fun slot => ?_))
    rw [bind_of_ok (get_apply slot)]
    refine slotOutcome_bind (fun slot' => ?_)
    by_cases hdec : decidedByOneOf policy slot = true
    · rw [if_pos hdec, if_pos hdec]
      exact slotOutcome_operator
    · rw [if_neg hdec, if_neg hdec]
      exact slotOutcome_bind (fun _ => slotOutcome_bind (fun _ => slotOutcome_operator))

/-! ## What each operator can do -/

section Operators

variable {ho} {claim next : String} {policy : ClaimPolicy} {param : Json} {slot : Option Json}
  {r : OpResult}

theorem add_call_eq_ok (h : Add.call ho param slot = .ok r) :
    (slot = none ∧ r = { assign := some param }) ∨
      ∃ v s, slot = some v ∧ union v param = .ok s ∧ r = { assign := some (listOf ho s) } := by
  cases slot with
  | none => exact Or.inl ⟨rfl, (Except.ok.inj h).symm⟩
  | some v =>
      obtain ⟨s, hs, h⟩ := except_bind_eq_ok.mp h
      exact Or.inr ⟨v, s, rfl, hs, (except_pure_eq_ok.mp h).symm⟩

theorem default_call_eq_ok (h : Default.call param slot = .ok r) :
    r = { assign := if slot.isSome then none else some param } := by
  cases slot <;> exact (Except.ok.inj h).symm

theorem oneOf_call_eq_ok (h : OneOf.call next param slot = .ok r) :
    (slot.any (fun v => !v.isList) = false ∧ r = {}) ∨
      ∃ v, slot = some v ∧ v.isList = false ∧ v.isIn param = .ok true ∧ r = { next := next } := by
  cases slot with
  | none => exact Or.inl ⟨rfl, (Except.ok.inj h).symm⟩
  | some v =>
      rw [OneOf.call] at h
      cases hl : v.isList with
      | true =>
          -- a list is passed over, and `None` is returned for the next operator
          rw [if_pos hl] at h
          exact Or.inl ⟨by simp [hl], (Except.ok.inj h).symm⟩
      | false =>
          rw [if_neg (by simp [hl])] at h
          obtain ⟨b, hb, h⟩ := except_bind_eq_ok.mp h
          cases b with
          | true => exact Or.inr ⟨v, rfl, hl, hb, (except_pure_eq_ok.mp h).symm⟩
          | false => simp at h

theorem subsetOf_call_eq_ok (h : SubsetOf.call ho policy param slot = .ok r) :
    (slot = none ∧ r = {}) ∨
      (∃ v p q, slot = some v ∧ v.isList = true ∧ param.toSet = .ok p ∧ v.toSet = .ok q ∧
        r = { assign := some (listOf ho (p.inter q)) }) ∨
      ∃ v xs, slot = some v ∧ v.isList = false ∧ v.isIn policy.toJson = .ok true ∧
        r = { assign := some (.arr xs) } := by
  cases slot with
  | none => exact Or.inl ⟨rfl, (Except.ok.inj h).symm⟩
  | some v =>
      rw [SubsetOf.call] at h
      cases hl : v.isList with
      | true =>
          -- a list is cut down to what is listed
          rw [if_pos hl] at h
          obtain ⟨p, hp, h⟩ := except_bind_eq_ok.mp h
          obtain ⟨q, hq, h⟩ := except_bind_eq_ok.mp h
          cases he : (p.inter q).isEmpty with
          | true => simp [he] at h
          | false =>
              simp only [he, Bool.false_eq_true, if_false, except_pure_eq_ok] at h
              exact Or.inr (Or.inl ⟨v, p, q, rfl, hl, hp, hq, h.symm⟩)
      | false =>
          -- a single value has to name an operator, and is then split up
          rw [if_neg (by simp [hl])] at h
          obtain ⟨b, hb, h⟩ := except_bind_eq_ok.mp h
          cases b with
          | false => simp at h
          | true =>
              rw [if_pos rfl] at h
              cases ht : v.truthy with
              | false => simp [ht] at h
              | true =>
                  rw [if_pos ht] at h
                  cases hxs : v.iter? with
                  | none => simp [hxs] at h
                  | some xs =>
                      simp only [hxs, except_pure_eq_ok] at h
                      exact Or.inr (Or.inr ⟨v, xs, rfl, hl, hb, h.symm⟩)

theorem supersetOf_call_eq_ok (h : SupersetOf.call param slot = .ok r) :
    r = {} ∧ ∀ v, slot = some v → ∃ p q, param.toSet = .ok p ∧ v.toSet = .ok q ∧
      (p.sdiff q).isEmpty = true := by
  cases slot with
  | none => exact ⟨(Except.ok.inj h).symm, fun v hv => by simp at hv⟩
  | some v =>
      obtain ⟨p, hp, h⟩ := except_bind_eq_ok.mp h
      obtain ⟨q, hq, h⟩ := except_bind_eq_ok.mp h
      cases he : (p.sdiff q).isEmpty with
      | false => simp [he] at h
      | true =>
          rw [he, if_pos rfl] at h
          refine ⟨(except_pure_eq_ok.mp h).symm, fun w hw => ?_⟩
          obtain rfl := Option.some.inj hw
          exact ⟨p, q, hp, hq, he⟩

theorem essential_call_eq_ok (h : Essential.call claim param slot = .ok r) :
    r = {} ∧ (param.eqv (.bool true) = true → slot.isSome = true) := by
  cases slot with
  | some v => exact ⟨(Except.ok.inj h).symm, fun _ => rfl⟩
  | none =>
      rw [Essential.call] at h
      cases hp : param.eqv (.bool true) with
      | true => simp [hp] at h
      | false =>
          rw [hp, if_neg (by simp)] at h
          exact ⟨(Except.ok.inj h).symm, by simp⟩

theorem onSlot_eq_ok {kind : OperatorKind}
    (h : (PolicyOperator.init kind).onSlot ho claim policy slot = .ok r) :
    ∃ param, policy.lookup kind.name = some param ∧
      match kind with
      | .value => Value.call (PolicyOperator.init kind).next param = .ok r
      | .add => Add.call ho param slot = .ok r
      | .default => Default.call param slot = .ok r
      | .oneOf => OneOf.call (PolicyOperator.init kind).next param slot = .ok r
      | .subsetOf => SubsetOf.call ho policy param slot = .ok r
      | .supersetOf => SupersetOf.call param slot = .ok r
      | .essential => Essential.call claim param slot = .ok r := by
  obtain ⟨param, hparam, h⟩ := except_bind_eq_ok.mp h
  exact ⟨param, item_eq_ok.mp hparam, by cases kind <;> exact h⟩

/-- Only `value`, and `one_of` when it decides, name the next operator. -/
theorem onSlot_next {kind : OperatorKind} (hvalue : kind ≠ .value)
    (honeOf : kind = .oneOf → slot.any (fun v => !v.isList) = false)
    (h : (PolicyOperator.init kind).onSlot ho claim policy slot = .ok r) : r.next = "" := by
  obtain ⟨param, -, h⟩ := onSlot_eq_ok h
  cases kind with
  | value => exact absurd rfl hvalue
  | add => rcases add_call_eq_ok h with ⟨-, rfl⟩ | ⟨v, s, -, -, rfl⟩ <;> rfl
  | default => rw [default_call_eq_ok h]
  | oneOf =>
      rcases oneOf_call_eq_ok h with ⟨-, rfl⟩ | ⟨v, rfl, hl, -⟩
      · rfl
      · simp [hl] at honeOf
  | subsetOf =>
      rcases subsetOf_call_eq_ok h with ⟨-, rfl⟩ | ⟨v, p, q, -, -, -, -, rfl⟩ | ⟨v, xs, -, -, -, rfl⟩ <;>
        rfl
  | supersetOf => rw [(supersetOf_call_eq_ok h).1]
  | essential => rw [(essential_call_eq_ok h).1]

end Operators

/-! ## One operator on the metadata -/

/-- `m'` differs from `m` at most in the claim. -/
def OnlyClaim (claim : String) (m m' : Metadata) : Prop :=
  ∀ c, c ≠ claim → m'.lookup c = m.lookup c

theorem OnlyClaim.refl (claim : String) (m : Metadata) : OnlyClaim claim m m := fun _ _ => rfl

theorem OnlyClaim.trans {claim : String} {m₁ m₂ m₃ : Metadata} (h : OnlyClaim claim m₁ m₂)
    (h' : OnlyClaim claim m₂ m₃) : OnlyClaim claim m₁ m₃ :=
  fun c hc => (h' c hc).trans (h c hc)

/-- `r`, reached from `m`, has in the slot of the claim what `e` says, or raises
    what `e` raises; no other claim is changed. -/
def SlotResult (claim : String) (m : Metadata) :
    EStateM.Result Exc Metadata Unit → Except Exc (Option Json) → Prop
  | .ok _ m', .ok slot => m'.lookup claim = slot ∧ OnlyClaim claim m m'
  | .error e m', .error e' => e = e' ∧ OnlyClaim claim m m'
  | _, _ => False

/-- What an operator called on the metadata does to it. -/
theorem call_apply (o : PolicyOperator) (claim : String) (policy : ClaimPolicy) (m : Metadata) :
    (∃ e, o.onSlot ho claim policy (m.lookup claim) = .error e ∧
        o.call ho claim policy m = .error e m) ∨
      ∃ r m', o.onSlot ho claim policy (m.lookup claim) = .ok r ∧
        o.call ho claim policy m = .ok r.next m' ∧
        m'.lookup claim = r.assign.or (m.lookup claim) ∧ OnlyClaim claim m m' := by
  unfold PolicyOperator.call
  rw [bind_of_ok (get_apply m)]
  cases hr : o.onSlot ho claim policy (m.lookup claim) with
  | error e => exact Or.inl ⟨e, rfl, bind_of_error rfl⟩
  | ok r =>
      rw [bind_of_ok (lift_ok r m)]
      cases ha : r.assign with
      | none => exact Or.inr ⟨r, m, rfl, rfl, by simp [ha], OnlyClaim.refl claim m⟩
      | some v =>
          refine Or.inr ⟨r, m.insert claim v, rfl, rfl, ?_, ?_⟩
          · rw [AList.lookup_insert, ha, Option.some_or]
          · exact fun c hc => AList.lookup_insert_ne hc

/-! ## The loop, from each index on -/

/-- `r`, reached from `m`, has in the slot of the claim what `run` has and raises what it raises;
    no other claim is changed. -/
def SlotRun (claim : String) (m : Metadata) :
    EStateM.Result Exc Metadata Unit → EStateM.Result Exc (Option Json) Unit → Prop
  | .ok _ m', .ok _ slot => m'.lookup claim = slot ∧ OnlyClaim claim m m'
  | .error e m', .error e' slot => e = e' ∧ m'.lookup claim = slot ∧ OnlyClaim claim m m'
  | _, _ => False

/-- The loop from index `i` on does what `run` does, whatever the metadata. -/
def LoopFrom (claim : String) (policy : ClaimPolicy) (fuel i : Nat)
    (run : EStateM Exc (Option Json) Unit) : Prop :=
  ∀ m, SlotRun claim m
    (applyOperators ho constructEvaluationSequence claim policy fuel i m) (run (m.lookup claim))

/-- The same of what is left after index `i`, which is nothing at the end. -/
def LoopAfter (claim : String) (policy : ClaimPolicy) (fuel i : Nat)
    (run : EStateM Exc (Option Json) Unit) : Prop :=
  ∀ m, SlotRun claim m
    ((if i + 1 ≥ constructEvaluationSequence.length then pure ()
      else applyOperators ho constructEvaluationSequence claim policy fuel (i + 1)) m)
    (run (m.lookup claim))

variable {ho} {claim : String} {policy : ClaimPolicy} {fuel : Nat}
  {run : EStateM Exc (Option Json) Unit}

theorem LoopFrom.after {i : Nat} (h : LoopFrom ho claim policy fuel (i + 1) run)
    (hlen : i + 1 < constructEvaluationSequence.length) :
    LoopAfter ho claim policy fuel i run := by
  intro m
  rw [if_neg (Nat.not_le.mpr hlen)]
  exact h m

theorem loopAfter_last : LoopAfter ho claim policy fuel 6 (pure ()) := by
  intro m
  rw [if_pos (by decide)]
  exact ⟨rfl, OnlyClaim.refl claim m⟩

/-- Going on after an operator has been called. -/
theorem slotRun_after {m m' : Metadata} {r : EStateM.Result Exc Metadata Unit}
    {e : EStateM.Result Exc (Option Json) Unit} (hm : OnlyClaim claim m m')
    (h : SlotRun claim m' r e) : SlotRun claim m r e := by
  cases r <;> cases e <;> simp only [SlotRun] at h ⊢
  · exact ⟨h.1, hm.trans h.2⟩
  · exact ⟨h.1, h.2.1, hm.trans h.2.2⟩

/-- The operator on the slot, from what the operator object does. -/
theorem slotOperator_of_error {kind : OperatorKind} {slot : Option Json} {e : Exc}
    (hmem : kind.name ∈ policy)
    (h : (PolicyOperator.init kind).onSlot ho claim policy slot = .error e) :
    slotOperator ho claim policy kind slot = .error e slot := by
  have hrun : runOperator ho claim policy kind slot = .error e := by
    rw [runOperator, if_pos hmem, h]
    rfl
  rw [slotOperator, hrun]

theorem slotOperator_of_ok {kind : OperatorKind} {slot : Option Json} {r : OpResult}
    (hmem : kind.name ∈ policy)
    (h : (PolicyOperator.init kind).onSlot ho claim policy slot = .ok r) :
    slotOperator ho claim policy kind slot = .ok () (r.assign.or slot) := by
  have hrun : runOperator ho claim policy kind slot = .ok (r.assign.or slot) := by
    rw [runOperator, if_pos hmem, h]
    rfl
  rw [slotOperator, hrun]

theorem slotOperator_of_not_mem {kind : OperatorKind} {slot : Option Json}
    (hmem : kind.name ∉ policy) : slotOperator ho claim policy kind slot = .ok () slot := by
  rw [slotOperator, runOperator_of_not_mem hmem]

/-- An operator that does not name the next one: the loop goes on after it. -/
theorem slotRun_plain (kind : OperatorKind) {i : Nat} {m : Metadata}
    (hop : constructEvaluationSequence[i]? = some (PolicyOperator.init kind))
    (hnext : ∀ r, (PolicyOperator.init kind).onSlot ho claim policy (m.lookup claim) = .ok r →
      r.next = "")
    (hrest : LoopAfter ho claim policy fuel i run) :
    SlotRun claim m
      (applyOperators ho constructEvaluationSequence claim policy (fuel + 1) i m)
      ((slotOperator ho claim policy kind >>= fun _ => run) (m.lookup claim)) := by
  rw [applyOperators, hop]
  simp only
  by_cases hmem : kind.name ∈ policy
  · rw [if_pos (show (PolicyOperator.init kind).name ∈ policy from hmem)]
    rcases call_apply ho (PolicyOperator.init kind) claim policy m with
      ⟨e, honslot, hcall⟩ | ⟨r, m', honslot, hcall, hslot, honly⟩
    · -- the operator raises, and the loop with it
      rw [bind_of_error hcall, bind_of_error (slotOperator_of_error hmem honslot)]
      exact ⟨rfl, rfl, OnlyClaim.refl claim m⟩
    · -- it returns `None`: `i += 1`
      rw [bind_of_ok hcall, bind_of_ok (slotOperator_of_ok hmem honslot), hnext r honslot,
        if_neg (by simp), ← hslot]
      exact slotRun_after honly (hrest m')
  · -- the policy does not have the operator: `i += 1` as well
    rw [if_neg (show (PolicyOperator.init kind).name ∉ policy from hmem),
      bind_of_ok (slotOperator_of_not_mem hmem)]
    exact hrest m

/-- An operator that names the next one: the loop goes on where that one stands. -/
theorem slotRun_jump (kind : OperatorKind) {i j : Nat} (next : String) {m : Metadata}
    (hop : constructEvaluationSequence[i]? = some (PolicyOperator.init kind))
    (hmem : kind.name ∈ policy)
    (hnext : ∀ r, (PolicyOperator.init kind).onSlot ho claim policy (m.lookup claim) = .ok r →
      r.next = next)
    (hne : next ≠ "") (hplace : opPlace next constructEvaluationSequence i = some j)
    (hrest : LoopFrom ho claim policy fuel j run) :
    SlotRun claim m
      (applyOperators ho constructEvaluationSequence claim policy (fuel + 1) i m)
      ((slotOperator ho claim policy kind >>= fun _ => run) (m.lookup claim)) := by
  rw [applyOperators, hop]
  simp only
  rw [if_pos (show (PolicyOperator.init kind).name ∈ policy from hmem)]
  rcases call_apply ho (PolicyOperator.init kind) claim policy m with
    ⟨e, honslot, hcall⟩ | ⟨r, m', honslot, hcall, hslot, honly⟩
  · rw [bind_of_error hcall, bind_of_error (slotOperator_of_error hmem honslot)]
    exact ⟨rfl, rfl, OnlyClaim.refl claim m⟩
  · rw [bind_of_ok hcall, bind_of_ok (slotOperator_of_ok hmem honslot), hnext r honslot,
      if_pos hne, hplace, ← hslot]
    exact slotRun_after honly (hrest m')

/-- One of the operators that never name the next one. -/
theorem loopFrom_plain (kind : OperatorKind) {i : Nat}
    (hop : constructEvaluationSequence[i]? = some (PolicyOperator.init kind))
    (hvalue : kind ≠ .value) (honeOf : kind ≠ .oneOf)
    (hrest : LoopAfter ho claim policy fuel i run) :
    LoopFrom ho claim policy (fuel + 1) i (slotOperator ho claim policy kind >>= fun _ => run) :=
  fun _ => slotRun_plain kind hop
    (fun _ hr => onSlot_next hvalue (fun h => absurd h honeOf) hr) hrest

theorem loopFrom_essential :
    LoopFrom ho claim policy (fuel + 1) 6 (slotOperator ho claim policy .essential) := by
  have h : LoopFrom ho claim policy (fuel + 1) 6
      (slotOperator ho claim policy .essential >>= fun _ => pure ()) :=
    loopFrom_plain .essential rfl (by decide) (by decide) loopAfter_last
  have hpure : (slotOperator ho claim policy .essential >>= fun _ => pure ()) =
      slotOperator ho claim policy .essential := bind_pure_unit
  rw [hpure] at h
  exact h

/-- `one_of` either decides, and only `essential` follows, or the loop goes on. -/
theorem loopFrom_oneOf (hrest : LoopFrom ho claim policy (fuel + 1) 4 run) :
    LoopFrom ho claim policy (fuel + 2) 3 (do
      let slot ← get
      slotOperator ho claim policy .oneOf
      if decidedByOneOf policy slot then slotOperator ho claim policy .essential
      else run) := by
  intro m
  rw [bind_of_ok (get_apply (m.lookup claim))]
  cases hdec : decidedByOneOf policy (m.lookup claim) with
  | false =>
      -- no `one_of`, no value, or a list: `one_of` names no next operator
      simp only [Bool.false_eq_true, if_false]
      simp only [decidedByOneOf, Bool.and_eq_false_iff, decide_eq_false_iff_not] at hdec
      refine slotRun_plain .oneOf rfl (fun r hr => ?_) (hrest.after (by decide))
      refine onSlot_next (by decide) (fun _ => hdec.resolve_left (fun hno => ?_)) hr
      obtain ⟨param, hparam, -⟩ := onSlot_eq_ok hr
      exact hno (Dict.mem_iff_lookup.mpr ⟨param, hparam⟩)
  | true =>
      -- a single value among those allowed: the index jumps to `essential`
      simp only [if_true]
      simp only [decidedByOneOf, Bool.and_eq_true, decide_eq_true_eq] at hdec
      obtain ⟨hmem, hscalar⟩ := hdec
      refine slotRun_jump .oneOf "essential" (j := 6) rfl hmem (fun r hr => ?_)
        (by decide) rfl loopFrom_essential
      obtain ⟨param, -, hcall⟩ := onSlot_eq_ok hr
      rcases oneOf_call_eq_ok hcall with ⟨hnot, -⟩ | ⟨v, -, -, -, rfl⟩
      · rw [hscalar] at hnot
        exact absurd hnot (by simp)
      · rfl

/-- The loop for one claim does to its slot what the operators in order do, also where they
    raise, and leaves the other claims alone, with any fuel that is enough for one round per
    operator. -/
theorem applyOperators_slotRun (m : Metadata) (hfuel : constructEvaluationSequence.length ≤ fuel) :
    SlotRun claim m (applyOperators ho constructEvaluationSequence claim policy fuel 0 m)
      (slotClaim ho claim policy (m.lookup claim)) := by
  obtain ⟨fuel, rfl⟩ : ∃ k, fuel = k + 7 :=
    ⟨fuel - 7, (Nat.sub_add_cancel (show 7 ≤ fuel from hfuel)).symm⟩
  unfold slotClaim
  by_cases hv : OperatorKind.value.name ∈ policy
  · -- `value` is the first operator and jumps over all but the last
    rw [if_pos hv]
    refine slotRun_jump .value "essential" (j := 6) rfl hv (fun r hr => ?_)
      (by decide) rfl loopFrom_essential
    obtain ⟨param, -, hcall⟩ := onSlot_eq_ok hr
    exact Except.ok.inj hcall ▸ rfl
  · -- otherwise the loop is built up from its last index to its first
    have h6 : LoopFrom ho claim policy (fuel + 1) 6 (slotOperator ho claim policy .essential) :=
      loopFrom_essential
    have h5 := loopFrom_plain .supersetOf rfl (by decide) (by decide) (h6.after (by decide))
    have h4 := loopFrom_plain .subsetOf rfl (by decide) (by decide) (h5.after (by decide))
    have h3 := loopFrom_oneOf h4
    have h2 := loopFrom_plain .default rfl (by decide) (by decide) (h3.after (by decide))
    have h1 := loopFrom_plain .add rfl (by decide) (by decide) (h2.after (by decide))
    have h0 := slotRun_plain .value (m := m) rfl (fun r hr => ?_) (h1.after (by decide))
    · rw [bind_of_ok (slotOperator_of_not_mem hv)] at h0
      rw [if_neg hv]
      exact h0
    · obtain ⟨param, hparam, -⟩ := onSlot_eq_ok hr
      exact absurd (Dict.mem_iff_lookup.mpr ⟨param, hparam⟩) hv

/-- The loop for one claim computes `evalClaim` on its slot and leaves the other
    claims alone. -/
theorem applyOperators_spec_of_le (m : Metadata)
    (hfuel : constructEvaluationSequence.length ≤ fuel) :
    SlotResult claim m (applyOperators ho constructEvaluationSequence claim policy fuel 0 m)
      (evalClaim ho claim policy (m.lookup claim)) := by
  have hrun := @applyOperators_slotRun ho claim policy fuel m hfuel
  rw [← slotOutcome_slotClaim]
  cases hloop : applyOperators ho constructEvaluationSequence claim policy fuel 0 m with
  | ok u m' =>
      cases hslot : slotClaim ho claim policy (m.lookup claim) with
      | ok u slot =>
          rw [hloop, hslot] at hrun
          exact hrun
      | error e slot => simp [hloop, hslot, SlotRun] at hrun
  | error e m' =>
      cases hslot : slotClaim ho claim policy (m.lookup claim) with
      | ok u slot => simp [hloop, hslot, SlotRun] at hrun
      | error e' slot =>
          rw [hloop, hslot] at hrun
          exact ⟨hrun.1, hrun.2.2⟩

theorem applyOperators_spec (m : Metadata) :
    SlotResult claim m
      (applyOperators ho constructEvaluationSequence claim policy
        constructEvaluationSequence.length 0 m)
      (evalClaim ho claim policy (m.lookup claim)) :=
  applyOperators_spec_of_le m (Nat.le_refl _)

/-! ## All claims -/

/-- Metadata as the claims see it: the slot of each. -/
abbrev Slots := String → Option Json

/-- The slots that a computation on metadata ends with, or the exception it raises. -/
def slotsOf : EStateM.Result Exc Metadata Unit → Except Exc Slots
  | .ok _ m => .ok (fun claim => m.lookup claim)
  | .error e _ => .error e

theorem slotsOf_eq_ok {r : EStateM.Result Exc Metadata Unit} {slots : Slots} :
    slotsOf r = .ok slots ↔ ∃ m, r = .ok () m ∧ (fun claim => m.lookup claim) = slots := by
  cases r with
  | ok u m => simp [slotsOf]
  | error e m => simp [slotsOf]

/-- The operators in order, for one claim after the other. -/
def evalClaims (ho : HashOrder) (metadataPolicy : MetadataPolicy) :
    List String → Slots → Except Exc Slots :=
  updateEach (fun claim => evalClaim ho claim ((metadataPolicy.lookup claim).getD ∅))

/-- The slots after the loop for one claim: only that of the claim is replaced. -/
theorem slotsOf_applyOperators (m : Metadata) :
    slotsOf (applyOperators ho constructEvaluationSequence claim policy
        constructEvaluationSequence.length 0 m) =
      (do
        let slot ← evalClaim ho claim policy (m.lookup claim)
        return Function.update (fun c => m.lookup c) claim slot) := by
  have hspec := @applyOperators_spec ho claim policy m
  cases hrun : applyOperators ho constructEvaluationSequence claim policy
      constructEvaluationSequence.length 0 m with
  | error e m' =>
      cases heval : evalClaim ho claim policy (m.lookup claim) with
      | ok slot => simp [hrun, heval, SlotResult] at hspec
      | error e' =>
          rw [hrun, heval] at hspec
          rw [hspec.1]
          rfl
  | ok u m' =>
      cases heval : evalClaim ho claim policy (m.lookup claim) with
      | error e => simp [hrun, heval, SlotResult] at hspec
      | ok slot =>
          rw [hrun, heval] at hspec
          obtain ⟨hslot, honly⟩ := hspec
          refine congrArg Except.ok (funext (fun c => ?_))
          by_cases hc : c = claim
          · rw [hc, hslot, Function.update_self]
          · rw [honly c hc, Function.update_of_ne hc]

/-- The loop over the claims is the walk that settles one after the other, errors included. -/
theorem slotsOf_applyClaims {metadataPolicy : MetadataPolicy} {claims : List String}
    (m : Metadata) :
    slotsOf (applyClaims ho constructEvaluationSequence metadataPolicy claims m) =
      evalClaims ho metadataPolicy claims (fun c => m.lookup c) := by
  induction claims generalizing m with
  | nil => rfl
  | cons claim rest ih =>
      have hstep := @slotsOf_applyOperators ho claim ((metadataPolicy.lookup claim).getD ∅) m
      rw [evalClaims, updateEach, applyClaims]
      cases heval : evalClaim ho claim ((metadataPolicy.lookup claim).getD ∅) (m.lookup claim) with
      | error e =>
          cases hrun : applyOperators ho constructEvaluationSequence claim
              ((metadataPolicy.lookup claim).getD ∅) constructEvaluationSequence.length 0 m with
          | ok u m' => simp [hrun, heval, slotsOf] at hstep
          | error e' m' =>
              rw [hrun, heval] at hstep
              rw [bind_of_error hrun]
              exact hstep
      | ok slot =>
          rw [heval] at hstep
          obtain ⟨m', hrun, hslots⟩ := slotsOf_eq_ok.mp hstep
          rw [bind_of_ok hrun, ih m', hslots]
          rfl

/-- Step and run over the claims: each claim with a policy has what `evalClaim`
    says, the others are as they were. -/
theorem applyClaims_eq_ok {metadataPolicy : MetadataPolicy} {claims : List String}
    {m m' : Metadata} (hnodup : claims.Nodup)
    (h : applyClaims ho constructEvaluationSequence metadataPolicy claims m = .ok () m') :
    (∀ c ∈ claims, evalClaim ho c ((metadataPolicy.lookup c).getD ∅) (m.lookup c) =
        .ok (m'.lookup c)) ∧
      ∀ c, c ∉ claims → m'.lookup c = m.lookup c := by
  have hslots := @slotsOf_applyClaims ho metadataPolicy claims m
  rw [h] at hslots
  exact (updateEach_eq_ok hnodup).mp hslots.symm

/-- The claims with a policy can be walked exactly if each can be settled. -/
theorem exists_applyClaims_iff {metadataPolicy : MetadataPolicy} {claims : List String}
    (hnodup : claims.Nodup) {m : Metadata} :
    (∃ m', applyClaims ho constructEvaluationSequence metadataPolicy claims m = .ok () m') ↔
      ∀ c ∈ claims, ∃ slot,
        evalClaim ho c ((metadataPolicy.lookup c).getD ∅) (m.lookup c) = .ok slot := by
  rw [← exists_updateEach_iff hnodup (s := fun c => m.lookup c)]
  change _ ↔ ∃ slots, evalClaims ho metadataPolicy claims (fun c => m.lookup c) = .ok slots
  rw [← slotsOf_applyClaims]
  constructor
  · rintro ⟨m', h⟩
    exact ⟨_, slotsOf_eq_ok.mpr ⟨m', h, rfl⟩⟩
  · rintro ⟨slots, h⟩
    obtain ⟨m', h, -⟩ := slotsOf_eq_ok.mp h
    exact ⟨m', h⟩

/-- A successful application, claim by claim. -/
theorem applyMetadataPolicy_eq_ok {metadataPolicy : MetadataPolicy} {m m' : Metadata}
    (h : applyMetadataPolicy ho metadataPolicy constructEvaluationSequence m = .ok () m') :
    (∀ c policy, metadataPolicy.lookup c = some policy →
        evalClaim ho c policy (m.lookup c) = .ok (m'.lookup c)) ∧
      ∀ c, c ∉ metadataPolicy → m'.lookup c = m.lookup c := by
  obtain ⟨hall, hframe⟩ := applyClaims_eq_ok
    (ho.nodup_arrange metadataPolicy.keys_nodup) h
  constructor
  · intro c policy hpolicy
    have hc : c ∈ ho.arrange metadataPolicy.keys :=
      ho.mem_arrange.mpr (AList.mem_keys.mp (Dict.mem_iff_lookup.mpr ⟨policy, hpolicy⟩))
    have heval := hall c hc
    rw [hpolicy, Option.getD_some] at heval
    exact heval
  · exact fun c hc => hframe c (fun hk => hc (AList.mem_keys.mpr (ho.mem_arrange.mp hk)))

end Fedservice.Entity.Function
