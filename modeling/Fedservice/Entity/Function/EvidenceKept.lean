/-
  Fedservice.Entity.Function.EvidenceKept

  What `TrustChainPolicy` does to the statements it works from.  A copy of the
  leaf's metadata is only made where the superiors have metadata of the type;
  elsewhere the operators assign to the dictionary inside the leaf's statement,
  claim after claim, until one of them raises.
-/

import Fedservice.Entity.Function.PolicyApplication
import Fedservice.Entity.Function.PolicyReapplication
import Fedservice.Entity.Function.PolicyLoop

namespace Fedservice.Entity.Function

open Fedservice.Lib Fedservice.Py Fedservice.EntityStatement

variable {ho : HashOrder} {claim : String} {policy : ClaimPolicy}

/-! ## What is in a slot in the end -/

/-- `list(set(subset_of) & set(value))`, where it can be had and holds something; `subset_of`
    raises without an assignment where not. -/
def cutDown (ho : HashOrder) (policy : ClaimPolicy) (v : Json) : Json :=
  match policy.lookup OperatorKind.subsetOf.name with
  | none => v
  | some param => match param.toSet, v.toSet with
      | .ok s, .ok t => if (s.inter t).isEmpty then v else listOf ho (s.inter t)
      | _, _ => v

/-- The operators leave the slot with the value it had: `value` is what is there; a claim that
    is absent gets nothing from `add` and `default`; a list that is there is what is made of it
    by `list(union(..))`, unless that raises, and by the cut with `subset_of`; and a single
    value is not taken for the name of an operator by `subset_of`. -/
def Undisturbed (ho : HashOrder) (policy : ClaimPolicy) (slot : Option Json) : Prop :=
  if OperatorKind.value.name ∈ policy then policy.lookup OperatorKind.value.name = slot
  else match slot with
    | none => OperatorKind.add.name ∉ policy ∧ OperatorKind.default.name ∉ policy
    | some v => match policy.lookup OperatorKind.add.name with
        | some added => ∀ u, union v added = .ok u → cutDown ho policy (listOf ho u) = v
        | none =>
            if v.isList then cutDown ho policy v = v
            else OperatorKind.oneOf.name ∈ policy ∨ OperatorKind.subsetOf.name ∉ policy ∨
              ∀ name ∈ policy, v = .str name → name = ""

/-- A computation that leaves the state as it is, also where it raises. -/
def Quiet (x : EStateM Exc (Option Json) Unit) : Prop := ∀ slot, finalState (x slot) = slot

theorem Quiet.bind {x y : EStateM Exc (Option Json) Unit} (hx : Quiet x) (hy : Quiet y) :
    Quiet (x >>= fun _ => y) := by
  intro slot
  have hslot := hx slot
  cases hrun : x slot with
  | error e slot' =>
      rw [bind_of_error hrun, ← hslot, hrun]
  | ok u slot' =>
      rw [bind_of_ok hrun, hy slot', ← hslot, hrun, finalState_ok]

/-- Quiet steps at the end do not show. -/
theorem finalState_bind_quiet {x y : EStateM Exc (Option Json) Unit} (hy : Quiet y)
    (slot : Option Json) : finalState ((x >>= fun _ => y) slot) = finalState (x slot) := by
  cases hrun : x slot with
  | error e slot' => rw [bind_of_error hrun]
  | ok u slot' =>
      rw [bind_of_ok hrun, hy slot']
      rfl

/-- `one_of`, `superset_of` and `essential` only look. -/
theorem quiet_slotOperator {kind : OperatorKind}
    (hkind : kind = .oneOf ∨ kind = .supersetOf ∨ kind = .essential) :
    Quiet (slotOperator ho claim policy kind) := by
  intro slot
  rw [slotOperator]
  cases hrun : runOperator ho claim policy kind slot with
  | error e => rfl
  | ok slot' =>
      rcases hkind with rfl | rfl | rfl
      · exact (run_oneOf hrun).1
      · exact (run_supersetOf hrun).1
      · exact (run_essential hrun).1

/-- A claim that is present stays so, whatever the operators do. -/
theorem isSome_slotOperator {kind : OperatorKind} :
    Ensures (fun slot => slot.isSome = true) (slotOperator ho claim policy kind)
      (fun _ => True) := by
  intro slot hslot
  refine ⟨?_, fun _ _ _ => trivial⟩
  rw [slotOperator]
  cases hrun : runOperator ho claim policy kind slot with
  | error e => exact hslot
  | ok slot' => exact runOperator_isSome hslot hrun

/-- What `subset_of` leaves of a list. -/
theorem finalState_subsetOf_list (xs : List Json) :
    finalState (slotOperator ho claim policy .subsetOf (some (.arr xs))) =
      some (cutDown ho policy (.arr xs)) := by
  rw [cutDown]
  cases h : policy.lookup OperatorKind.subsetOf.name with
  | none =>
      rw [slotOperator_of_not_mem (AList.lookup_eq_none.mp h)]
      rfl
  | some param =>
      rw [slotOperator, runOperator_of_lookup h]
      simp only [SubsetOf.call]
      rw [if_pos (Json.isList_iff.mpr ⟨xs, rfl⟩)]
      cases hp : param.toSet with
      | error e => rfl
      | ok s =>
          cases hv : (Json.arr xs).toSet with
          | error e => rfl
          | ok t =>
              simp only [except_ok_bind]
              cases hempty : (s.inter t).isEmpty with
              | true => rfl
              | false => rfl

/-- `subset_of` leaves a single value alone unless it names an operator. -/
theorem finalState_subsetOf_single {v : Json} (hv : v.isList = false) :
    finalState (slotOperator ho claim policy .subsetOf (some v)) = some v ↔
      OperatorKind.subsetOf.name ∉ policy ∨ ∀ name ∈ policy, v = .str name → name = "" := by
  cases h : policy.lookup OperatorKind.subsetOf.name with
  | none =>
      have hno := AList.lookup_eq_none.mp h
      rw [slotOperator_of_not_mem hno]
      exact iff_of_true rfl (Or.inl hno)
  | some param =>
      have hmem := Dict.mem_iff_lookup.mpr ⟨param, h⟩
      rw [or_iff_right (fun hno => hno hmem)]
      constructor
      · rintro hkept name hname rfl
        by_contra hne
        have hrun := (@run_subsetOf_str ho claim policy name).1 (fun _ => ⟨hname, hne⟩)
        obtain ⟨slot', hok, hslot⟩ := hrun
        rw [slotOperator, hok] at hkept
        rw [finalState_ok, hslot, if_pos hmem] at hkept
        exact absurd (Option.some.inj hkept) (by simp)
      · intro hnone
        rw [slotOperator]
        cases hrun : runOperator ho claim policy .subsetOf (some v) with
        | error e => rfl
        | ok slot' =>
            rcases runOperator_eq_ok hrun with ⟨hno, -⟩ | ⟨r, hr, -⟩
            · exact absurd hmem hno
            · obtain ⟨param', -, hcall⟩ := onSlot_eq_ok hr
              rw [SubsetOf.call, if_neg (by simp [hv])] at hcall
              obtain ⟨b, hb, hcall⟩ := except_bind_eq_ok.mp hcall
              cases b with
              | false => simp at hcall
              | true =>
                  -- the empty string is no value that `subset_of` lets through
                  obtain ⟨name, hname, rfl⟩ := isIn_toJson hb
                  obtain rfl := hnone name hname rfl
                  simp [Json.truthy] at hcall

/-- The operators from `one_of` on. -/
def slotChecks (ho : HashOrder) (claim : String) (policy : ClaimPolicy) :
    EStateM Exc (Option Json) Unit := do
  let slot ← get
  slotOperator ho claim policy .oneOf
  if decidedByOneOf policy slot then slotOperator ho claim policy .essential
  else do
    slotOperator ho claim policy .subsetOf
    slotOperator ho claim policy .supersetOf
    slotOperator ho claim policy .essential

theorem slotClaim_of_no_value (hv : OperatorKind.value.name ∉ policy) :
    slotClaim ho claim policy = (do
      slotOperator ho claim policy .add
      slotOperator ho claim policy .default
      slotChecks ho claim policy) := if_neg hv

theorem isSome_slotChecks : Ensures (fun slot : Option Json => slot.isSome = true)
    (slotChecks ho claim policy) (fun _ => True) := by
  refine ensures_get.bind (fun slot _ => isSome_slotOperator.bind (fun _ _ => ?_))
  split
  · exact isSome_slotOperator
  · exact isSome_slotOperator.bind (fun _ _ => isSome_slotOperator.bind
      (fun _ _ => isSome_slotOperator))

/-- `superset_of` and `essential` at the end. -/
theorem finalState_subsetOf_rest (slot : Option Json) :
    finalState ((do
      slotOperator ho claim policy .subsetOf
      slotOperator ho claim policy .supersetOf
      slotOperator ho claim policy .essential) slot) =
    finalState (slotOperator ho claim policy .subsetOf slot) := by
  refine finalState_bind_quiet ?_ slot
  exact (quiet_slotOperator (Or.inr (Or.inl rfl))).bind (quiet_slotOperator (Or.inr (Or.inr rfl)))

theorem slotOperator_of_run {kind : OperatorKind} {slot slot' : Option Json}
    (h : runOperator ho claim policy kind slot = .ok slot') :
    slotOperator ho claim policy kind slot = .ok () slot' := by
  rw [slotOperator, h]

/-- A list comes past `one_of` to `subset_of`. -/
theorem finalState_slotChecks_list (xs : List Json) :
    finalState (slotChecks ho claim policy (some (.arr xs))) =
      some (cutDown ho policy (.arr xs)) := by
  have hdecided : decidedByOneOf policy (some (.arr xs)) = false := by
    simp [decidedByOneOf, Json.isList]
  rw [slotChecks, bind_of_ok (get_apply _), bind_of_ok (slotOperator_of_run (run_oneOf_list xs)),
    hdecided]
  simp only [Bool.false_eq_true, if_false]
  rw [finalState_subsetOf_rest, finalState_subsetOf_list]

/-- A single value stays if `one_of` decides, or `subset_of` does not touch it. -/
theorem finalState_slotChecks_single {v : Json} (hv : v.isList = false) :
    finalState (slotChecks ho claim policy (some v)) = some v ↔
      OperatorKind.oneOf.name ∈ policy ∨ OperatorKind.subsetOf.name ∉ policy ∨
        ∀ name ∈ policy, v = .str name → name = "" := by
  have hquiet : ∀ kind, kind = .oneOf ∨ kind = .supersetOf ∨ kind = .essential →
      Quiet (slotOperator ho claim policy kind) := fun kind => quiet_slotOperator
  rw [slotChecks, bind_of_ok (get_apply _)]
  by_cases hone : OperatorKind.oneOf.name ∈ policy
  · have hdecided : decidedByOneOf policy (some v) = true := by
      simp [decidedByOneOf, hone, hv]
    rw [hdecided]
    simp only [if_true]
    refine iff_of_true ?_ (Or.inl hone)
    exact ((hquiet .oneOf (Or.inl rfl)).bind (hquiet .essential (Or.inr (Or.inr rfl)))) (some v)
  · have hdecided : decidedByOneOf policy (some v) = false := by
      simp [decidedByOneOf, hone]
    rw [hdecided, bind_of_ok (slotOperator_of_not_mem hone)]
    simp only [Bool.false_eq_true, if_false]
    rw [finalState_subsetOf_rest, finalState_subsetOf_single hv, or_iff_right hone]

/-- The checks put nothing in the place of a claim that is absent. -/
theorem finalState_slotChecks_none : finalState (slotChecks ho claim policy none) = none := by
  have hdecided : decidedByOneOf policy none = false := by simp [decidedByOneOf]
  have hsubset : finalState (slotOperator ho claim policy .subsetOf none) = none := by
    rw [slotOperator]
    cases hrun : runOperator ho claim policy .subsetOf none with
    | error e => rfl
    | ok slot' => exact (run_subsetOf hrun).1 rfl
  have honeOf : runOperator ho claim policy .oneOf none = .ok none := by
    cases h : policy.lookup OperatorKind.oneOf.name with
    | none => exact runOperator_of_not_mem (AList.lookup_eq_none.mp h)
    | some param =>
        rw [runOperator_of_lookup h]
        rfl
  rw [slotChecks, bind_of_ok (get_apply _), bind_of_ok (slotOperator_of_run honeOf), hdecided]
  simp only [Bool.false_eq_true, if_false]
  rw [finalState_subsetOf_rest, hsubset]

/-- What is put in the place of an absent claim is still there in the end. -/
theorem finalState_ne_none {x : EStateM Exc (Option Json) Unit} {v : Json}
    (hx : Ensures (fun slot => slot.isSome = true) x (fun _ => True)) :
    finalState (x (some v)) ≠ none := by
  intro hnone
  have hleft := (hx (some v) rfl).1
  rw [hnone] at hleft
  exact absurd hleft (by simp)

/-- With `value` the slot has that value in the end. -/
theorem finalState_slotClaim_value {v : Json}
    (hvalue : policy.lookup OperatorKind.value.name = some v) (slot : Option Json) :
    finalState (slotClaim ho claim policy slot) = some v := by
  have hrun : runOperator ho claim policy .value slot = .ok (some v) := by
    rw [runOperator_of_lookup hvalue]
    rfl
  rw [slotClaim, if_pos (Dict.mem_iff_lookup.mpr ⟨v, hvalue⟩),
    finalState_bind_quiet (quiet_slotOperator (Or.inr (Or.inr rfl))), slotOperator_of_run hrun,
    finalState_ok]

/-- An absent claim stays absent exactly if neither `add` nor `default` has something for it. -/
theorem finalState_slotClaim_none_iff (hv : OperatorKind.value.name ∉ policy) :
    finalState (slotClaim ho claim policy none) = none ↔
      OperatorKind.add.name ∉ policy ∧ OperatorKind.default.name ∉ policy := by
  rw [slotClaim_of_no_value hv]
  cases hadd : policy.lookup OperatorKind.add.name with
  | some added =>
      have hrun : runOperator ho claim policy .add none = .ok (some added) := by
        rw [runOperator_of_lookup hadd]
        rfl
      rw [bind_of_ok (slotOperator_of_run hrun)]
      refine iff_of_false (finalState_ne_none (isSome_slotOperator.bind
        (fun _ _ => isSome_slotChecks))) ?_
      exact fun hboth => hboth.1 (Dict.mem_iff_lookup.mpr ⟨added, hadd⟩)
  | none =>
      have hno := AList.lookup_eq_none.mp hadd
      rw [bind_of_ok (slotOperator_of_not_mem hno), and_iff_right hno]
      cases hdef : policy.lookup OperatorKind.default.name with
      | none =>
          have hnodef := AList.lookup_eq_none.mp hdef
          rw [bind_of_ok (slotOperator_of_not_mem hnodef)]
          exact iff_of_true finalState_slotChecks_none hnodef
      | some dflt =>
          have hrun : runOperator ho claim policy .default none = .ok (some dflt) := by
            rw [runOperator_of_lookup hdef]
            rfl
          rw [bind_of_ok (slotOperator_of_run hrun)]
          exact iff_of_false (finalState_ne_none isSome_slotChecks)
            (fun hnodef => hnodef (Dict.mem_iff_lookup.mpr ⟨dflt, hdef⟩))

/-- Without `value` and `add` a claim that is present comes to the checks as it is. -/
theorem slotClaim_present (hv : OperatorKind.value.name ∉ policy)
    (hno : OperatorKind.add.name ∉ policy) (v : Json) :
    slotClaim ho claim policy (some v) = slotChecks ho claim policy (some v) := by
  rw [slotClaim_of_no_value hv, bind_of_ok (slotOperator_of_not_mem hno),
    bind_of_ok (slotOperator_of_run (run_default_present v))]

/-- With `add` it is the union that comes to the checks, unless there is none. -/
theorem finalState_slotClaim_added (hv : OperatorKind.value.name ∉ policy) {added : Json}
    (hadd : policy.lookup OperatorKind.add.name = some added) (v : Json) :
    finalState (slotClaim ho claim policy (some v)) = some v ↔
      ∀ u, union v added = .ok u → cutDown ho policy (listOf ho u) = v := by
  rw [slotClaim_of_no_value hv]
  cases hu : union v added with
  | error e =>
      -- `add` raises, and nothing has been assigned
      have hrun : slotOperator ho claim policy .add (some v) = .error e (some v) := by
        rw [slotOperator, runOperator_of_lookup hadd]
        simp only [Add.call, hu]
        rfl
      rw [bind_of_error hrun]
      exact iff_of_true rfl (fun u h => absurd h (by simp))
  | ok u =>
      have hrun : runOperator ho claim policy .add (some v) = .ok (some (listOf ho u)) := by
        rw [runOperator_of_lookup hadd]
        simp only [Add.call, hu]
        rfl
      have hleft : finalState (slotChecks ho claim policy (some (listOf ho u))) =
          some (cutDown ho policy (listOf ho u)) := finalState_slotChecks_list _
      rw [bind_of_ok (slotOperator_of_run hrun),
        bind_of_ok (slotOperator_of_run (run_default_present _)), hleft, Option.some.injEq]
      refine ⟨fun h u' hu' => ?_, fun h => h u rfl⟩
      obtain rfl := Except.ok.inj hu'
      exact h

/-- The slot of a claim has its value again in the end, however that comes about, exactly if
    the operators do not disturb it. -/
theorem finalState_slotClaim_iff {slot : Option Json} :
    finalState (slotClaim ho claim policy slot) = slot ↔ Undisturbed ho policy slot := by
  unfold Undisturbed
  by_cases hv : OperatorKind.value.name ∈ policy
  · obtain ⟨v, hvalue⟩ := Dict.mem_iff_lookup.mp hv
    rw [if_pos hv, finalState_slotClaim_value hvalue, hvalue]
  · rw [if_neg hv]
    cases slot with
    | none => exact finalState_slotClaim_none_iff hv
    | some v =>
        simp only
        cases hadd : policy.lookup OperatorKind.add.name with
        | some added => exact finalState_slotClaim_added hv hadd v
        | none =>
            rw [slotClaim_present hv (AList.lookup_eq_none.mp hadd)]
            cases hlist : v.isList with
            | true =>
                obtain ⟨xs, rfl⟩ := Json.isList_iff.mp hlist
                rw [finalState_slotChecks_list, Option.some.injEq, if_pos rfl]
            | false =>
                rw [finalState_slotChecks_single hlist, if_neg (by simp)]

/-! ## The dictionary that is worked on -/

/-- The same claims with the same values. -/
def SameEntries (m m' : Metadata) : Prop := ∀ c, m'.lookup c = m.lookup c

/-- The operators get through for the claim, on what it has. -/
def Passes (ho : HashOrder) (metadataPolicy : MetadataPolicy) (m : Metadata) (c : String) : Prop :=
  ∃ slot, evalClaim ho c ((metadataPolicy.lookup c).getD ∅) (m.lookup c) = .ok slot

/-- Each claim that the walk gets to is left undisturbed. -/
def ClaimsUndisturbed (ho : HashOrder) (metadataPolicy : MetadataPolicy) (m : Metadata)
    (claims : List String) : Prop :=
  AllReached (Passes ho metadataPolicy m)
    (fun c => Undisturbed ho ((metadataPolicy.lookup c).getD ∅) (m.lookup c)) claims

/-- The operators of one claim: what they leave there, and that nothing else is touched, also
    where they raise. -/
theorem applyOperators_step (metadataPolicy : MetadataPolicy) (claim : String) (m : Metadata) :
    ∃ m₁, m₁.lookup claim = finalState (slotClaim ho claim
        ((metadataPolicy.lookup claim).getD ∅) (m.lookup claim)) ∧
      OnlyClaim claim m m₁ ∧
      ((Passes ho metadataPolicy m claim ∧ applyOperators ho constructEvaluationSequence claim
          ((metadataPolicy.lookup claim).getD ∅) constructEvaluationSequence.length 0 m =
            .ok () m₁) ∨
        (¬ Passes ho metadataPolicy m claim ∧ ∃ e, applyOperators ho constructEvaluationSequence
          claim ((metadataPolicy.lookup claim).getD ∅) constructEvaluationSequence.length 0 m =
            .error e m₁)) := by
  have hslot := @slotOutcome_slotClaim ho claim ((metadataPolicy.lookup claim).getD ∅)
    (m.lookup claim)
  have hrun := @applyOperators_slotRun ho claim ((metadataPolicy.lookup claim).getD ∅)
    constructEvaluationSequence.length m (Nat.le_refl _)
  rw [Passes, ← hslot]
  cases hloop : applyOperators ho constructEvaluationSequence claim
      ((metadataPolicy.lookup claim).getD ∅) constructEvaluationSequence.length 0 m with
  | error e m₁ =>
      cases hclaim : slotClaim ho claim ((metadataPolicy.lookup claim).getD ∅)
          (m.lookup claim) with
      | ok u slot => simp [hloop, hclaim, SlotRun] at hrun
      | error e' slot =>
          rw [hloop, hclaim] at hrun
          obtain ⟨-, hleft, honly⟩ := hrun
          refine ⟨m₁, hleft, honly, Or.inr ⟨?_, e, rfl⟩⟩
          rintro ⟨slot', h⟩
          exact absurd h (by simp [slotOutcome])
  | ok u m₁ =>
      cases hclaim : slotClaim ho claim ((metadataPolicy.lookup claim).getD ∅)
          (m.lookup claim) with
      | error e' slot => simp [hloop, hclaim, SlotRun] at hrun
      | ok u slot =>
          rw [hloop, hclaim] at hrun
          obtain ⟨hleft, honly⟩ := hrun
          exact ⟨m₁, hleft, honly, Or.inl ⟨⟨slot, rfl⟩, rfl⟩⟩

/-- The loop over the claims leaves the dictionary as it was exactly if it disturbs none of the
    claims it gets to. -/
theorem sameEntries_applyClaims_iff {metadataPolicy : MetadataPolicy} {claims : List String}
    (hnodup : claims.Nodup) (m : Metadata) :
    SameEntries m (finalState
        (applyClaims ho constructEvaluationSequence metadataPolicy claims m)) ↔
      ClaimsUndisturbed ho metadataPolicy m claims := by
  induction claims generalizing m with
  | nil => exact iff_of_true (fun _ => rfl) trivial
  | cons claim rest ih =>
      obtain ⟨hnot, hnodup⟩ := List.nodup_cons.mp hnodup
      obtain ⟨m₁, hleft, honly, hstep⟩ := @applyOperators_step ho metadataPolicy claim m
      rw [ClaimsUndisturbed, AllReached, ← @finalState_slotClaim_iff ho claim, ← hleft, applyClaims]
      rcases hstep with ⟨hpasses, hloop⟩ | ⟨hraises, e, hloop⟩
      · have hrest : ∀ c ∈ rest, m₁.lookup c = m.lookup c := by
          intro c hc
          refine honly c ?_
          rintro rfl
          exact hnot hc
        -- the claims to come are as they were
        have hcongr : ClaimsUndisturbed ho metadataPolicy m₁ rest ↔
            ClaimsUndisturbed ho metadataPolicy m rest := by
          refine allReached_congr (fun c hc => ?_) (fun c hc => ?_)
          · rw [Passes, Passes, hrest c hc]
          · rw [hrest c hc]
        have hkeep := @lookup_applyClaims_of_not_mem ho metadataPolicy rest claim hnot m₁
        rw [bind_of_ok hloop, forall_prop_of_true hpasses]
        change _ ↔ _ ∧ ClaimsUndisturbed ho metadataPolicy m rest
        rw [← hcongr, ← ih hnodup m₁]
        constructor
        · intro hsame
          refine ⟨hkeep.symm.trans (hsame claim), fun c => ?_⟩
          by_cases hc : c = claim
          · rw [hc, hkeep]
          · rw [hsame c, honly c hc]
        · rintro ⟨hkept, hsame⟩ c
          rw [hsame c]
          by_cases hc : c = claim
          · rw [hc, hkept]
          · exact honly c hc
      · -- the walk ends here
        rw [bind_of_error hloop, finalState_error]
        constructor
        · exact fun hsame => ⟨hsame claim, fun hpasses => absurd hpasses hraises⟩
        · rintro ⟨hkept, -⟩ c
          by_cases hc : c = claim
          · rw [hc, hkept]
          · exact honly c hc

/-- `apply_policy` on metadata: a copy where the rule has metadata, the operators in place
    where not. -/
def LeavesMetadata (ho : HashOrder) (rule : Rule) (own : Metadata) : Prop :=
  rule.metadata.isEmpty = true → ClaimsUndisturbed ho rule.metadataPolicy own
    (ho.arrange rule.metadataPolicy.keys)

theorem sameEntries_applyPolicy_iff {rule : Rule} {own : Metadata} :
    SameEntries own (finalState (applyPolicy ho rule own)) ↔ LeavesMetadata ho rule own := by
  rw [LeavesMetadata]
  by_cases hempty : rule.metadata.isEmpty = true
  · have heq : applyPolicy ho rule = applyRulePolicy ho rule.metadataPolicy := if_pos hempty
    rw [heq, applyRulePolicy]
    by_cases hnone : rule.metadataPolicy.isEmpty = true
    · have hkeys : ho.arrange rule.metadataPolicy.keys = [] := by
        have hnil : rule.metadataPolicy.keys = [] := by
          rw [AList.keys, List.isEmpty_iff.mp hnone]
          rfl
        rw [hnil]
        exact List.perm_nil.mp (ho.perm [])
      rw [if_pos hnone, hkeys]
      exact iff_of_true (fun _ => rfl) (fun _ => trivial)
    · rw [if_neg hnone]
      have hfinal : finalState ((do
          applyMetadataPolicy ho rule.metadataPolicy constructEvaluationSequence
          get) own) = finalState
            (applyMetadataPolicy ho rule.metadataPolicy constructEvaluationSequence own) := by
        cases hrun : applyMetadataPolicy ho rule.metadataPolicy constructEvaluationSequence own with
        | ok u m => rw [bind_of_ok hrun]; rfl
        | error e m => rw [bind_of_error hrun]; rfl
      rw [hfinal, applyMetadataPolicy,
        sameEntries_applyClaims_iff (ho.nodup_arrange rule.metadataPolicy.keys_nodup)]
      exact ⟨fun h _ => h, fun h => h hempty⟩
  · -- the dictionary that was given is not touched
    have heq : applyPolicy ho rule own = _ := congrFun (if_neg hempty) own
    refine iff_of_true (fun c => ?_) (fun h => absurd h hempty)
    rw [heq]
    cases applyRulePolicy ho rule.metadataPolicy (rule.metadata.update own) <;> rfl

/-! ## One entity type -/

variable {Key : Type} {entityType : String}

/-- All that `policyFor` can do, also where it raises. -/
theorem policyFor_cases (ho : HashOrder) (entityType : String) (tc : TrustChain Key) :
    (∃ e, gatherPolicies ho tc.verifiedChain.dropLast entityType = .error e ∧
        policyFor ho entityType tc = .error e tc) ∨
      ∃ rule, gatherPolicies ho tc.verifiedChain.dropLast entityType = .ok rule ∧
        ((leafMetadata entityType tc = none ∧
            policyFor ho entityType tc =
              .ok () { tc with metadata := tc.metadata.set entityType none }) ∨
          ∃ own, leafMetadata entityType tc = some own ∧
            ((∃ m own', applyPolicy ho rule own = .ok m own' ∧ ∃ metadata,
                policyFor ho entityType tc = .ok () { setLeafMetadata entityType own'
                  { tc with combinedPolicy := tc.combinedPolicy.insert entityType rule } with
                    metadata := metadata }) ∨
              ∃ e own', applyPolicy ho rule own = .error e own' ∧
                policyFor ho entityType tc = .error e (setLeafMetadata entityType own'
                  { tc with combinedPolicy := tc.combinedPolicy.insert entityType rule }))) := by
  unfold policyFor trustChainPolicy
  rw [bind_assoc, bind_of_ok (get_apply tc), bind_assoc]
  cases hgather : gatherPolicies ho tc.verifiedChain.dropLast entityType with
  | error e =>
      rw [bind_of_error (lift_error e tc)]
      exact Or.inl ⟨e, rfl, rfl⟩
  | ok rule =>
      rw [bind_of_ok (lift_ok rule tc)]
      refine Or.inr ⟨rule, rfl, ?_⟩
      cases hown : leafMetadata entityType tc with
      | none => exact Or.inl ⟨rfl, rfl⟩
      | some own =>
          -- the rule is recorded, then applied to the metadata in place
          refine Or.inr ⟨own, rfl, ?_⟩
          simp only
          rw [bind_assoc, bind_of_ok (set_apply tc _), bind_assoc]
          cases happly : applyPolicy ho rule own with
          | ok m own' =>
              have hzoom : ∀ tc₁ : TrustChain Key,
                  zoom (fun _ => own) (setLeafMetadata entityType) (applyPolicy ho rule) tc₁ =
                    .ok m (setLeafMetadata entityType own' tc₁) := by
                intro tc₁
                rw [zoom, happly]
              rw [bind_of_ok (hzoom _)]
              exact Or.inl ⟨m, own', rfl, _, rfl⟩
          | error e own' =>
              have hzoom : ∀ tc₁ : TrustChain Key,
                  zoom (fun _ => own) (setLeafMetadata entityType) (applyPolicy ho rule) tc₁ =
                    .error e (setLeafMetadata entityType own' tc₁) := by
                intro tc₁
                rw [zoom, happly]
              rw [bind_of_error (hzoom _)]
              exact Or.inr ⟨e, own', rfl, rfl⟩

/-- The policies of a type combine, and can be applied to what the leaf has of it. -/
def TypePasses (ho : HashOrder) (tc : TrustChain Key) (entityType : String) : Prop :=
  ∃ rule, gatherPolicies ho tc.verifiedChain.dropLast entityType = .ok rule ∧
    ∀ own, leafMetadata entityType tc = some own → ∃ m own', applyPolicy ho rule own = .ok m own'

/-- Applying them leaves the leaf's own dictionary of the type alone. -/
def TypeKept (ho : HashOrder) (tc : TrustChain Key) (entityType : String) : Prop :=
  ∀ rule own, gatherPolicies ho tc.verifiedChain.dropLast entityType = .ok rule →
    leafMetadata entityType tc = some own → LeavesMetadata ho rule own

theorem leafMetadata_setLeafMetadata_self {own own' : Metadata} {tc : TrustChain Key}
    (h : leafMetadata entityType tc = some own) :
    leafMetadata entityType (setLeafMetadata entityType own' tc) = some own' := by
  rw [leafMetadata] at h
  cases hleaf : tc.verifiedChain.getLast? with
  | none => simp [hleaf] at h
  | some leaf =>
      cases hmeta : leaf.metadata with
      | none => simp [hleaf, hmeta] at h
      | some d => simp [setLeafMetadata, leafMetadata, hleaf, hmeta]

/-- The trust chain's own attributes are not in the leaf's metadata. -/
theorem leafMetadata_assigned {tc : TrustChain Key} (entityType : String) (own' : Metadata)
    (rule : Rule) (metadata : ChainMetadata) :
    leafMetadata entityType { setLeafMetadata entityType own'
      { tc with combinedPolicy := tc.combinedPolicy.insert entityType rule } with
        metadata := metadata } = leafMetadata entityType (setLeafMetadata entityType own' tc) := by
  unfold setLeafMetadata leafMetadata
  cases tc.verifiedChain.getLast? <;> rfl

/-- For a type that the leaf has, it is the combined policy that passes or not, -/
theorem typePasses_iff {tc : TrustChain Key} {rule : Rule} {own : Metadata}
    (hgather : gatherPolicies ho tc.verifiedChain.dropLast entityType = .ok rule)
    (hown : leafMetadata entityType tc = some own) :
    TypePasses ho tc entityType ↔ ∃ m own', applyPolicy ho rule own = .ok m own' := by
  constructor
  · rintro ⟨rule', hgather', h⟩
    obtain rfl := Except.ok.inj (hgather.symm.trans hgather')
    exact h own hown
  · refine fun h => ⟨rule, hgather, fun own' hown' => ?_⟩
    obtain rfl := Option.some.inj (hown.symm.trans hown')
    exact h

/-- and leaves the dictionary alone or not. -/
theorem typeKept_iff {tc : TrustChain Key} {rule : Rule} {own : Metadata}
    (hgather : gatherPolicies ho tc.verifiedChain.dropLast entityType = .ok rule)
    (hown : leafMetadata entityType tc = some own) :
    TypeKept ho tc entityType ↔ LeavesMetadata ho rule own := by
  refine ⟨fun h => h rule own hgather hown, fun h rule' own' hgather' hown' => ?_⟩
  obtain rfl := Except.ok.inj (hgather.symm.trans hgather')
  obtain rfl := Option.some.inj (hown.symm.trans hown')
  exact h

/-- What is left after one type: whether it passed, the statements above, the other types, and
    whether the type's own dictionary is what it was. -/
theorem policyFor_step (ho : HashOrder) (entityType : String) (tc : TrustChain Key) :
    ((∃ tc', policyFor ho entityType tc = .ok () tc') ↔ TypePasses ho tc entityType) ∧
      (finalState (policyFor ho entityType tc)).verifiedChain.dropLast =
        tc.verifiedChain.dropLast ∧
      (∀ other, other ≠ entityType →
        leafMetadata other (finalState (policyFor ho entityType tc)) = leafMetadata other tc) ∧
      (Option.Rel SameEntries (leafMetadata entityType tc)
          (leafMetadata entityType (finalState (policyFor ho entityType tc))) ↔
        TypeKept ho tc entityType) := by
  have hrefl : ∀ m : Option Metadata, Option.Rel SameEntries m m :=
    Dict.rel_refl (fun _ _ => rfl)
  rcases policyFor_cases ho entityType tc with
    ⟨e, hgather, hrun⟩ | ⟨rule, hgather, ⟨hown, hrun⟩ | ⟨own, hown, hrest⟩⟩
  · -- the gathering raised, before anything was written
    rw [hrun]
    refine ⟨iff_of_false ?_ ?_, rfl, fun _ _ => rfl, iff_of_true (hrefl _) ?_⟩
    · rintro ⟨tc', h⟩
      exact absurd h (by simp)
    · rintro ⟨rule, h, -⟩
      exact absurd (hgather.symm.trans h) (by simp)
    · intro rule own h
      exact absurd (hgather.symm.trans h) (by simp)
  · -- the leaf has no metadata for the type
    rw [hrun]
    refine ⟨iff_of_true ⟨_, rfl⟩ ⟨rule, hgather, fun own h => ?_⟩, rfl, fun _ _ => rfl,
      iff_of_true (hrefl _) ?_⟩
    · exact absurd (hown.symm.trans h) (by simp)
    · intro _ own _ h
      exact absurd (hown.symm.trans h) (by simp)
  · have hrel : ∀ own', Option.Rel SameEntries (some own) (some own') ↔ SameEntries own own' :=
      fun own' => ⟨fun h => by cases h; assumption, Option.Rel.some⟩
    rw [typeKept_iff hgather hown, typePasses_iff hgather hown, ← sameEntries_applyPolicy_iff, hown]
    rcases hrest with ⟨m, own', happly, metadata, hrun⟩ | ⟨e, own', happly, hrun⟩
    · rw [hrun, happly, finalState_ok, finalState_ok, leafMetadata_assigned,
        leafMetadata_setLeafMetadata_self hown, hrel]
      refine ⟨iff_of_true ⟨_, rfl⟩ ⟨m, own', rfl⟩, ?_, fun other hother => ?_, Iff.rfl⟩
      · exact (sameEvidence_setLeafMetadata entityType own'
          { tc with combinedPolicy := tc.combinedPolicy.insert entityType rule }).superiors
      · exact leafMetadata_setLeafMetadata_ne hother
    · -- what was written in place before the raise stays
      have hleaf := @leafMetadata_assigned _ tc entityType own' rule (setLeafMetadata
        entityType own'
          { tc with combinedPolicy := tc.combinedPolicy.insert entityType rule }).metadata
      rw [hrun, happly, finalState_error, finalState_error]
      refine ⟨iff_of_false ?_ ?_, ?_,
        fun other hother => leafMetadata_setLeafMetadata_ne hother, ?_⟩
      · rintro ⟨tc', h⟩
        exact absurd h (by simp)
      · rintro ⟨m, own'', h⟩
        exact absurd h (by simp)
      · exact (sameEvidence_setLeafMetadata entityType own'
          { tc with combinedPolicy := tc.combinedPolicy.insert entityType rule }).superiors
      · rw [hleaf, leafMetadata_setLeafMetadata_self hown, hrel]

/-! ## All types that are gone through -/

/-- Types that are not gone through keep their dictionary. -/
theorem leafMetadata_policyForAll_of_not_mem {todo : List String} {other : String}
    (hother : other ∉ todo) (tc : TrustChain Key) :
    leafMetadata other (finalState (policyForAll ho todo tc)) = leafMetadata other tc := by
  induction todo generalizing tc with
  | nil => rfl
  | cons entityType rest ih =>
      obtain ⟨hne, hrest⟩ := not_or.mp (fun h => hother (List.mem_cons.mpr h))
      have hstep := (policyFor_step ho entityType tc).2.2.1 other hne
      rw [policyForAll]
      cases hrun : policyFor ho entityType tc with
      | error e tc₁ =>
          rw [hrun] at hstep
          rw [bind_of_error hrun]
          exact hstep
      | ok u tc₁ =>
          rw [hrun] at hstep
          rw [bind_of_ok hrun, ih hrest tc₁]
          exact hstep

/-- The dictionaries of the types are what they were exactly if none that is got to is
    disturbed. -/
theorem policyForAll_kept_iff {todo : List String} (hnodup : todo.Nodup) (tc : TrustChain Key) :
    (∀ t ∈ todo, Option.Rel SameEntries (leafMetadata t tc)
        (leafMetadata t (finalState (policyForAll ho todo tc)))) ↔
      AllReached (TypePasses ho tc) (TypeKept ho tc) todo := by
  induction todo generalizing tc with
  | nil => exact iff_of_true (fun t ht => absurd ht List.not_mem_nil) trivial
  | cons entityType rest ih =>
      obtain ⟨hnot, hnodup⟩ := List.nodup_cons.mp hnodup
      obtain ⟨hpasses, hsuperiors, hothers, hkept⟩ := policyFor_step ho entityType tc
      have hne : ∀ t ∈ rest, t ≠ entityType := by
        intro t ht
        rintro rfl
        exact hnot ht
      rw [AllReached, List.forall_mem_cons, ← hkept, ← hpasses, policyForAll]
      cases hrun : policyFor ho entityType tc with
      | error e tc₁ =>
          -- the types to come are not got to
          rw [hrun] at hothers hkept
          rw [bind_of_error hrun]
          refine and_congr_right (fun _ => iff_of_true (fun t ht => ?_) ?_)
          · rw [finalState_error] at hothers ⊢
            rw [hothers t (hne t ht)]
            exact Dict.rel_refl (fun _ _ => rfl) _
          · rintro ⟨tc', h⟩
            exact absurd h (by simp)
      | ok u tc₁ =>
          rw [hrun, finalState_ok] at hsuperiors hothers
          rw [bind_of_ok hrun, leafMetadata_policyForAll_of_not_mem hnot, finalState_ok]
          refine and_congr_right (fun _ => ?_)
          have hcongr : AllReached (TypePasses ho tc₁) (TypeKept ho tc₁) rest ↔
              AllReached (TypePasses ho tc) (TypeKept ho tc) rest := by
            refine allReached_congr (fun t ht => ?_) (fun t ht => ?_)
            · rw [TypePasses, TypePasses, hsuperiors, hothers t (hne t ht)]
            · rw [TypeKept, TypeKept, hsuperiors, hothers t (hne t ht)]
          rw [← hcongr, ← ih hnodup tc₁]
          constructor
          · intro hall _ t ht
            rw [hothers t (hne t ht)]
            exact hall t ht
          · intro hall t ht
            rw [← hothers t (hne t ht)]
            exact hall ⟨tc₁, rfl⟩ t ht

/-! ## The statements of a trust chain -/

/-- The same statement: the metadata have the same entries, and the rest is equal. -/
structure SameStatement (s s' : Statement Key) : Prop where
  others : { s' with metadata := none } = { s with metadata := none }
  metadata : Option.Rel (fun d d' => ∀ t, Option.Rel SameEntries (d.lookup t) (d'.lookup t))
    s.metadata s'.metadata

theorem SameStatement.refl (s : Statement Key) : SameStatement s s :=
  ⟨rfl, Dict.rel_refl (fun _ _ => Dict.rel_refl (fun _ _ => rfl) _) _⟩

/-- What is never touched: all of the trust chain but its metadata, the combined policies and
    the metadata of the leaf. -/
structure Framed (tc tc' : TrustChain Key) : Prop where
  anchor : tc'.anchor = tc.anchor
  chain : tc'.chain = tc.chain
  exp : tc'.exp = tc.exp
  issPath : tc'.issPath = tc.issPath
  superiors : tc'.verifiedChain.dropLast = tc.verifiedChain.dropLast
  leaf : tc'.verifiedChain.getLast?.map (fun s => { s with metadata := none }) =
    tc.verifiedChain.getLast?.map (fun s => { s with metadata := none })
  hasMetadata : tc'.verifiedChain.getLast?.map (·.metadata.isSome) =
    tc.verifiedChain.getLast?.map (·.metadata.isSome)

theorem policyInvariant_framed (tc₀ : TrustChain Key) : PolicyInvariant (Framed tc₀) := by
  refine ⟨?_, ?_, fun tc entityType metadata h => ?_⟩
  · exact fun tc _ h => ⟨h.anchor, h.chain, h.exp, h.issPath, h.superiors, h.leaf, h.hasMetadata⟩
  · exact fun tc _ h => ⟨h.anchor, h.chain, h.exp, h.issPath, h.superiors, h.leaf, h.hasMetadata⟩
  · unfold setLeafMetadata
    cases hleaf : tc.verifiedChain.getLast? with
    | none => exact h
    | some leaf =>
        have hl := h.leaf
        have hm := h.hasMetadata
        rw [hleaf] at hl hm
        refine ⟨h.anchor, h.chain, h.exp, h.issPath, ?_, ?_, ?_⟩
        · rw [List.dropLast_concat]
          exact h.superiors
        · rw [List.getLast?_concat, ← hl]
          rfl
        · rw [List.getLast?_concat, ← hm]
          simp

theorem Framed.refl (tc : TrustChain Key) : Framed tc tc := ⟨rfl, rfl, rfl, rfl, rfl, rfl, rfl⟩

/-- Whatever `__call__` does, and where it raises: only these are touched. -/
theorem framed_call (ho : HashOrder) (entityType : String) (tc : TrustChain Key) :
    Framed tc (finalState (TrustChainPolicy.call ho entityType tc)) :=
  ((policyInvariant_framed tc).call entityType tc (Framed.refl tc)).1

/-- With the frame there are no statements, or the same ones and a leaf, which may differ in
    what its metadata hold. -/
theorem Framed.cases {tc tc' : TrustChain Key} (h : Framed tc tc') :
    (tc.verifiedChain = [] ∧ tc'.verifiedChain = []) ∨
      ∃ above leaf leaf', tc.verifiedChain = above ++ [leaf] ∧
        tc'.verifiedChain = above ++ [leaf'] ∧
        { leaf' with metadata := none } = { leaf with metadata := none } ∧
        leaf'.metadata.isSome = leaf.metadata.isSome := by
  have hleaf := h.leaf
  have hmeta := h.hasMetadata
  cases hlast : tc.verifiedChain.getLast? with
  | none =>
      rw [hlast, Option.map_none, Option.map_eq_none_iff] at hleaf
      exact Or.inl ⟨List.getLast?_eq_none_iff.mp hlast, List.getLast?_eq_none_iff.mp hleaf⟩
  | some leaf =>
      rw [hlast, Option.map_some, Option.map_eq_some_iff] at hleaf
      obtain ⟨leaf', hlast', hothers⟩ := hleaf
      rw [hlast, hlast', Option.map_some, Option.map_some, Option.some.injEq] at hmeta
      refine Or.inr ⟨tc.verifiedChain.dropLast, leaf, leaf',
        (List.dropLast_append_getLast? leaf hlast).symm, ?_, hothers, hmeta⟩
      rw [← h.superiors]
      exact (List.dropLast_append_getLast? leaf' hlast').symm

/-- Two statements that only differ in what their metadata hold are the same exactly if the
    dictionaries of all types are. -/
theorem sameStatement_iff {s s' : Statement Key}
    (hothers : { s' with metadata := none } = { s with metadata := none })
    (hsome : s'.metadata.isSome = s.metadata.isSome) :
    SameStatement s s' ↔ ∀ t, Option.Rel SameEntries
      (s.metadata.bind (·.lookup t)) (s'.metadata.bind (·.lookup t)) := by
  cases hd : s.metadata with
  | none =>
      rw [hd, Option.isSome_none, Option.isSome_eq_false_iff, Option.isNone_iff_eq_none] at hsome
      rw [hsome]
      refine iff_of_true ⟨hothers, ?_⟩ (fun t => Option.Rel.none)
      rw [hd, hsome]
      exact Option.Rel.none
  | some d =>
      rw [hd, Option.isSome_some] at hsome
      obtain ⟨d', hd'⟩ := Option.isSome_iff_exists.mp hsome
      rw [hd']
      constructor
      · intro hstatement t
        have hmeta := hstatement.metadata
        rw [hd, hd'] at hmeta
        cases hmeta with
        | some hall => exact hall t
      · intro hall
        refine ⟨hothers, ?_⟩
        rw [hd, hd']
        exact Option.Rel.some hall

/-- With the frame the statements are the same exactly if the leaf has the same metadata. -/
theorem forall₂_sameStatement_iff {tc tc' : TrustChain Key} (h : Framed tc tc') :
    List.Forall₂ SameStatement tc.verifiedChain tc'.verifiedChain ↔
      ∀ t, Option.Rel SameEntries (leafMetadata t tc) (leafMetadata t tc') := by
  simp only [leafMetadata]
  rcases h.cases with ⟨hnil, hnil'⟩ | ⟨above, leaf, leaf', hchain, hchain', hothers, hsome⟩
  · rw [hnil, hnil']
    exact iff_of_true List.Forall₂.nil (fun t => Option.Rel.none)
  · simp only [hchain, hchain', List.getLast?_concat, Option.bind_some]
    rw [← sameStatement_iff hothers hsome]
    constructor
    · intro hall
      have hdrop := List.forall₂_drop above.length hall
      rw [List.drop_left, List.drop_left] at hdrop
      exact (List.forall₂_cons.mp hdrop).1
    · intro hstatement
      refine List.rel_append ?_ (List.Forall₂.cons hstatement List.Forall₂.nil)
      exact List.forall₂_same.mpr (fun s _ => SameStatement.refl s)

/-- The types that `__call__` goes through. -/
def typesGoneThrough (entityType : String) (tc : TrustChain Key) : List String :=
  if tc.verifiedChain.length > 1 then
    if entityType ≠ "" then [entityType]
    else ((tc.verifiedChain.getLast?.bind (·.metadata)).map (·.keys)).getD []
  else []

/-- Every statement is as it was verified, and so is all of the trust chain but its metadata and
    the combined policies. -/
def LeavesEvidence (ho : HashOrder) (entityType : String) (tc : TrustChain Key) : Prop :=
  let tc' := finalState (TrustChainPolicy.call ho entityType tc)
  tc'.anchor = tc.anchor ∧ tc'.chain = tc.chain ∧ tc'.exp = tc.exp ∧ tc'.issPath = tc.issPath ∧
    List.Forall₂ SameStatement tc.verifiedChain tc'.verifiedChain

theorem finalState_policyForAll_one (ho : HashOrder) (entityType : String) (tc : TrustChain Key) :
    finalState (policyForAll ho [entityType] tc) = finalState (policyFor ho entityType tc) := by
  rw [policyForAll]
  cases hrun : policyFor ho entityType tc with
  | error e tc₁ => rw [bind_of_error hrun]
  | ok u tc₁ =>
      rw [bind_of_ok hrun]
      rfl

/-- As far as the leaf is concerned `__call__` goes through the types. -/
theorem leafMetadata_call (ho : HashOrder) (entityType : String) (tc : TrustChain Key)
    (t : String) :
    leafMetadata t (finalState (TrustChainPolicy.call ho entityType tc)) =
      leafMetadata t (finalState (policyForAll ho (typesGoneThrough entityType tc) tc)) := by
  unfold TrustChainPolicy.call typesGoneThrough
  rw [bind_of_ok (get_apply tc)]
  by_cases hlen : tc.verifiedChain.length > 1
  · rw [if_pos hlen, if_pos hlen]
    by_cases htype : entityType ≠ ""
    · rw [if_pos htype, if_pos htype, finalState_policyForAll_one]
    · rw [if_neg htype, if_neg htype]
      cases tc.verifiedChain.getLast?.bind (·.metadata) with
      | none => rfl
      | some metadata => rfl
  · -- a chain of one statement: only the trust chain's own attributes are set
    rw [if_neg hlen, if_neg hlen]
    cases hves : tc.verifiedChain with
    | nil => rfl
    | cons es rest =>
        cases hmeta : es.metadata with
        | none =>
            simp only [hmeta]
            rfl
        | some metadata =>
            simp only [hmeta]
            cases hitem : item metadata entityType with
            | error e => rfl
            | ok m =>
                rw [bind_of_ok (lift_ok m tc), leafMetadata, set_apply, finalState_ok, policyForAll,
                  pure_apply, finalState_ok, leafMetadata, hves]

theorem nodup_typesGoneThrough (entityType : String) (tc : TrustChain Key) :
    (typesGoneThrough entityType tc).Nodup := by
  unfold typesGoneThrough
  split
  · split
    · exact List.nodup_singleton entityType
    · cases tc.verifiedChain.getLast?.bind (·.metadata) with
      | none => exact List.nodup_nil
      | some metadata => exact metadata.keys_nodup
  · exact List.nodup_nil

/-- Applying the policies touches nothing but the metadata and the combined policies of the trust
    chain and the metadata in the leaf's statement; and these are left alone, in every run and
    wherever it raises, exactly if for every type that is gone through and got to the superiors
    have metadata or the operators disturb none of the claims they get to. -/
theorem leaves_evidence_iff (ho : HashOrder) (entityType : String) (tc : TrustChain Key) :
    Framed tc (finalState (TrustChainPolicy.call ho entityType tc)) ∧
      (LeavesEvidence ho entityType tc ↔
        AllReached (TypePasses ho tc) (TypeKept ho tc) (typesGoneThrough entityType tc)) := by
  have hframed := framed_call ho entityType tc
  refine ⟨hframed, ?_⟩
  rw [← policyForAll_kept_iff (nodup_typesGoneThrough entityType tc)]
  have hchain := forall₂_sameStatement_iff hframed
  constructor
  · rintro ⟨-, -, -, -, hsame⟩ t -
    rw [← leafMetadata_call]
    exact hchain.mp hsame t
  · intro hall
    refine ⟨hframed.anchor, hframed.chain, hframed.exp, hframed.issPath,
      hchain.mpr (fun t => ?_)⟩
    rw [leafMetadata_call]
    by_cases ht : t ∈ typesGoneThrough entityType tc
    · exact hall t ht
    · rw [leafMetadata_policyForAll_of_not_mem ht]
      exact Dict.rel_refl (fun _ _ => rfl) _

/-- A trust anchor that allows one scope, and a leaf that asks for two. -/
def twoScopes : TrustChain String where
  anchor := "https://ta.example"
  verifiedChain := [
    { iss := "https://ta.example", sub := "https://rp.example",
      metadataPolicy := some (Dict.ofList [("openid_relying_party",
        Dict.ofList [("scope", Dict.ofList [("subset_of", .arr [.str "openid"])])])]) },
    { iss := "https://rp.example", sub := "https://rp.example",
      metadata := some (Dict.ofList [("openid_relying_party",
        Dict.ofList [("scope", .arr [.str "openid", .str "email"])])]) }]

/-- The scope that is not allowed disappears from the leaf's own statement. -/
theorem leaf_statement_rewritten :
    ((finalState (TrustChainPolicy.call .insertion "openid_relying_party"
        twoScopes)).verifiedChain.getLast?.bind (·.metadata)).bind
          (·.lookup "openid_relying_party") =
            some (Dict.ofList [("scope", .arr [.str "openid"])]) ∧
      ¬ LeavesEvidence .insertion "openid_relying_party" twoScopes := by
  refine ⟨rfl, ?_⟩
  rintro ⟨-, -, -, -, hsame⟩
  have hleaf := (forall₂_sameStatement_iff
    (framed_call .insertion "openid_relying_party" twoScopes)).mp hsame "openid_relying_party"
  have hscopes : Option.Rel SameEntries
      (some (Dict.ofList [("scope", Json.arr [.str "openid", .str "email"])]))
      (some (Dict.ofList [("scope", Json.arr [.str "openid"])])) := hleaf
  cases hscopes with
  | some hentries =>
      have hscope : (some (Json.arr [.str "openid"]) : Option Json) =
          some (Json.arr [.str "openid", .str "email"]) := hentries "scope"
      exact absurd hscope (by decide)

end Fedservice.Entity.Function
