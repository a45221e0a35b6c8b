/-
  Fedservice.Entity.Function.GatheringVerdict

  When `gather_policies` raises `PolicyError`.  The faults of a chain are said
  without the loop: a statement that has a claim in both parts, two statements
  that state different values, a claim whose policies do not combine.  The loop
  finds each of them, except for the first kind in the first statement, which it
  starts from and does not look at.
-/

import Fedservice.Entity.Function.SuperiorMetadata

namespace Fedservice.Entity.Function

open Fedservice.Lib Fedservice.Py Fedservice.EntityStatement

variable {Key : Type} {ho : HashOrder} {entityType : String}

/-! ## The faults of a chain -/

/-- The policy accumulated for a claim, and what the next statement has for it. -/
def accumulateOne (ho : HashOrder) (entityType claim : String) (accumulated : Option ClaimPolicy)
    (s : Statement Key) : Except Exc (Option ClaimPolicy) :=
  match accumulated, claimPolicyOf s entityType claim with
  | some p, some q => do return some (← combineClaimPolicy ho p q)
  | p, q => .ok (p.or q)

/-- The policy accumulated for a claim along a chain. -/
def accumulated (ho : HashOrder) (entityType claim : String) (chain : List (Statement Key)) :
    Except Exc (Option ClaimPolicy) :=
  chain.foldlM (accumulateOne ho entityType claim) none

/-- A statement has a claim both in its metadata and in its policies. -/
def OverlapIn (entityType : String) (chain : List (Statement Key)) : Prop :=
  ∃ s ∈ chain, claimInBoth (ruleOf s entityType) = true

/-- Two statements state different values for a claim. -/
def MetadataClash (entityType : String) (chain : List (Statement Key)) : Prop :=
  ∃ s ∈ chain, ∃ t ∈ chain,
    ¬ Agree (ruleOf s entityType).metadata (ruleOf t entityType).metadata

/-- For some claim what is accumulated is refused together with what the next statement
    has for it. -/
def PolicyRefused (ho : HashOrder) (entityType : String) (chain : List (Statement Key)) : Prop :=
  ∃ claim, RaisesPolicyError (accumulated ho entityType claim chain)

/-- The claims that two rules both have a policy for, as they are walked. -/
def commonClaims (ho : HashOrder) (superior subordinate : Rule) : List String :=
  ho.arrange
    (superior.metadataPolicy.keys.filter (fun c => decide (c ∈ subordinate.metadataPolicy)))

/-- The loop comes to a statement that is not at fault, and there an exception other than
    `PolicyError` is raised as the policies are combined: a value is not what the operator
    can work on. -/
def StopsOtherwise (ho : HashOrder) (entityType : String) : Rule → List (Statement Key) → Prop
  | _, [] => False
  | rule, es :: rest =>
      (claimInBoth (ruleOf es entityType) = false ∧
        Agree rule.metadata (ruleOf es entityType).metadata ∧
        ∃ e, (¬ ∃ text, e = .policyError text) ∧
          combineCommon ho rule.metadataPolicy (ruleOf es entityType).metadataPolicy
            (commonClaims ho rule (ruleOf es entityType)) = .error e) ∨
      ∃ mid, gatherLoop ho entityType rule [es] = .ok mid ∧
        StopsOtherwise ho entityType mid rest

/-! ## One statement -/

/-- `combine_metadata` raises nothing but `PolicyError`, and where the metadata clash. -/
theorem combineMetadata_eq_error {superior subordinate : Metadata} {e : Exc}
    (h : combineMetadata ho superior subordinate = .error e) :
    ¬ Agree superior subordinate ∧ ∃ text, e = .policyError text := by
  constructor
  · intro hagree
    obtain ⟨metadata, hok⟩ := (@combineMetadata_eq_ok ho _ _).1.mpr hagree
    rw [h] at hok
    exact absurd hok (by simp)
  · unfold combineMetadata at h
    simp only at h
    split at h
    · exact absurd h (by simp)
    · split at h
      · rw [Except.error.injEq] at h
        exact ⟨_, h.symm⟩
      · exact absurd h (by simp)

/-- Why rules do not combine. -/
theorem combine_eq_error {superior subordinate : Rule} {e : Exc}
    (h : combine ho superior subordinate = .error e) :
    (¬ Agree superior.metadata subordinate.metadata ∧ ∃ text, e = .policyError text) ∨
      (Agree superior.metadata subordinate.metadata ∧
        combineCommon ho superior.metadataPolicy subordinate.metadataPolicy
          (commonClaims ho superior subordinate) = .error e) := by
  have hkeep : ∀ metadata : Metadata, (if metadata.isEmpty then superior
      else { superior with metadata := metadata }).metadataPolicy = superior.metadataPolicy := by
    intro metadata
    split <;> rfl
  cases hmetadata : combineMetadata ho superior.metadata subordinate.metadata with
  | error e' =>
      left
      rw [combine, hmetadata, except_error_bind, Except.error.injEq] at h
      rw [← h]
      exact combineMetadata_eq_error hmetadata
  | ok metadata =>
      right
      refine ⟨combineMetadata_eq_ok.1.mp ⟨metadata, hmetadata⟩, ?_⟩
      rw [combine, hmetadata, except_ok_bind] at h
      by_cases hempty : subordinate.metadataPolicy.isEmpty = true
      · simp only [if_pos hempty] at h
        exact absurd h (by simp [pure, Except.pure])
      · simp only [if_neg hempty, hkeep] at h
        cases hcommon : combineCommon ho superior.metadataPolicy subordinate.metadataPolicy
            (commonClaims ho superior subordinate) with
        | error e' =>
            change (combineCommon ho superior.metadataPolicy subordinate.metadataPolicy
              (commonClaims ho superior subordinate) >>= _) = _ at h
            rw [hcommon, except_error_bind, Except.error.injEq] at h
            rw [h]
        | ok both =>
            change (combineCommon ho superior.metadataPolicy subordinate.metadataPolicy
              (commonClaims ho superior subordinate) >>= _) = _ at h
            rw [hcommon, except_ok_bind] at h
            -- nothing can go wrong from here
            obtain ⟨supers, hsupers⟩ := @exists_copyClaims ho superior.metadataPolicy both
              (fun c => decide (c ∉ subordinate.metadataPolicy))
            obtain ⟨all, hall⟩ := @exists_copyClaims ho subordinate.metadataPolicy supers
              (fun c => decide (c ∉ superior.metadataPolicy))
            rw [hsupers, except_ok_bind, hall, except_ok_bind] at h
            exact absurd h (by simp [pure, Except.pure])

/-- Where the common claims do not combine, the policies of one of them do not. -/
theorem accumulateOne_eq_error {rule : Rule} {es : Statement Key} {e : Exc}
    (h : combineCommon ho rule.metadataPolicy (ruleOf es entityType).metadataPolicy
      (commonClaims ho rule (ruleOf es entityType)) = .error e) :
    ∃ claim, accumulateOne ho entityType claim (rule.metadataPolicy.lookup claim) es =
      .error e := by
  obtain ⟨claim, hclaim, herror⟩ := Dict.insertEach_eq_error h
  rw [commonClaims, HashOrder.mem_arrange, List.mem_filter, decide_eq_true_eq] at hclaim
  obtain ⟨p, hp⟩ := Dict.mem_iff_lookup.mp (AList.mem_keys.mpr hclaim.1)
  obtain ⟨q, hq⟩ := Dict.mem_iff_lookup.mp hclaim.2
  rw [item_eq_ok.mpr hp, item_eq_ok.mpr hq, except_ok_bind, except_ok_bind] at herror
  refine ⟨claim, ?_⟩
  have hq' : claimPolicyOf es entityType claim = some q := hq
  simp only [accumulateOne, hp, hq']
  rw [herror, except_error_bind]

/-- Where one statement is gathered, its policies are accumulated for every claim. -/
theorem accumulateOne_of_gathered {rule mid : Rule} {es : Statement Key}
    (h : gatherLoop ho entityType rule [es] = .ok mid) (claim : String) :
    accumulateOne ho entityType claim (rule.metadataPolicy.lookup claim) es =
      .ok (mid.metadataPolicy.lookup claim) := by
  obtain ⟨hboth, hsup, hsub⟩ := gatherLoop_one_claimPolicy claim h
  unfold accumulateOne
  cases hp : rule.metadataPolicy.lookup claim with
  | none =>
      rw [hsub hp]
      simp
  | some p =>
      cases hq : claimPolicyOf es entityType claim with
      | none =>
          rw [hsup hq, hp]
          simp
      | some q =>
          obtain ⟨r, hr, hlookup⟩ := hboth p q hp hq
          simp [hr, hlookup, pure, Except.pure]

/-- All that one statement of the loop can come to. -/
inductive GatherStep (ho : HashOrder) (entityType : String) (rule : Rule) (es : Statement Key) :
    Except Exc Rule → Prop
  | combined (mid : Rule)
      (apart : claimInBoth (ruleOf es entityType) = false)
      (agree : Agree rule.metadata (ruleOf es entityType).metadata)
      (metadata : ∀ claim, mid.metadata.lookup claim =
        ((ruleOf es entityType).metadata.lookup claim).or (rule.metadata.lookup claim))
      (policy : ∀ claim,
        accumulateOne ho entityType claim (rule.metadataPolicy.lookup claim) es =
          .ok (mid.metadataPolicy.lookup claim)) :
      GatherStep ho entityType rule es (.ok mid)
  | fault (text : Message)
      (h : claimInBoth (ruleOf es entityType) = true ∨
        ¬ Agree rule.metadata (ruleOf es entityType).metadata ∨
        combineCommon ho rule.metadataPolicy (ruleOf es entityType).metadataPolicy
          (commonClaims ho rule (ruleOf es entityType)) = .error (.policyError text)) :
      GatherStep ho entityType rule es (.error (.policyError text))
  | other (e : Exc) (he : ¬ ∃ text, e = .policyError text)
      (apart : claimInBoth (ruleOf es entityType) = false)
      (agree : Agree rule.metadata (ruleOf es entityType).metadata)
      (common : combineCommon ho rule.metadataPolicy (ruleOf es entityType).metadataPolicy
        (commonClaims ho rule (ruleOf es entityType)) = .error e) :
      GatherStep ho entityType rule es (.error e)

theorem gatherStep_gatherLoop_one (rule : Rule) (es : Statement Key) :
    GatherStep ho entityType rule es (gatherLoop ho entityType rule [es]) := by
  by_cases hempty : ((ruleOf es entityType).metadataPolicy.isEmpty &&
      (ruleOf es entityType).metadata.isEmpty) = true
  · -- nothing is said about the type
    have hrun : gatherLoop ho entityType rule [es] = .ok rule := by
      simp only [gatherLoop, if_pos hempty]
    rw [Bool.and_eq_true] at hempty
    rw [hrun]
    refine .combined rule ?_ (agree_of_isEmpty hempty.2) (fun claim => ?_)
      (accumulateOne_of_gathered hrun)
    · rw [claimInBoth, AList.keys, List.isEmpty_iff.mp hempty.1]
      rfl
    · rw [Dict.lookup_of_isEmpty hempty.2, Option.none_or]
  · cases hover : claimInBoth (ruleOf es entityType) with
    | true =>
        have hrun : gatherLoop ho entityType rule [es] = .error (.policyError
            [.lit "Claim appearing both in metadata and metadata_policy not allowed"]) := by
          simp only [gatherLoop, if_neg hempty, hover, if_true]
          rfl
        rw [hrun]
        exact .fault _ (Or.inl hover)
    | false =>
        have hrun : gatherLoop ho entityType rule [es] =
            combine ho rule (ruleOf es entityType) := by
          simp only [gatherLoop, if_neg hempty, hover]
          cases combine ho rule (ruleOf es entityType) <;> rfl
        cases hcombine : combine ho rule (ruleOf es entityType) with
        | ok mid =>
            have hagree := (exists_combine_iff.mp ⟨mid, hcombine⟩).1
            rw [hcombine] at hrun
            have hpolicy := accumulateOne_of_gathered hrun
            rw [hrun]
            exact .combined mid hover hagree (combine_metadata hcombine) hpolicy
        | error e =>
            rw [hrun, hcombine]
            rcases combine_eq_error hcombine with ⟨hclash, text, rfl⟩ | ⟨hagree, hcommon⟩
            · exact .fault text (Or.inr (Or.inl hclash))
            · by_cases he : ∃ text, e = .policyError text
              · obtain ⟨text, rfl⟩ := he
                exact .fault text (Or.inr (Or.inr hcommon))
              · -- a failure that is no conflict of policies
                exact .other e he hover hagree hcommon

/-! ## The loop -/

/-- The faults of the statements below a rule. -/
def Fault (ho : HashOrder) (entityType : String) (rule : Rule) (rest : List (Statement Key)) :
    Prop :=
  OverlapIn entityType rest ∨
    ((∃ s ∈ rest, ¬ Agree rule.metadata (ruleOf s entityType).metadata) ∨
      MetadataClash entityType rest) ∨
    ∃ claim, RaisesPolicyError
      (rest.foldlM (accumulateOne ho entityType claim) (rule.metadataPolicy.lookup claim))

theorem agree_comm {m₁ m₂ : Metadata} : Agree m₁ m₂ ↔ Agree m₂ m₁ :=
  ⟨fun h claim v w hv hw => (h claim w v hw hv).symm,
    fun h claim v w hv hw => (h claim w v hw hv).symm⟩

theorem agree_refl (metadata : Metadata) : Agree metadata metadata := by
  intro claim v w hv hw
  rw [Option.some.inj (hv.symm.trans hw)]

/-- A clash is one with the first statement, or one among the others. -/
theorem metadataClash_cons {s : Statement Key} {rest : List (Statement Key)} :
    MetadataClash entityType (s :: rest) ↔
      (∃ t ∈ rest, ¬ Agree (ruleOf s entityType).metadata (ruleOf t entityType).metadata) ∨
        MetadataClash entityType rest := by
  constructor
  · rintro ⟨t, ht, u, hu, hclash⟩
    rcases List.mem_cons.mp ht with rfl | ht'
    · rcases List.mem_cons.mp hu with rfl | hu'
      · exact absurd (agree_refl _) hclash
      · exact Or.inl ⟨u, hu', hclash⟩
    · rcases List.mem_cons.mp hu with rfl | hu'
      · exact Or.inl ⟨t, ht', fun h => hclash (agree_comm.mp h)⟩
      · exact Or.inr ⟨t, ht', u, hu', hclash⟩
  · rintro (⟨t, ht, hclash⟩ | ⟨t, ht, u, hu, hclash⟩)
    · exact ⟨s, List.mem_cons_self .., t, List.mem_cons_of_mem _ ht, hclash⟩
    · exact ⟨t, List.mem_cons_of_mem _ ht, u, List.mem_cons_of_mem _ hu, hclash⟩

theorem overlapIn_cons {s : Statement Key} {rest : List (Statement Key)} :
    OverlapIn entityType (s :: rest) ↔
      claimInBoth (ruleOf s entityType) = true ∨ OverlapIn entityType rest := by
  simp [OverlapIn]

/-- Agreement with metadata that are put together is agreement with both parts. -/
theorem agree_or_iff {mid m₁ m₂ other : Metadata} (hagree : Agree m₁ m₂)
    (hmid : ∀ claim, mid.lookup claim = (m₂.lookup claim).or (m₁.lookup claim)) :
    Agree mid other ↔ Agree m₁ other ∧ Agree m₂ other := by
  constructor
  · intro h
    constructor
    · intro claim v w hv hw
      cases hv' : m₂.lookup claim with
      | none =>
          refine h claim v w ?_ hw
          rw [hmid, hv', Option.none_or, hv]
      | some v' =>
          have hsame : v.norm = v'.norm := hagree claim v v' hv hv'
          refine hsame.trans (h claim v' w ?_ hw)
          rw [hmid, hv', Option.some_or]
    · intro claim v w hv hw
      refine h claim v w ?_ hw
      rw [hmid, hv, Option.some_or]
  · rintro ⟨h₁, h₂⟩ claim v w hv hw
    rw [hmid] at hv
    cases hv' : m₂.lookup claim with
    | none =>
        rw [hv', Option.none_or] at hv
        exact h₁ claim v w hv hw
    | some v' =>
        rw [hv', Option.some_or] at hv
        exact h₂ claim v w (hv'.trans hv) hw

/-- Step: the faults below a statement that is combined are those below the result. -/
theorem fault_cons_iff {rule mid : Rule} {es : Statement Key} {rest : List (Statement Key)}
    (apart : claimInBoth (ruleOf es entityType) = false)
    (agree : Agree rule.metadata (ruleOf es entityType).metadata)
    (metadata : ∀ claim, mid.metadata.lookup claim =
      ((ruleOf es entityType).metadata.lookup claim).or (rule.metadata.lookup claim))
    (policy : ∀ claim, accumulateOne ho entityType claim (rule.metadataPolicy.lookup claim) es =
      .ok (mid.metadataPolicy.lookup claim)) :
    Fault ho entityType rule (es :: rest) ↔ Fault ho entityType mid rest := by
  have hoverlap : OverlapIn entityType (es :: rest) ↔ OverlapIn entityType rest := by
    rw [overlapIn_cons, apart, or_iff_right (by simp)]
  -- a clash with the result is one with what it is combined from, or between two statements
  have hclash : ((∃ s ∈ es :: rest, ¬ Agree rule.metadata (ruleOf s entityType).metadata) ∨
        MetadataClash entityType (es :: rest)) ↔
      (∃ s ∈ rest, ¬ Agree mid.metadata (ruleOf s entityType).metadata) ∨
        MetadataClash entityType rest := by
    simp only [List.exists_mem_cons_iff, not_true_eq_false, agree, false_or, metadataClash_cons,
      agree_or_iff agree metadata, not_and_or, and_or_left, exists_or, or_assoc]
  have hpolicy : ∀ claim, (es :: rest).foldlM (accumulateOne ho entityType claim)
        (rule.metadataPolicy.lookup claim) =
      rest.foldlM (accumulateOne ho entityType claim) (mid.metadataPolicy.lookup claim) := by
    intro claim
    rw [List.foldlM_cons, policy claim, except_ok_bind]
  unfold Fault
  rw [hoverlap, hclash]
  simp only [hpolicy]

/-- A statement that is at fault is a fault of the whole. -/
theorem fault_of_first {rule : Rule} {es : Statement Key} {rest : List (Statement Key)}
    {text : Message}
    (h : claimInBoth (ruleOf es entityType) = true ∨
      ¬ Agree rule.metadata (ruleOf es entityType).metadata ∨
      combineCommon ho rule.metadataPolicy (ruleOf es entityType).metadataPolicy
        (commonClaims ho rule (ruleOf es entityType)) = .error (.policyError text)) :
    Fault ho entityType rule (es :: rest) := by
  rcases h with hover | hclash | hcommon
  · exact Or.inl (overlapIn_cons.mpr (Or.inl hover))
  · exact Or.inr (Or.inl (Or.inl ⟨es, List.mem_cons_self .., hclash⟩))
  · obtain ⟨claim, herror⟩ := accumulateOne_eq_error hcommon
    refine Or.inr (Or.inr ⟨claim, ?_⟩)
    rw [List.foldlM_cons]
    exact raisesPolicyError_bind.mpr (Or.inl ⟨text, herror⟩)

theorem not_fault_nil {rule : Rule} : ¬ Fault ho entityType rule ([] : List (Statement Key)) := by
  rintro (⟨s, hs, -⟩ | (⟨s, hs, -⟩ | ⟨s, hs, -⟩) | ⟨claim, hraises⟩)
  · exact absurd hs List.not_mem_nil
  · exact absurd hs List.not_mem_nil
  · exact absurd hs List.not_mem_nil
  · exact absurd hraises (not_raisesPolicyError_ok _)

/-- Where what is accumulated for every claim combines, the claims that both have do. -/
theorem combineCommon_ne_error {rule mid : Rule} {es : Statement Key}
    (hpolicy : ∀ claim, accumulateOne ho entityType claim (rule.metadataPolicy.lookup claim) es =
      .ok (mid.metadataPolicy.lookup claim)) (e : Exc) :
    combineCommon ho rule.metadataPolicy (ruleOf es entityType).metadataPolicy
      (commonClaims ho rule (ruleOf es entityType)) ≠ .error e := by
  intro herror
  obtain ⟨claim, hclaim⟩ := accumulateOne_eq_error herror
  rw [hpolicy claim] at hclaim
  exact absurd hclaim (by simp)

/-- Run: the loop raises `PolicyError` exactly if there is a fault and nothing else stops
    it before. -/
theorem gatherLoop_raises_iff {rule : Rule} {rest : List (Statement Key)} :
    RaisesPolicyError (gatherLoop ho entityType rule rest) ↔
      Fault ho entityType rule rest ∧ ¬ StopsOtherwise ho entityType rule rest := by
  induction rest generalizing rule with
  | nil => exact ⟨fun h => absurd h (not_raisesPolicyError_ok _), fun h => absurd h.1 not_fault_nil⟩
  | cons es rest ih =>
      have hstep : GatherStep ho entityType rule es (gatherLoop ho entityType rule [es]) :=
        gatherStep_gatherLoop_one rule es
      rw [gatherLoop_cons, StopsOtherwise]
      -- the three ways in which the loop can come out of one statement
      generalize gatherLoop ho entityType rule [es] = result at hstep ⊢
      cases hstep with
      | combined mid apart agree metadata policy =>
          -- the statement is combined, so that the faults are those below it
          rw [fault_cons_iff apart agree metadata policy]
          have hstops : ¬ (claimInBoth (ruleOf es entityType) = false ∧
              Agree rule.metadata (ruleOf es entityType).metadata ∧
              ∃ e, (¬ ∃ text, e = .policyError text) ∧
                combineCommon ho rule.metadataPolicy (ruleOf es entityType).metadataPolicy
                  (commonClaims ho rule (ruleOf es entityType)) = .error e) := by
            rintro ⟨-, -, e, -, herror⟩
            exact combineCommon_ne_error policy e herror
          have hmid : (∃ mid', (Except.ok mid : Except Exc Rule) = .ok mid' ∧
              StopsOtherwise ho entityType mid' rest) ↔ StopsOtherwise ho entityType mid rest := by
            simp
          rw [or_iff_right hstops, hmid, ← ih]
          rfl
      | fault text h =>
          -- the statement itself is at fault, and that comes before anything else
          refine ⟨fun _ => ⟨fault_of_first h, ?_⟩, fun _ => ⟨text, rfl⟩⟩
          rintro (⟨apart, agree, e, he, herror⟩ | ⟨mid, hmid, -⟩)
          · rcases h with hover | hclash | hcommon
            · rw [apart] at hover
              exact absurd hover (by simp)
            · exact hclash agree
            · rw [hcommon, Except.error.injEq] at herror
              exact he ⟨text, herror.symm⟩
          · exact absurd hmid (by simp)
      | other e he apart agree common =>
          constructor
          · rintro ⟨text, herror⟩
            exact absurd ⟨text, Except.error.inj herror⟩ he
          · rintro ⟨-, hstops⟩
            exact absurd (Or.inl ⟨apart, agree, e, he, common⟩) hstops

/-- What stops the loop otherwise stops the accumulation for a claim. -/
theorem accumulated_of_stopsOtherwise {rule : Rule} {rest : List (Statement Key)}
    (h : StopsOtherwise ho entityType rule rest) :
    ∃ claim e, (¬ ∃ text, e = .policyError text) ∧
      rest.foldlM (accumulateOne ho entityType claim) (rule.metadataPolicy.lookup claim) =
        .error e := by
  induction rest generalizing rule with
  | nil => exact absurd h id
  | cons es rest ih =>
      rcases h with ⟨-, -, e, he, hcommon⟩ | ⟨mid, hmid, hrest⟩
      · obtain ⟨claim, herror⟩ := accumulateOne_eq_error hcommon
        refine ⟨claim, e, he, ?_⟩
        rw [List.foldlM_cons, herror, except_error_bind]
      · obtain ⟨claim, e, he, herror⟩ := ih hrest
        refine ⟨claim, e, he, ?_⟩
        rw [List.foldlM_cons, accumulateOne_of_gathered hmid claim, except_ok_bind]
        exact herror

/-! ## The whole chain -/

/-- The chain is at fault somewhere: in one statement, between two of them, or in the
    policies accumulated for a claim. -/
def Faulty (ho : HashOrder) (entityType : String) (chain : List (Statement Key)) : Prop :=
  OverlapIn entityType chain ∨ MetadataClash entityType chain ∨ PolicyRefused ho entityType chain

/-- At fault otherwise than by an overlap in the first statement. -/
def FaultyBelow (ho : HashOrder) (entityType : String) (first : Statement Key)
    (rest : List (Statement Key)) : Prop :=
  OverlapIn entityType rest ∨ MetadataClash entityType (first :: rest) ∨
    PolicyRefused ho entityType (first :: rest)

theorem faulty_cons_iff {first : Statement Key} {rest : List (Statement Key)} :
    Faulty ho entityType (first :: rest) ↔
      claimInBoth (ruleOf first entityType) = true ∨ FaultyBelow ho entityType first rest := by
  rw [Faulty, FaultyBelow, overlapIn_cons, or_assoc]

/-- The loop starts from the first statement. -/
theorem accumulated_cons {first : Statement Key} {rest : List (Statement Key)} (claim : String) :
    accumulated ho entityType claim (first :: rest) =
      rest.foldlM (accumulateOne ho entityType claim)
        ((ruleOf first entityType).metadataPolicy.lookup claim) := by
  rw [accumulated, List.foldlM_cons]
  simp only [accumulateOne, Option.none_or, except_ok_bind]
  rfl

theorem fault_ruleOf_iff {first : Statement Key} {rest : List (Statement Key)} :
    Fault ho entityType (ruleOf first entityType) rest ↔
      FaultyBelow ho entityType first rest := by
  rw [Fault, FaultyBelow, metadataClash_cons, PolicyRefused]
  simp only [accumulated_cons]

theorem gatherPolicies_raises_iff {first : Statement Key} {rest : List (Statement Key)} :
    RaisesPolicyError (gatherPolicies ho (first :: rest) entityType) ↔
      FaultyBelow ho entityType first rest ∧
        ¬ StopsOtherwise ho entityType (ruleOf first entityType) rest := by
  rw [← fault_ruleOf_iff]
  exact gatherLoop_raises_iff

/-- `gather_policies` raises `PolicyError` exactly for the chains that are at fault, if and
    only if a chain that is at fault is so otherwise than by an overlap in its first
    statement, and no other exception comes first.  Of other exceptions there are none where
    the policies of no claim raise one. -/
theorem gathering_verdict_iff (entityType : String) (first : Statement Key)
    (rest : List (Statement Key)) :
    ((RaisesPolicyError (gatherPolicies ho (first :: rest) entityType) ↔
        Faulty ho entityType (first :: rest)) ↔
      (Faulty ho entityType (first :: rest) → FaultyBelow ho entityType first rest ∧
        ¬ StopsOtherwise ho entityType (ruleOf first entityType) rest)) ∧
    ((∀ claim e, accumulated ho entityType claim (first :: rest) = .error e →
        ∃ text, e = .policyError text) →
      ((RaisesPolicyError (gatherPolicies ho (first :: rest) entityType) ↔
          Faulty ho entityType (first :: rest)) ↔
        (claimInBoth (ruleOf first entityType) = true →
          FaultyBelow ho entityType first rest))) := by
  rw [gatherPolicies_raises_iff, faulty_cons_iff]
  constructor
  · constructor
    · intro h hfaulty
      exact h.mpr hfaulty
    · intro h
      exact ⟨fun hbelow => Or.inr hbelow.1, h⟩
  · intro honly
    -- another exception would be one of the policies of some claim
    have hnothing : ¬ StopsOtherwise ho entityType (ruleOf first entityType) rest := by
      intro hstops
      obtain ⟨claim, e, he, herror⟩ := accumulated_of_stopsOtherwise hstops
      rw [← accumulated_cons] at herror
      exact he (honly claim e herror)
    rw [and_iff_left hnothing]
    constructor
    · intro h hoverlap
      exact h.mpr (Or.inl hoverlap)
    · intro h
      exact ⟨Or.inr, fun hfaulty => hfaulty.elim h (fun hbelow => hbelow)⟩

/-- The trust anchor has a claim in both parts, and that is all that it says. -/
theorem overlap_in_first_accepted :
    ¬ ∀ (entityType : String) (first : Statement String) (rest : List (Statement String)),
      RaisesPolicyError (gatherPolicies .insertion (first :: rest) entityType) ↔
        Faulty .insertion entityType (first :: rest) := by
  intro h
  obtain ⟨text, herror⟩ := (h "openid_relying_party"
    { iss := "https://ta.example", sub := "https://rp.example",
      metadata := some (Dict.ofList [("openid_relying_party",
        Dict.ofList [("application_type", .str "web")])]),
      metadataPolicy := some (Dict.ofList [("openid_relying_party",
        Dict.ofList [("application_type", Dict.ofList [("value", .str "native")])])]) } []).mpr
    (Or.inl ⟨_, List.mem_cons_self .., by decide⟩)
  exact absurd herror (by simp [gatherPolicies, gatherLoop])

end Fedservice.Entity.Function
