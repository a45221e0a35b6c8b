/-
  Fedservice.Entity.Function.PolicyOnTop

  A statement on top of a chain that has no policies for an entity type, such as an
  entity configuration, still has its metadata gathered: what nobody further down
  states is then given to the leaf.  Here is said when the chain is accepted all
  the same, and when the outcome of the policies is the one without it.
-/

import Fedservice.Entity.Function.PolicyApplication
import Fedservice.Entity.Function.PolicyGathering

namespace Fedservice.Entity.Function

open Fedservice.Lib Fedservice.Py Fedservice.EntityStatement

variable {Key : Type} {ho : HashOrder}

/-! ## When rules combine -/

/-- The claims that are in both are equal. -/
def Agree (superior subordinate : Metadata) : Prop :=
  ∀ claim v w, superior.lookup claim = some v → subordinate.lookup claim = some w →
    v.norm = w.norm

/-- Metadata combine exactly if they agree, to those of either side. -/
theorem combineMetadata_eq_ok {superior subordinate : Metadata} :
    ((∃ metadata, combineMetadata ho superior subordinate = .ok metadata) ↔
        Agree superior subordinate) ∧
      ∀ metadata, combineMetadata ho superior subordinate = .ok metadata → ∀ claim,
        metadata.lookup claim = (subordinate.lookup claim).or (superior.lookup claim) := by
  unfold combineMetadata
  by_cases hempty : subordinate.isEmpty = true
  · have hnone : ∀ claim, subordinate.lookup claim = none := Dict.lookup_of_isEmpty hempty
    rw [if_pos hempty]
    refine ⟨⟨fun _ claim v w _ hw => ?_, fun _ => ⟨superior, rfl⟩⟩, fun metadata h claim => ?_⟩
    · rw [hnone] at hw
      exact absurd hw (by simp)
    · rw [← Except.ok.inj h, hnone, Option.none_or]
  · rw [if_neg hempty]
    dsimp only
    split
    · -- a claim with two values
      rename_i hclash
      refine ⟨⟨fun ⟨_, h⟩ => absurd h (by simp), fun hagree => ?_⟩, fun _ h => absurd h (by simp)⟩
      obtain ⟨k, -, hk⟩ := List.any_eq_true.mp hclash
      cases hv : superior.lookup k with
      | none => simp [hv] at hk
      | some v =>
          cases hw : subordinate.lookup k with
          | none => simp [hv, hw] at hk
          | some w =>
              have heqv : v.eqv w = true := Json.eqv_iff.mpr (hagree k v w hv hw)
              simp [hv, hw, heqv] at hk
    · -- no claim has two
      rename_i hclash
      refine ⟨⟨fun _ claim v w hv hw => ?_, fun _ => ⟨_, rfl⟩⟩, fun metadata h claim => ?_⟩
      · by_contra hne
        refine hclash (List.any_eq_true.mpr ⟨claim, ?_, ?_⟩)
        · rw [HashOrder.mem_arrange, List.mem_filter, decide_eq_true_eq]
          exact ⟨AList.mem_keys.mp (Dict.mem_iff_lookup.mpr ⟨w, hw⟩),
            Dict.mem_iff_lookup.mpr ⟨v, hv⟩⟩
        · have heqv : v.eqv w = false := by
            rw [Bool.eq_false_iff]
            exact fun h => hne (Json.eqv_iff.mp h)
          simp only [hv, hw, heqv, Bool.not_false]
      · rw [← Except.ok.inj h, Dict.lookup_update]

/-- The claims of a policy can be copied. -/
theorem exists_copyClaims {source start : MetadataPolicy} {keep : String → Bool} :
    ∃ copied, copyClaims source (ho.arrange (source.keys.filter keep)) start = .ok copied := by
  refine Dict.exists_insertEach_iff.mpr fun claim hclaim => ?_
  rw [HashOrder.mem_arrange, List.mem_filter] at hclaim
  obtain ⟨p, hp⟩ := Dict.mem_iff_lookup.mp (AList.mem_keys.mpr hclaim.1)
  exact ⟨p, item_eq_ok.mpr hp⟩

/-- Rules combine exactly if their metadata agree and the policies of every claim that
    is in both combine. -/
theorem exists_combine_iff {superior subordinate : Rule} :
    (∃ rule, combine ho superior subordinate = .ok rule) ↔
      Agree superior.metadata subordinate.metadata ∧
        ∀ claim p q, superior.metadataPolicy.lookup claim = some p →
          subordinate.metadataPolicy.lookup claim = some q →
          ∃ r, combineClaimPolicy ho p q = .ok r := by
  have hkeep : ∀ metadata : Metadata, (if metadata.isEmpty then superior
      else { superior with metadata := metadata }).metadataPolicy = superior.metadataPolicy := by
    intro metadata
    split <;> rfl
  constructor
  · rintro ⟨rule, h⟩
    obtain ⟨metadata, hmetadata, -⟩ := except_bind_eq_ok.mp h
    refine ⟨combineMetadata_eq_ok.1.mp ⟨metadata, hmetadata⟩, fun claim p q hp hq => ?_⟩
    obtain ⟨r, hr, -⟩ := (combine_claimPolicy claim h).1 p q hp hq
    exact ⟨r, hr⟩
  · rintro ⟨hagree, hclaims⟩
    obtain ⟨metadata, hmetadata⟩ := combineMetadata_eq_ok.1.mpr hagree
    unfold combine
    rw [hmetadata, except_ok_bind]
    by_cases hempty : subordinate.metadataPolicy.isEmpty = true
    · exact ⟨_, if_pos hempty⟩
    · simp only [if_neg hempty, hkeep]
      -- the three loops: over the claims of both, of the superior alone, of the other alone
      have hin : ∀ {d : MetadataPolicy} {claim}, claim ∈ d.keys → ∃ p, d.lookup claim = some p :=
        fun h => Dict.mem_iff_lookup.mp (AList.mem_keys.mpr h)
      obtain ⟨both, hboth⟩ : ∃ both, combineCommon ho superior.metadataPolicy
          subordinate.metadataPolicy (ho.arrange (superior.metadataPolicy.keys.filter
            fun c => decide (c ∈ subordinate.metadataPolicy))) = .ok both := by
        refine Dict.exists_insertEach_iff.mpr fun claim hclaim => ?_
        rw [HashOrder.mem_arrange, List.mem_filter, decide_eq_true_eq] at hclaim
        obtain ⟨p, hp⟩ := hin hclaim.1
        obtain ⟨q, hq⟩ := Dict.mem_iff_lookup.mp hclaim.2
        obtain ⟨r, hr⟩ := hclaims claim p q hp hq
        exact ⟨r, by rw [item_eq_ok.mpr hp, item_eq_ok.mpr hq]; exact hr⟩
      obtain ⟨supers, hsupers⟩ := @exists_copyClaims ho superior.metadataPolicy both
        (fun c => decide (c ∉ subordinate.metadataPolicy))
      obtain ⟨all, hall⟩ := @exists_copyClaims ho subordinate.metadataPolicy supers
        (fun c => decide (c ∉ superior.metadataPolicy))
      rw [hboth, except_ok_bind, hsupers, except_ok_bind, hall, except_ok_bind]
      exact ⟨_, rfl⟩

/-- The metadata of a combined rule are those of either side. -/
theorem combine_metadata {superior subordinate rule : Rule}
    (h : combine ho superior subordinate = .ok rule) (claim : String) :
    rule.metadata.lookup claim =
      (subordinate.metadata.lookup claim).or (superior.metadata.lookup claim) := by
  obtain ⟨metadata, hmetadata, h⟩ := except_bind_eq_ok.mp h
  have hlookup := combineMetadata_eq_ok.2 metadata hmetadata claim
  -- what is empty is not put in, but then there is nothing on either side
  have hkeep : (if metadata.isEmpty then superior
      else { superior with metadata := metadata }).metadata.lookup claim =
        (subordinate.metadata.lookup claim).or (superior.metadata.lookup claim) := by
    by_cases hempty : metadata.isEmpty = true
    · rw [Dict.lookup_of_isEmpty hempty, eq_comm, Option.or_eq_none_iff] at hlookup
      rw [if_pos hempty, hlookup.1, Option.none_or]
    · rw [if_neg hempty]
      exact hlookup
  by_cases hempty : subordinate.metadataPolicy.isEmpty = true
  · simp only [if_pos hempty] at h
    rw [← except_pure_eq_ok.mp h, hkeep]
  · simp only [if_neg hempty] at h
    obtain ⟨both, -, h⟩ := except_bind_eq_ok.mp h
    obtain ⟨supers, -, h⟩ := except_bind_eq_ok.mp h
    obtain ⟨all, -, h⟩ := except_bind_eq_ok.mp h
    rw [← except_pure_eq_ok.mp h]
    exact hkeep

/-! ## What a rule makes of the claims -/

/-- What the policies make of a claim. -/
def settle (ho : HashOrder) (metadataPolicy : MetadataPolicy) (claim : String)
    (slot : Option Json) : Except Exc (Option Json) :=
  match metadataPolicy.lookup claim with
  | some policy => evalClaim ho claim policy slot
  | none => .ok slot

theorem settle_of_lookup {metadataPolicy : MetadataPolicy} {claim : String} {policy : ClaimPolicy}
    (hpolicy : metadataPolicy.lookup claim = some policy) (slot : Option Json) :
    settle ho metadataPolicy claim slot = evalClaim ho claim policy slot := by
  rw [settle, hpolicy]

theorem settle_of_not_mem {metadataPolicy : MetadataPolicy} {claim : String}
    (hclaim : claim ∉ metadataPolicy) (slot : Option Json) :
    settle ho metadataPolicy claim slot = .ok slot := by
  rw [settle, AList.lookup_eq_none.mpr hclaim]

/-- The operators get through exactly if every claim can be settled, -/
theorem exists_applyMetadataPolicy_iff {metadataPolicy : MetadataPolicy} {m : Metadata} :
    (∃ m', applyMetadataPolicy ho metadataPolicy constructEvaluationSequence m = .ok () m') ↔
      ∀ claim, ∃ slot, settle ho metadataPolicy claim (m.lookup claim) = .ok slot := by
  unfold applyMetadataPolicy
  rw [exists_applyClaims_iff (ho.nodup_arrange metadataPolicy.keys_nodup)]
  constructor
  · intro hall claim
    by_cases hclaim : claim ∈ metadataPolicy
    · obtain ⟨policy, hpolicy⟩ := Dict.mem_iff_lookup.mp hclaim
      have heval := hall claim (ho.mem_arrange.mpr (AList.mem_keys.mp hclaim))
      rwa [hpolicy, Option.getD_some, ← settle_of_lookup hpolicy] at heval
    · exact ⟨_, settle_of_not_mem hclaim _⟩
  · intro hall claim hclaim
    obtain ⟨policy, hpolicy⟩ :=
      Dict.mem_iff_lookup.mp (AList.mem_keys.mpr (ho.mem_arrange.mp hclaim))
    rw [hpolicy, Option.getD_some, ← settle_of_lookup hpolicy]
    exact hall claim

/-- and then it is. -/
theorem settle_of_applyMetadataPolicy {metadataPolicy : MetadataPolicy} {m m' : Metadata}
    (h : applyMetadataPolicy ho metadataPolicy constructEvaluationSequence m = .ok () m')
    (claim : String) :
    settle ho metadataPolicy claim (m.lookup claim) = .ok (m'.lookup claim) := by
  obtain ⟨hall, hframe⟩ := applyMetadataPolicy_eq_ok h
  by_cases hclaim : claim ∈ metadataPolicy
  · obtain ⟨policy, hpolicy⟩ := Dict.mem_iff_lookup.mp hclaim
    rw [settle_of_lookup hpolicy, hall claim policy hpolicy]
  · rw [settle_of_not_mem hclaim, hframe claim hclaim]

/-- The second half of `apply_policy`: every claim is settled. -/
theorem applyRulePolicy_eq_ok {metadataPolicy : MetadataPolicy} {m : Metadata} :
    ((∃ m' m'', applyRulePolicy ho metadataPolicy m = .ok m' m'') ↔
        ∀ claim, ∃ slot, settle ho metadataPolicy claim (m.lookup claim) = .ok slot) ∧
      ∀ m' m'', applyRulePolicy ho metadataPolicy m = .ok m' m'' → ∀ claim,
        settle ho metadataPolicy claim (m.lookup claim) = .ok (m'.lookup claim) := by
  unfold applyRulePolicy
  by_cases hempty : metadataPolicy.isEmpty = true
  · have hnone : ∀ claim slot, settle ho metadataPolicy claim slot = .ok slot := by
      intro claim slot
      rw [settle, Dict.lookup_of_isEmpty hempty]
    simp only [if_pos hempty, hnone]
    refine ⟨⟨fun _ claim => ⟨_, rfl⟩, fun _ => ⟨m, m, rfl⟩⟩, fun m' m'' h claim => ?_⟩
    obtain ⟨rfl, -⟩ := EStateM.Result.ok.inj h
    rfl
  · simp only [if_neg hempty]
    refine ⟨?_, fun m' m'' h claim => ?_⟩
    · rw [← exists_applyMetadataPolicy_iff]
      constructor
      · rintro ⟨m', m'', h⟩
        obtain ⟨⟨⟩, m₁, happly, -⟩ := bind_eq_ok.mp h
        exact ⟨m₁, happly⟩
      · rintro ⟨m', happly⟩
        exact ⟨m', m', by rw [bind_of_ok happly]; rfl⟩
    · obtain ⟨⟨⟩, m₁, happly, hget⟩ := bind_eq_ok.mp h
      obtain ⟨rfl, -⟩ := EStateM.Result.ok.inj hget
      exact settle_of_applyMetadataPolicy happly claim

/-- Whether a copy is made makes no difference to what is returned. -/
theorem outcome_applyPolicy (rule : Rule) (own : Metadata) :
    outcome (applyPolicy ho rule own) =
      outcome (applyRulePolicy ho rule.metadataPolicy (rule.metadata.update own)) := by
  by_cases hempty : rule.metadata.isEmpty = true
  · have heq : applyPolicy ho rule = applyRulePolicy ho rule.metadataPolicy := if_pos hempty
    rw [heq, Dict.update_of_isEmpty hempty]
  · have heq : applyPolicy ho rule own = _ := congrFun (if_neg hempty) own
    rw [heq]
    cases applyRulePolicy ho rule.metadataPolicy (rule.metadata.update own) <;> rfl

/-- What a rule makes of metadata: every claim, from the leaf or else from a superior, is
    settled. -/
theorem applyPolicy_eq_ok {rule : Rule} {own : Metadata} :
    ((∃ m own', applyPolicy ho rule own = .ok m own') ↔ ∀ claim, ∃ slot,
        settle ho rule.metadataPolicy claim
          ((own.lookup claim).or (rule.metadata.lookup claim)) = .ok slot) ∧
      ∀ m own', applyPolicy ho rule own = .ok m own' → ∀ claim,
        settle ho rule.metadataPolicy claim
          ((own.lookup claim).or (rule.metadata.lookup claim)) = .ok (m.lookup claim) := by
  have hsame : ∀ m, (∃ own', applyPolicy ho rule own = .ok m own') ↔
      ∃ m', applyRulePolicy ho rule.metadataPolicy (rule.metadata.update own) = .ok m m' := by
    intro m
    rw [← outcome_eq_ok, ← outcome_eq_ok, outcome_applyPolicy]
  have hrule : (∃ m m', applyRulePolicy ho rule.metadataPolicy (rule.metadata.update own) =
      .ok m m') ↔ _ := applyRulePolicy_eq_ok.1
  simp only [← Dict.lookup_update]
  refine ⟨?_, fun m own' h claim => ?_⟩
  · rw [← hrule]
    exact exists_congr hsame
  · obtain ⟨m', hm'⟩ := (hsame m).mp ⟨own', h⟩
    exact applyRulePolicy_eq_ok.2 m m' hm' claim

/-! ## A statement on top -/

/-- `mixed` is the rule with metadata from above that nobody further down states
    differently. -/
structure OnTop (above : Metadata) (rule mixed : Rule) : Prop where
  policy : ∀ claim, mixed.metadataPolicy.lookup claim = rule.metadataPolicy.lookup claim
  metadata : ∀ claim,
    mixed.metadata.lookup claim = (rule.metadata.lookup claim).or (above.lookup claim)
  agree : Agree above rule.metadata

/-- Agreement with a combined rule is agreement with both sides. -/
theorem agree_combine_iff {above : Metadata} {superior subordinate rule : Rule}
    (h : combine ho superior subordinate = .ok rule) (hsup : Agree above superior.metadata) :
    Agree above rule.metadata ↔ Agree above subordinate.metadata := by
  constructor
  · intro hagree claim v w hv hw
    refine hagree claim v w hv ?_
    rw [combine_metadata h, hw, Option.some_or]
  · intro hagree claim v w hv hw
    rw [combine_metadata h] at hw
    cases hsub : subordinate.metadata.lookup claim with
    | some w' =>
        rw [hsub, Option.some_or] at hw
        rw [← Option.some.inj hw]
        exact hagree claim v w' hv hsub
    | none =>
        rw [hsub, Option.none_or] at hw
        exact hsup claim v w hv hw

/-- Step: one more statement. -/
theorem OnTop.combine {above : Metadata} {rule mixed sub mid : Rule} (h : OnTop above rule mixed)
    (hmid : combine ho rule sub = .ok mid) :
    ((∃ mixed', combine ho mixed sub = .ok mixed') ↔ Agree above sub.metadata) ∧
      ∀ mixed', combine ho mixed sub = .ok mixed' → OnTop above mid mixed' := by
  obtain ⟨hagree, hclaims⟩ := exists_combine_iff.mp ⟨mid, hmid⟩
  -- where the rule states a claim itself, it is between the rule and the statement only
  have hiff : Agree mixed.metadata sub.metadata ↔ Agree above sub.metadata := by
    constructor
    · intro hmixed claim v w hv hw
      cases hrule : rule.metadata.lookup claim with
      | none =>
          refine hmixed claim v w ?_ hw
          rw [h.metadata, hrule, Option.none_or, hv]
      | some u => exact (h.agree claim v u hv hrule).trans (hagree claim u w hrule hw)
    · intro habove claim v w hv hw
      rw [h.metadata] at hv
      cases hrule : rule.metadata.lookup claim with
      | none =>
          rw [hrule, Option.none_or] at hv
          exact habove claim v w hv hw
      | some u =>
          rw [hrule, Option.some_or] at hv
          exact hagree claim v w (hrule.trans hv) hw
  refine ⟨?_, fun mixed' hmixed' => ⟨fun claim => ?_, fun claim => ?_, ?_⟩⟩
  · rw [exists_combine_iff, hiff]
    refine ⟨And.left, fun habove => ⟨habove, fun claim p q hp hq => ?_⟩⟩
    rw [h.policy] at hp
    exact hclaims claim p q hp hq
  · -- the policies of the claim are combined the same way on both sides
    obtain ⟨hboth, hsup, hsub⟩ := combine_claimPolicy claim hmid
    obtain ⟨hboth', hsup', hsub'⟩ := combine_claimPolicy claim hmixed'
    cases hq : sub.metadataPolicy.lookup claim with
    | none => rw [hsup hq, hsup' hq, h.policy]
    | some q =>
        cases hp : rule.metadataPolicy.lookup claim with
        | none => rw [hsub hp, hsub' ((h.policy claim).trans hp)]
        | some p =>
            obtain ⟨r, hr, hlookup⟩ := hboth p q hp hq
            obtain ⟨r', hr', hlookup'⟩ := hboth' p q ((h.policy claim).trans hp) hq
            rw [hr, Except.ok.injEq] at hr'
            rw [hlookup, hlookup', hr']
  · rw [combine_metadata hmixed', combine_metadata hmid, h.metadata, Option.or_assoc]
  · have habove := hiff.mp (exists_combine_iff.mp ⟨mixed', hmixed'⟩).1
    exact (agree_combine_iff hmid h.agree).mpr habove

theorem bind_ok_eq_ok {ε α : Type} {x : Except ε α} {a : α} :
    (x >>= fun r => Except.ok r) = .ok a ↔ x = .ok a := by
  cases x <;> rfl

theorem agree_of_isEmpty {above metadata : Metadata} (h : metadata.isEmpty = true) :
    Agree above metadata := by
  intro claim v w _ hw
  rw [Dict.lookup_of_isEmpty h] at hw
  exact absurd hw (by simp)

/-- The same in the loop of `gather_policies`. -/
theorem OnTop.gatherLoop_one {above : Metadata} {rule mixed mid : Rule} {entityType : String}
    {es : Statement Key} (h : OnTop above rule mixed)
    (hmid : gatherLoop ho entityType rule [es] = .ok mid) :
    ((∃ mixed', gatherLoop ho entityType mixed [es] = .ok mixed') ↔
        Agree above (ruleOf es entityType).metadata) ∧
      ∀ mixed', gatherLoop ho entityType mixed [es] = .ok mixed' → OnTop above mid mixed' := by
  simp only [gatherLoop] at hmid ⊢
  by_cases hempty : ((ruleOf es entityType).metadataPolicy.isEmpty &&
      (ruleOf es entityType).metadata.isEmpty) = true
  · -- the statement says nothing about the type
    simp only [if_pos hempty, Except.ok.injEq] at hmid ⊢
    obtain rfl := hmid
    rw [Bool.and_eq_true] at hempty
    exact ⟨⟨fun _ => agree_of_isEmpty hempty.2, fun _ => ⟨mixed, rfl⟩⟩, fun _ heq => heq ▸ h⟩
  · simp only [if_neg hempty] at hmid ⊢
    by_cases hover : claimInBoth (ruleOf es entityType) = true
    · rw [if_pos hover] at hmid
      exact absurd hmid except_throw_ne_ok
    · simp only [if_neg hover] at hmid ⊢
      obtain ⟨mid', hcombine, hmid⟩ := except_bind_eq_ok.mp hmid
      obtain rfl := Except.ok.inj hmid
      simp only [bind_ok_eq_ok]
      exact h.combine hcombine

/-- Run: the loop of `gather_policies`. -/
theorem OnTop.gatherLoop {above : Metadata} {rule mixed final : Rule} {entityType : String}
    {rest : List (Statement Key)} (h : OnTop above rule mixed)
    (hfinal : Function.gatherLoop ho entityType rule rest = .ok final) :
    ((∃ mixed', Function.gatherLoop ho entityType mixed rest = .ok mixed') ↔
        ∀ s ∈ rest, Agree above (ruleOf s entityType).metadata) ∧
      ∀ mixed', Function.gatherLoop ho entityType mixed rest = .ok mixed' →
        OnTop above final mixed' := by
  induction rest generalizing rule mixed with
  | nil =>
      obtain rfl := Except.ok.inj hfinal
      refine ⟨⟨fun _ s hs => absurd hs List.not_mem_nil, fun _ => ⟨mixed, rfl⟩⟩, fun mixed' h' => ?_⟩
      rw [← Except.ok.inj h']
      exact h
  | cons es rest ih =>
      rw [gatherLoop_cons] at hfinal
      obtain ⟨mid, hmid, hlast⟩ := except_bind_eq_ok.mp hfinal
      obtain ⟨hexists, hstep⟩ := h.gatherLoop_one hmid
      rw [List.forall_mem_cons, ← hexists]
      constructor
      · constructor
        · rintro ⟨mixed', hmixed'⟩
          rw [gatherLoop_cons] at hmixed'
          obtain ⟨mixed₁, hmixed₁, hrest⟩ := except_bind_eq_ok.mp hmixed'
          exact ⟨⟨mixed₁, hmixed₁⟩, (ih (hstep mixed₁ hmixed₁) hlast).1.mp ⟨mixed', hrest⟩⟩
        · rintro ⟨⟨mixed₁, hmixed₁⟩, hall⟩
          obtain ⟨mixed', hrest⟩ := (ih (hstep mixed₁ hmixed₁) hlast).1.mpr hall
          refine ⟨mixed', ?_⟩
          rw [gatherLoop_cons, hmixed₁]
          exact hrest
      · intro mixed' hmixed'
        rw [gatherLoop_cons] at hmixed'
        obtain ⟨mixed₁, hmixed₁, hrest⟩ := except_bind_eq_ok.mp hmixed'
        exact (ih (hstep mixed₁ hmixed₁) hlast).2 mixed' hrest

/-- Equal dictionaries. -/
def SameClaims (m m' : Metadata) : Prop :=
  ∀ claim, (m.lookup claim).map Json.norm = (m'.lookup claim).map Json.norm

/-- Rules with the same policies settle claims alike. -/
theorem OnTop.settle {above : Metadata} {rule mixed : Rule} (h : OnTop above rule mixed)
    (claim : String) (slot : Option Json) :
    Function.settle ho mixed.metadataPolicy claim slot =
      Function.settle ho rule.metadataPolicy claim slot := by
  rw [Function.settle, Function.settle, h.policy]

/-! ## With what a statement on top adds -/

/-- What is settled with the metadata from above. -/
theorem OnTop.settled {above own m' own' : Metadata} {rule mixed : Rule}
    (h : OnTop above rule mixed) (happly : applyPolicy ho mixed own = .ok m' own')
    (claim : String) :
    Function.settle ho rule.metadataPolicy claim
      (((own.lookup claim).or (rule.metadata.lookup claim)).or (above.lookup claim)) =
        .ok (m'.lookup claim) := by
  have hslot := applyPolicy_eq_ok.2 m' own' happly claim
  rwa [h.settle, h.metadata, ← Option.or_assoc] at hslot

end Fedservice.Entity.Function
