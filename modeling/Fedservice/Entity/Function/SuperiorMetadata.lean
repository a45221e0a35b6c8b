/-
  Fedservice.Entity.Function.SuperiorMetadata

  The metadata that the superiors state, against what the leaf states: what is
  gathered along a chain has the value of every superior, and `apply_policy` then
  updates it with what the leaf says, so that the leaf is the one that is believed.
-/

import Fedservice.Entity.Function.PolicyOnTop

namespace Fedservice.Entity.Function

open Fedservice.Lib Fedservice.Py Fedservice.EntityStatement

variable {Key : Type} {ho : HashOrder}

/-! ## What is gathered has the value of every superior -/

/-- Every claim of `stated` is in `metadata`, with an equal value. -/
def StatesAll (metadata stated : Metadata) : Prop :=
  ∀ claim v, stated.lookup claim = some v →
    ∃ u, metadata.lookup claim = some u ∧ u.norm = v.norm

theorem StatesAll.refl (metadata : Metadata) : StatesAll metadata metadata :=
  fun _ v hv => ⟨v, hv, rfl⟩

theorem StatesAll.trans {m₁ m₂ m₃ : Metadata} (h₁ : StatesAll m₁ m₂) (h₂ : StatesAll m₂ m₃) :
    StatesAll m₁ m₃ := by
  intro claim v hv
  obtain ⟨u, hu, hnorm⟩ := h₂ claim v hv
  obtain ⟨u', hu', hnorm'⟩ := h₁ claim u hu
  exact ⟨u', hu', hnorm'.trans hnorm⟩

/-- Where rules combine, the metadata have what both sides state: a claim that both state has equal
    values. -/
theorem statesAll_combine {superior subordinate rule : Rule}
    (h : combine ho superior subordinate = .ok rule) :
    StatesAll rule.metadata superior.metadata ∧ StatesAll rule.metadata subordinate.metadata := by
  have hagree := (exists_combine_iff.mp ⟨rule, h⟩).1
  have hlookup := combine_metadata h
  constructor
  · intro claim v hv
    -- the subordinate's value is the one that is kept, and it is equal to the superior's
    cases hw : subordinate.metadata.lookup claim with
    | none =>
        refine ⟨v, ?_, rfl⟩
        rw [hlookup, hw, Option.none_or, hv]
    | some w =>
        refine ⟨w, ?_, (hagree claim v w hv hw).symm⟩
        rw [hlookup, hw, Option.some_or]
  · intro claim w hw
    refine ⟨w, ?_, rfl⟩
    rw [hlookup, hw, Option.some_or]

/-- Step: one statement of the loop. -/
theorem statesAll_gatherLoop_one {entityType : String} {rule mid : Rule} {es : Statement Key}
    (h : gatherLoop ho entityType rule [es] = .ok mid) :
    StatesAll mid.metadata rule.metadata ∧ StatesAll mid.metadata (ruleOf es entityType).metadata := by
  simp only [gatherLoop] at h
  by_cases hempty : ((ruleOf es entityType).metadataPolicy.isEmpty &&
      (ruleOf es entityType).metadata.isEmpty) = true
  · rw [if_pos hempty] at h
    -- a statement that says nothing about the type is passed over
    obtain rfl := Except.ok.inj h
    rw [Bool.and_eq_true] at hempty
    refine ⟨StatesAll.refl _, fun claim v hv => ?_⟩
    rw [Dict.lookup_of_isEmpty hempty.2] at hv
    exact absurd hv (by simp)
  · rw [if_neg hempty] at h
    by_cases hover : claimInBoth (ruleOf es entityType) = true
    · rw [if_pos hover] at h
      exact absurd h except_throw_ne_ok
    · rw [if_neg hover, bind_ok_eq_ok] at h
      exact statesAll_combine h

/-- Run: the loop of `gather_policies`. -/
theorem statesAll_gatherLoop {entityType : String} {rest : List (Statement Key)}
    {rule final : Rule} (h : gatherLoop ho entityType rule rest = .ok final) :
    StatesAll final.metadata rule.metadata ∧
      ∀ s ∈ rest, StatesAll final.metadata (ruleOf s entityType).metadata := by
  induction rest generalizing rule with
  | nil =>
      obtain rfl := Except.ok.inj h
      exact ⟨StatesAll.refl _, fun s hs => absurd hs List.not_mem_nil⟩
  | cons es rest ih =>
      rw [gatherLoop_cons] at h
      obtain ⟨mid, hmid, hlast⟩ := except_bind_eq_ok.mp h
      obtain ⟨hrule, hes⟩ := statesAll_gatherLoop_one hmid
      obtain ⟨hkeep, hrest⟩ := ih hlast
      refine ⟨hkeep.trans hrule, ?_⟩
      rw [List.forall_mem_cons]
      exact ⟨hkeep.trans hes, hrest⟩

/-- What is gathered has all that each statement of the chain states. -/
theorem statesAll_gatherPolicies {chain : List (Statement Key)} {entityType : String} {rule : Rule}
    (h : gatherPolicies ho chain entityType = .ok rule) :
    ∀ s ∈ chain, StatesAll rule.metadata (ruleOf s entityType).metadata := by
  cases chain with
  | nil => exact absurd h (by simp [gatherPolicies])
  | cons es rest =>
      obtain ⟨hfirst, hrest⟩ := statesAll_gatherLoop h
      rw [List.forall_mem_cons]
      exact ⟨hfirst, hrest⟩

/-! ## What the operators are given -/

/-- The metadata that `apply_policy` gives to the operators of the policies. -/
def operatorInput (policy : Rule) (metadata : Metadata) : Metadata :=
  if policy.metadata.isEmpty then metadata else policy.metadata.update metadata

/-- Without metadata from above there is nothing to update. -/
theorem operatorInput_eq (policy : Rule) (metadata : Metadata) :
    operatorInput policy metadata = policy.metadata.update metadata := by
  unfold operatorInput
  by_cases hempty : policy.metadata.isEmpty = true
  · rw [if_pos hempty, Dict.update_of_isEmpty hempty]
  · rw [if_neg hempty]

/-- `apply_policy` is the operators at work on that. -/
theorem outcome_applyPolicy_operatorInput (policy : Rule) (metadata : Metadata) :
    outcome (applyPolicy ho policy metadata) =
      outcome (applyRulePolicy ho policy.metadataPolicy (operatorInput policy metadata)) := by
  rw [outcome_applyPolicy, operatorInput_eq]

/-- What the leaf says comes first. -/
theorem lookup_operatorInput (policy : Rule) (metadata : Metadata) (claim : String) :
    (operatorInput policy metadata).lookup claim =
      (metadata.lookup claim).or (policy.metadata.lookup claim) := by
  rw [operatorInput_eq, Dict.lookup_update]

/-- `_policy` for a leaf that has metadata of the entity type. -/
theorem outcome_trustChainPolicy {trustChain : TrustChain Key} {entityType : String} {rule : Rule}
    {own : Metadata}
    (hgather : gatherPolicies ho trustChain.verifiedChain.dropLast entityType = .ok rule)
    (hleaf : leafMetadata entityType trustChain = some own) :
    outcome (trustChainPolicy ho entityType trustChain) =
      (outcome (applyRulePolicy ho rule.metadataPolicy (operatorInput rule own))).map some := by
  rw [← outcome_applyPolicy_operatorInput]
  -- the leaf's metadata are what the operators are given, over those of the rule
  unfold trustChainPolicy
  rw [bind_of_ok (get_apply trustChain), hgather, bind_of_ok (lift_ok rule trustChain), hleaf]
  simp only
  rw [bind_of_ok (set_apply _ _)]
  simp only [bind, EStateM.bind, zoom]
  cases applyPolicy ho rule own <;> rfl

/-- The leaf's metadata are refused as they are merged, whatever the policies are. -/
def MergeRefused (ho : HashOrder) (rule : Rule) (own : Metadata) : Prop :=
  ∀ metadataPolicy, ∃ text own',
    applyPolicy ho { rule with metadataPolicy := metadataPolicy } own = .error (.policyError text) own'

/-- The merge refuses nothing. -/
theorem not_mergeRefused (rule : Rule) (own : Metadata) : ¬ MergeRefused ho rule own := by
  intro h
  -- without any policy there is nothing that could refuse
  obtain ⟨text, own', herror⟩ := h ∅
  have hok : outcome (applyPolicy ho { rule with metadataPolicy := ∅ } own) =
      .ok (operatorInput { rule with metadataPolicy := ∅ } own) := by
    rw [outcome_applyPolicy_operatorInput]
    rfl
  rw [herror] at hok
  exact absurd hok (by simp)

/-- The operators are given the claim with the value that a superior states, or the leaf's
    metadata are refused. -/
def Prevails (ho : HashOrder) (rule : Rule) (own : Metadata) (claim : String) (v : Json) : Prop :=
  (∃ u, (operatorInput rule own).lookup claim = some u ∧ u.norm = v.norm) ∨
    MergeRefused ho rule own

/-! ## Whose value prevails -/

/-- A value that a superior states for a claim prevails exactly if the leaf does not state
    another one. -/
theorem superior_prevails_iff (trustChain : TrustChain Key) (entityType : String) (rule : Rule)
    (own : Metadata)
    (hgather : gatherPolicies ho trustChain.verifiedChain.dropLast entityType = .ok rule)
    (hleaf : leafMetadata entityType trustChain = some own) :
    outcome (trustChainPolicy ho entityType trustChain) =
        (outcome (applyRulePolicy ho rule.metadataPolicy (operatorInput rule own))).map some ∧
      ∀ s ∈ trustChain.verifiedChain.dropLast, ∀ claim v,
        (ruleOf s entityType).metadata.lookup claim = some v →
          (Prevails ho rule own claim v ↔
            ∀ w, own.lookup claim = some w → w.norm = v.norm) := by
  refine ⟨outcome_trustChainPolicy hgather hleaf, fun s hs claim v hv => ?_⟩
  obtain ⟨u, hu, hnorm⟩ := statesAll_gatherPolicies hgather s hs claim v hv
  unfold Prevails
  -- the merge never refuses, so the superior prevails only by its value
  rw [or_iff_left (not_mergeRefused rule own), lookup_operatorInput, hu]
  cases hw : own.lookup claim with
  | none =>
      rw [Option.none_or]
      exact ⟨fun _ w hw => absurd hw (by simp), fun _ => ⟨u, rfl, hnorm⟩⟩
  | some w =>
      rw [Option.some_or]
      constructor
      · rintro ⟨w', hw', hnorm'⟩ w'' hw''
        obtain rfl := Option.some.inj hw'
        obtain rfl := Option.some.inj hw''
        exact hnorm'
      · intro hall
        exact ⟨w, rfl, hall w rfl⟩

/-- A trust anchor that states who its subordinate is, and the subordinate. -/
def renamedChain (name : String) : TrustChain String where
  verifiedChain :=
    [{ iss := "https://ta.example", sub := "https://rp.example",
       metadata := some (Dict.ofList [("openid_relying_party",
         Dict.ofList [("organization_name", .str "Example")])]) },
     { iss := "https://rp.example", sub := "https://rp.example",
       metadata := some (Dict.ofList [("openid_relying_party",
         Dict.ofList [("organization_name", .str name)])]) }]

/-- A trust anchor and an intermediate that both state who the leaf is, the intermediate also
    where it is to be found; the leaf repeats the one and leaves the other out. -/
def twiceNamedChain : TrustChain String where
  verifiedChain :=
    [{ iss := "https://ta.example", sub := "https://im.example",
       metadata := some (Dict.ofList [("openid_relying_party",
         Dict.ofList [("organization_name", .str "Example")])]) },
     { iss := "https://im.example", sub := "https://rp.example",
       metadata := some (Dict.ofList [("openid_relying_party",
         Dict.ofList [("organization_name", .str "Example"),
           ("homepage_uri", .str "https://rp.example/home")])]) },
     { iss := "https://rp.example", sub := "https://rp.example",
       metadata := some (Dict.ofList [("openid_relying_party",
         Dict.ofList [("organization_name", .str "Example")])]) }]

/-- What the two superiors state. -/
def statedTwice : Rule where
  metadata := Dict.ofList [("organization_name", .str "Example"),
    ("homepage_uri", .str "https://rp.example/home")]

/-- What both state prevails over what the leaf repeats, and what it leaves out. -/
theorem superior_prevails_iff_repeated :
    Prevails .insertion statedTwice (Dict.ofList [("organization_name", .str "Example")])
        "organization_name" (.str "Example") ∧
      Prevails .insertion statedTwice (Dict.ofList [("organization_name", .str "Example")])
        "homepage_uri" (.str "https://rp.example/home") := by
  have hgather : gatherPolicies .insertion twiceNamedChain.verifiedChain.dropLast
      "openid_relying_party" = .ok statedTwice := rfl
  have hiff := (superior_prevails_iff twiceNamedChain "openid_relying_party" statedTwice _ hgather
    rfl).2 _ (List.mem_cons_of_mem _ (List.mem_cons_self ..))
  constructor
  · refine (hiff "organization_name" (.str "Example") rfl).mpr fun w hw => ?_
    obtain rfl : Json.str "Example" = w := Option.some.inj hw
    rfl
  · refine (hiff "homepage_uri" (.str "https://rp.example/home") rfl).mpr fun w hw => ?_
    exact absurd (show (none : Option Json) = some w from hw) (by simp)

/-- The leaf takes another name than the trust anchor states for it. -/
theorem renamed_leaf_prevails :
    ¬ ∀ (trustChain : TrustChain String) (entityType : String) (rule : Rule) (own : Metadata),
      gatherPolicies .insertion trustChain.verifiedChain.dropLast entityType = .ok rule →
        leafMetadata entityType trustChain = some own →
        ∀ s ∈ trustChain.verifiedChain.dropLast, ∀ claim v,
          (ruleOf s entityType).metadata.lookup claim = some v →
            Prevails .insertion rule own claim v := by
  intro h
  have hname := h (renamedChain "Someone Else") "openid_relying_party" _ _ rfl rfl _
    (List.mem_cons_self ..) "organization_name" (.str "Example") rfl
  rcases hname with ⟨u, hu, hnorm⟩ | hrefused
  · have hother : (some (Json.str "Someone Else")) = some u := hu
    obtain rfl := Option.some.inj hother
    simp [Json.norm] at hnorm
  · exact not_mergeRefused _ _ hrefused

end Fedservice.Entity.Function
