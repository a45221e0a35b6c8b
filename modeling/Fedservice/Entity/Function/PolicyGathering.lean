/-
  Fedservice.Entity.Function.PolicyGathering

  From one combination of claim policies to the policies of a whole chain.
  Relations that every combination establishes towards both of its sides
  (`UpperBound`) carry over to what `gather_policies` returns and the policy of
  every statement; `LoopMeets` says of what kind the combinations on the way are.

  What a combination of two policies keeps of either (`KeptBySides`), and what
  every chain keeps of each of its statements (`KeptAlong`).  A chain of
  combinations that keep all checks keeps all of them.
-/

import Fedservice.Entity.Function.PolicyRestriction
import Fedservice.Entity.Function.TrustChainPolicy

namespace Fedservice.Entity.Function

open Fedservice.Lib Fedservice.Py Fedservice.EntityStatement

variable {Key : Type} {ho : HashOrder} {superior child policy : ClaimPolicy} {slot : Option Json}

/-! ## The rules of a chain -/

/-- The policy a statement has for a claim of an entity type. -/
def claimPolicyOf (s : Statement Key) (entityType claim : String) : Option ClaimPolicy :=
  (ruleOf s entityType).metadataPolicy.lookup claim

/-- The claim policies of a combined rule. -/
theorem combine_claimPolicy {superior subordinate rule : Rule} (claim : String)
    (h : combine ho superior subordinate = .ok rule) :
    (∀ p q, superior.metadataPolicy.lookup claim = some p →
        subordinate.metadataPolicy.lookup claim = some q →
        ∃ r, combineClaimPolicy ho p q = .ok r ∧ rule.metadataPolicy.lookup claim = some r) ∧
      (subordinate.metadataPolicy.lookup claim = none →
        rule.metadataPolicy.lookup claim = superior.metadataPolicy.lookup claim) ∧
      (superior.metadataPolicy.lookup claim = none →
        rule.metadataPolicy.lookup claim = subordinate.metadataPolicy.lookup claim) := by
  obtain ⟨metadata, -, h⟩ := except_bind_eq_ok.mp h
  have hkeep : (if metadata.isEmpty then superior
      else { superior with metadata := metadata }).metadataPolicy = superior.metadataPolicy := by
    split <;> rfl
  by_cases hempty : subordinate.metadataPolicy.isEmpty = true
  · simp only [if_pos hempty] at h
    obtain rfl := except_pure_eq_ok.mp h
    have hnone := Dict.lookup_of_isEmpty hempty claim
    rw [hkeep, hnone]
    exact ⟨fun p q _ hq => absurd hq (by simp), fun _ => rfl, fun h => h⟩
  · -- the claims in both, then those of the superior only, then of the subordinate only
    simp only [if_neg hempty, hkeep] at h
    obtain ⟨both, hboth, h⟩ := except_bind_eq_ok.mp h
    obtain ⟨supers, hsupers, h⟩ := except_bind_eq_ok.mp h
    obtain ⟨all, hall, h⟩ := except_bind_eq_ok.mp h
    obtain rfl := except_pure_eq_ok.mp h
    obtain ⟨hboth, hbothFrame⟩ := Dict.insertEach_eq_ok Function.injective_id hboth
    obtain ⟨hsupers, hsupersFrame⟩ := Dict.insertEach_eq_ok Function.injective_id hsupers
    obtain ⟨hall, hallFrame⟩ := Dict.insertEach_eq_ok Function.injective_id hall
    simp only [HashOrder.mem_arrange, List.mem_filter, decide_eq_true_eq, id_eq, ← AList.mem_keys]
      at hboth hbothFrame hsupers hsupersFrame hall hallFrame
    have hin : ∀ {d : MetadataPolicy} {p}, d.lookup claim = some p → claim ∈ d :=
      fun hp => Dict.mem_iff_lookup.mpr ⟨_, hp⟩
    have hnotin : ∀ {d : MetadataPolicy}, d.lookup claim = none → claim ∉ d :=
      fun hn => AList.lookup_eq_none.mp hn
    refine ⟨fun p q hp hq => ?_, fun hq => ?_, fun hp => ?_⟩
    · obtain ⟨r, hr, hlook⟩ := hboth claim ⟨hin hp, hin hq⟩
      obtain ⟨p', hp', hr⟩ := except_bind_eq_ok.mp hr
      obtain ⟨q', hq', hr⟩ := except_bind_eq_ok.mp hr
      obtain rfl : p' = p := Option.some.inj ((item_eq_ok.mp hp').symm.trans hp)
      obtain rfl : q' = q := Option.some.inj ((item_eq_ok.mp hq').symm.trans hq)
      refine ⟨r, hr, ?_⟩
      rw [hallFrame claim (fun c hc hcc => hc.2 (hcc ▸ hin hp)),
        hsupersFrame claim (fun c hc hcc => hc.2 (hcc ▸ hin hq)), hlook]
    · rw [hallFrame claim (fun c hc hcc => hnotin hq (hcc ▸ hc.1))]
      cases hp : superior.metadataPolicy.lookup claim with
      | some p =>
          obtain ⟨p', hp', hlook⟩ := hsupers claim ⟨hin hp, hnotin hq⟩
          rw [hlook, ← hp, item_eq_ok.mp hp']
      | none =>
          rw [hsupersFrame claim (fun c hc hcc => hnotin hp (hcc ▸ hc.1)),
            hbothFrame claim (fun c hc hcc => hnotin hp (hcc ▸ hc.1)), AList.lookup_empty]
    · cases hq : subordinate.metadataPolicy.lookup claim with
      | some q =>
          obtain ⟨q', hq', hlook⟩ := hall claim ⟨hin hq, hnotin hp⟩
          rw [hlook, ← hq, item_eq_ok.mp hq']
      | none =>
          rw [hallFrame claim (fun c hc hcc => hnotin hq (hcc ▸ hc.1)),
            hsupersFrame claim (fun c hc hcc => hnotin hp (hcc ▸ hc.1)),
            hbothFrame claim (fun c hc hcc => hnotin hp (hcc ▸ hc.1)), AList.lookup_empty]

/-- One statement of the loop, and the rest of it. -/
theorem gatherLoop_cons {entityType : String} {rule : Rule} {es : Statement Key}
    {rest : List (Statement Key)} :
    gatherLoop ho entityType rule (es :: rest) =
      (gatherLoop ho entityType rule [es]).bind (fun mid => gatherLoop ho entityType mid rest) := by
  simp only [gatherLoop]
  by_cases hempty : ((ruleOf es entityType).metadataPolicy.isEmpty &&
      (ruleOf es entityType).metadata.isEmpty) = true
  · simp only [if_pos hempty]
    rfl
  · simp only [if_neg hempty]
    by_cases hover : claimInBoth (ruleOf es entityType) = true
    · simp only [if_pos hover]
      rfl
    · simp only [if_neg hover]
      cases combine ho rule (ruleOf es entityType) <;> rfl

/-- What one statement does to the rule: nothing, if it says nothing about the
    entity type, or it is combined with it. -/
theorem gatherLoop_one {entityType : String} {rule mid : Rule} {es : Statement Key}
    (h : gatherLoop ho entityType rule [es] = .ok mid) :
    (mid = rule ∧ (ruleOf es entityType).metadataPolicy.isEmpty = true) ∨
      combine ho rule (ruleOf es entityType) = .ok mid := by
  simp only [gatherLoop] at h
  by_cases hempty : ((ruleOf es entityType).metadataPolicy.isEmpty &&
      (ruleOf es entityType).metadata.isEmpty) = true
  · simp only [if_pos hempty] at h
    rw [Bool.and_eq_true] at hempty
    exact Or.inl ⟨(Except.ok.inj h).symm, hempty.1⟩
  · simp only [if_neg hempty] at h
    by_cases hover : claimInBoth (ruleOf es entityType) = true
    · simp [if_pos hover] at h
    · rw [if_neg hover] at h
      obtain ⟨mid', hmid, h⟩ := except_bind_eq_ok.mp h
      obtain rfl := Except.ok.inj h
      exact Or.inr hmid

/-- The claim policies after one statement. -/
theorem gatherLoop_one_claimPolicy {entityType : String} {rule mid : Rule} {es : Statement Key}
    (claim : String) (h : gatherLoop ho entityType rule [es] = .ok mid) :
    (∀ p q, rule.metadataPolicy.lookup claim = some p →
        claimPolicyOf es entityType claim = some q →
        ∃ r, combineClaimPolicy ho p q = .ok r ∧ mid.metadataPolicy.lookup claim = some r) ∧
      (claimPolicyOf es entityType claim = none →
        mid.metadataPolicy.lookup claim = rule.metadataPolicy.lookup claim) ∧
      (rule.metadataPolicy.lookup claim = none →
        mid.metadataPolicy.lookup claim = claimPolicyOf es entityType claim) := by
  rcases gatherLoop_one h with ⟨rfl, hempty⟩ | hcombine
  · have hnone : claimPolicyOf es entityType claim = none := Dict.lookup_of_isEmpty hempty claim
    rw [hnone]
    exact ⟨fun p q _ hq => absurd hq (by simp), fun _ => rfl, fun h => h⟩
  · exact combine_claimPolicy claim hcombine

/-! ## Upper bounds -/

/-- A relation that combinations of policies that meet `Step` establish towards
    both of their sides, on policies that meet the invariant `Ok`. -/
structure UpperBound (ho : HashOrder) (Ok : ClaimPolicy → Prop)
    (Step R : ClaimPolicy → ClaimPolicy → Prop) : Prop where
  refl : ∀ P, R P P
  trans : ∀ {P Q S}, R P Q → R Q S → R P S
  combine : ∀ {superior child policy}, Ok superior → Ok child → Step superior child →
    combineClaimPolicy ho superior child = .ok policy →
    Ok policy ∧ R policy superior ∧ R policy child

/-- Whenever the loop combines policies for the claim, the two meet `Step`. -/
def LoopMeets (ho : HashOrder) (Step : ClaimPolicy → ClaimPolicy → Prop)
    (entityType claim : String) : Rule → List (Statement Key) → Prop
  | _, [] => True
  | rule, es :: rest =>
      (∀ p q, rule.metadataPolicy.lookup claim = some p →
        claimPolicyOf es entityType claim = some q → Step p q) ∧
      ∀ mid, gatherLoop ho entityType rule [es] = .ok mid →
        LoopMeets ho Step entityType claim mid rest

/-- The same of `gather_policies`. -/
def ChainMeets (ho : HashOrder) (Step : ClaimPolicy → ClaimPolicy → Prop)
    (entityType claim : String) : List (Statement Key) → Prop
  | [] => True
  | es :: rest => LoopMeets ho Step entityType claim (ruleOf es entityType) rest

theorem loopMeets_of_forall {Step : ClaimPolicy → ClaimPolicy → Prop} (h : ∀ p q, Step p q)
    {entityType claim : String} {rest : List (Statement Key)} {rule : Rule} :
    LoopMeets ho Step entityType claim rule rest := by
  induction rest generalizing rule with
  | nil => trivial
  | cons es rest ih => exact ⟨fun p q _ _ => h p q, fun mid _ => ih⟩

theorem chainMeets_of_forall {Step : ClaimPolicy → ClaimPolicy → Prop} (h : ∀ p q, Step p q)
    {entityType claim : String} {chain : List (Statement Key)} :
    ChainMeets ho Step entityType claim chain := by
  cases chain with
  | nil => trivial
  | cons es rest => exact loopMeets_of_forall h

variable {Ok : ClaimPolicy → Prop} {Step R : ClaimPolicy → ClaimPolicy → Prop}

/-- Step: one statement. -/
theorem UpperBound.gatherLoop_one (hR : UpperBound ho Ok Step R) {entityType claim : String}
    {rule mid : Rule} {es : Statement Key}
    (h : gatherLoop ho entityType rule [es] = .ok mid)
    (hstep : ∀ p q, rule.metadataPolicy.lookup claim = some p →
      claimPolicyOf es entityType claim = some q → Step p q)
    (hrule : ∀ p, rule.metadataPolicy.lookup claim = some p → Ok p)
    (hes : ∀ q, claimPolicyOf es entityType claim = some q → Ok q) :
    (∀ r, mid.metadataPolicy.lookup claim = some r → Ok r) ∧
      (∀ p, rule.metadataPolicy.lookup claim = some p →
        ∃ r, mid.metadataPolicy.lookup claim = some r ∧ R r p) ∧
      ∀ q, claimPolicyOf es entityType claim = some q →
        ∃ r, mid.metadataPolicy.lookup claim = some r ∧ R r q := by
  obtain ⟨hboth, hkeep, hnew⟩ := gatherLoop_one_claimPolicy claim h
  cases hp : rule.metadataPolicy.lookup claim with
  | none =>
      rw [hnew hp]
      exact ⟨hes, fun p h => absurd h (by simp), fun q hq => ⟨q, hq, hR.refl q⟩⟩
  | some p =>
      cases hq : claimPolicyOf es entityType claim with
      | none =>
          rw [hkeep hq, ← hp]
          exact ⟨hrule, fun p hp => ⟨p, hp, hR.refl p⟩, fun q h => absurd h (by simp)⟩
      | some q =>
          obtain ⟨r, hr, hlook⟩ := hboth p q hp hq
          obtain ⟨hok, hrp, hrq⟩ := hR.combine (hrule p hp) (hes q hq) (hstep p q hp hq) hr
          rw [hlook]
          refine ⟨fun r' hr' => Option.some.inj hr' ▸ hok, fun p' hp' => ⟨r, rfl, ?_⟩,
            fun q' hq' => ⟨r, rfl, ?_⟩⟩
          · exact Option.some.inj hp' ▸ hrp
          · exact Option.some.inj hq' ▸ hrq

/-- Run: the loop of `gather_policies`. -/
theorem UpperBound.gatherLoop (hR : UpperBound ho Ok Step R) {entityType : String} (claim : String)
    {rest : List (Statement Key)} {rule final : Rule}
    (h : Function.gatherLoop ho entityType rule rest = .ok final)
    (hsteps : LoopMeets ho Step entityType claim rule rest)
    (hrule : ∀ p, rule.metadataPolicy.lookup claim = some p → Ok p)
    (hrest : ∀ s ∈ rest, ∀ q, claimPolicyOf s entityType claim = some q → Ok q) :
    (∀ r, final.metadataPolicy.lookup claim = some r → Ok r) ∧
      (∀ p, rule.metadataPolicy.lookup claim = some p →
        ∃ r, final.metadataPolicy.lookup claim = some r ∧ R r p) ∧
      ∀ s ∈ rest, ∀ q, claimPolicyOf s entityType claim = some q →
        ∃ r, final.metadataPolicy.lookup claim = some r ∧ R r q := by
  -- on the statements to come: what bounds the rule as it is by then bounds, through
  -- the one after the next statement, all that went into it
  induction rest generalizing rule with
  | nil =>
      obtain rfl := Except.ok.inj h
      exact ⟨hrule, fun p hp => ⟨p, hp, hR.refl p⟩, fun s hs => absurd hs List.not_mem_nil⟩
  | cons es rest ih =>
      rw [gatherLoop_cons] at h
      obtain ⟨mid, hmid, hlast⟩ := except_bind_eq_ok.mp h
      obtain ⟨hstep, hsteps⟩ := hsteps
      obtain ⟨hokMid, hruleMid, hesMid⟩ :=
        hR.gatherLoop_one hmid hstep hrule (hrest es (List.mem_cons_self ..))
      obtain ⟨hok, hmidFinal, hall⟩ := ih hlast (hsteps mid hmid) hokMid
        (fun s hs => hrest s (List.mem_cons_of_mem _ hs))
      have hlift : ∀ {p : ClaimPolicy}, (∃ r, mid.metadataPolicy.lookup claim = some r ∧ R r p) →
          ∃ r, final.metadataPolicy.lookup claim = some r ∧ R r p := by
        rintro p ⟨r, hr, hrp⟩
        obtain ⟨f, hf, hfr⟩ := hmidFinal r hr
        exact ⟨f, hf, hR.trans hfr hrp⟩
      refine ⟨hok, fun p hp => hlift (hruleMid p hp), fun s hs q hq => ?_⟩
      rcases List.mem_cons.mp hs with rfl | hs
      · exact hlift (hesMid q hq)
      · exact hall s hs q hq

/-- What is gathered is an upper bound of what each statement of the chain says. -/
theorem UpperBound.gatherPolicies (hR : UpperBound ho Ok Step R) {entityType : String}
    (claim : String) {chain : List (Statement Key)} {rule : Rule}
    (h : Function.gatherPolicies ho chain entityType = .ok rule)
    (hsteps : ChainMeets ho Step entityType claim chain)
    (hok : ∀ s ∈ chain, ∀ q, claimPolicyOf s entityType claim = some q → Ok q) :
    (∀ r, rule.metadataPolicy.lookup claim = some r → Ok r) ∧
      ∀ s ∈ chain, ∀ q, claimPolicyOf s entityType claim = some q →
        ∃ r, rule.metadataPolicy.lookup claim = some r ∧ R r q := by
  cases chain with
  | nil => exact absurd h (by simp [Function.gatherPolicies])
  | cons es rest =>
      obtain ⟨hfinal, hfirst, hall⟩ := hR.gatherLoop claim h hsteps
        (hok es (List.mem_cons_self ..)) (fun s hs => hok s (List.mem_cons_of_mem _ hs))
      refine ⟨hfinal, fun s hs q hq => ?_⟩
      rcases List.mem_cons.mp hs with rfl | hs
      · exact hfirst q hq
      · exact hall s hs q hq

/-! ## What every chain keeps -/

/-- `P` is at least as strict as `Q`: it sets a value where `Q` does, the same
    one, and without a value it lists no more than `Q`. -/
structure Restricts (P Q : ClaimPolicy) : Prop where
  value : ∀ slot, MeetsValue P slot → MeetsValue Q slot
  noValue : "value" ∉ P → "value" ∉ Q
  oneOf : "value" ∉ P → ∀ slot, Within .oneOf P slot → Within .oneOf Q slot
  subsetOf : "value" ∉ P → ∀ slot, Within .subsetOf P slot → Within .subsetOf Q slot

theorem Restricts.refl (P : ClaimPolicy) : Restricts P P :=
  ⟨fun _ h => h, fun h => h, fun _ _ h => h, fun _ _ h => h⟩

theorem Restricts.trans {P Q R : ClaimPolicy} (h₁ : Restricts P Q) (h₂ : Restricts Q R) :
    Restricts P R where
  value slot h := h₂.value slot (h₁.value slot h)
  noValue h := h₂.noValue (h₁.noValue h)
  oneOf hno slot h := h₂.oneOf (h₁.noValue hno) slot (h₁.oneOf hno slot h)
  subsetOf hno slot h := h₂.subsetOf (h₁.noValue hno) slot (h₁.subsetOf hno slot h)

theorem meetsValue_underValue
    (hunder : combineUnderValue superior child (knownOperators child) = .ok policy)
    (h : MeetsValue policy slot) : MeetsValue superior slot ∧ MeetsValue child slot := by
  have hnone : (∀ k : OperatorKind, k.name ∈ child → k = .essential) → MeetsValue child slot :=
    fun honly v hv => absurd (honly .value (Dict.mem_iff_lookup.mpr ⟨v, hv⟩)) (by decide)
  rcases combineUnderValue_eq_ok hunder with
    ⟨hno, rfl⟩ | ⟨honly, hvalue, -, -⟩ | ⟨-, ⟨v, w, hv, hw, heqv⟩, rfl⟩
  · exact ⟨h, hnone (fun k hk => absurd hk (hno k))⟩
  · exact ⟨fun u hu => h u (hvalue.trans hu), hnone (fun k hk => (honly k).mp hk)⟩
  · refine ⟨h, fun u hu => ?_⟩
    obtain rfl : w = u := Option.some.inj (hw.symm.trans hu)
    obtain ⟨x, hx, hnorm⟩ := h v hv
    exact ⟨x, hx, hnorm.trans (Json.eqv_iff.mp heqv).symm⟩

/-- A combined policy is an upper bound of its two sides. -/
theorem restricts_of_combined (hcomb : combineClaimPolicy ho superior child = .ok policy) :
    Restricts policy superior ∧ Restricts policy child := by
  rcases combineClaimPolicy_eq_ok hcomb with ⟨hsup, hunder⟩ | ⟨hsup, hmerged⟩
  · have hvalue := value_of_combineUnderValue hsup hunder
    exact ⟨⟨fun slot h => (meetsValue_underValue hunder h).1, fun hno => absurd hvalue hno,
        fun hno => absurd hvalue hno, fun hno => absurd hvalue hno⟩,
      ⟨fun slot h => (meetsValue_underValue hunder h).2, fun hno => absurd hvalue hno,
        fun hno => absurd hvalue hno, fun hno => absurd hvalue hno⟩⟩
  · have hops := hmerged.toMergedOperators
    have hvalue := value_of_merged hsup hops
    constructor
    · exact ⟨fun slot _ v hv => absurd (Dict.mem_iff_lookup.mpr ⟨v, hv⟩) hsup, fun _ => hsup,
        fun _ slot h => ((within_merged rfl hops).mp h).1,
        fun _ slot h => ((within_merged rfl hops).mp h).1⟩
    · exact ⟨fun slot h v hv => h v (hvalue.trans hv),
        fun hno hin => hno (hops.mem_iff (k := .value).mpr (Or.inr hin)),
        fun _ slot h => ((within_merged rfl hops).mp h).2,
        fun _ slot h => ((within_merged rfl hops).mp h).2⟩

theorem restricts_upperBound : UpperBound ho (fun _ => True) (fun _ _ => True) Restricts where
  refl := Restricts.refl
  trans := Restricts.trans
  combine _ _ _ h := ⟨trivial, restricts_of_combined h⟩

/-- `essential` is not given as something other than true or false. -/
def EssentialIsBoolean (policy : ClaimPolicy) : Prop :=
  ∀ p, policy.lookup "essential" = some p → ∃ b, p = .bool b

theorem essentialKept_of_boolean (h : EssentialIsBoolean superior) :
    EssentialKept superior child := by
  intro s c hs _ _ htruthy
  obtain ⟨b, rfl⟩ := h s hs
  obtain rfl : b = true := htruthy
  exact Json.eqv_refl _

theorem essentialIsBoolean_of_combined (hsup : EssentialIsBoolean superior)
    (hchild : EssentialIsBoolean child)
    (h : combineClaimPolicy ho superior child = .ok policy) : EssentialIsBoolean policy := by
  rcases combineClaimPolicy_eq_ok h with ⟨-, hunder⟩ | ⟨-, hmerged⟩
  · rcases combineUnderValue_eq_ok hunder with ⟨-, rfl⟩ | ⟨-, -, hess, -⟩ | ⟨-, -, rfl⟩
    · exact hsup
    · exact fun p hp => hchild p (hess.symm.trans hp)
    · exact hsup
  · intro p hp
    have hone := hmerged.toMergedOperators.lookup_of_one .essential
    cases hs : superior.lookup "essential" with
    | none => exact hchild p ((hone.2 hs).symm.trans hp)
    | some s =>
        cases hc : child.lookup "essential" with
        | none => exact hsup p ((hone.1 hc).symm.trans hp)
        | some c =>
            rw [essential_merged hmerged.toMergedOperators hs hc] at hp
            obtain rfl := Option.some.inj hp
            split
            · exact ⟨true, rfl⟩
            · exact hsup s hs

/-- What meets `value` and `essential` of a combined policy meets `essential` of
    both sides. -/
theorem essential_of_combined (hbool : EssentialIsBoolean superior)
    (hcomb : combineClaimPolicy ho superior child = .ok policy)
    (hvalue : MeetsValue policy slot) (hess : MeetsEssential policy slot) :
    MeetsEssential superior slot ∧ MeetsEssential child slot := by
  rcases combineClaimPolicy_eq_ok hcomb with ⟨hsup, hunder⟩ | ⟨-, hmerged⟩
  · have hpresent := isSome_of_meetsValue (value_of_combineUnderValue hsup hunder) hvalue
    exact ⟨fun _ _ _ => hpresent, fun _ _ _ => hpresent⟩
  · exact ⟨essential_superior_of_merged hmerged.toMergedOperators hess,
      essential_child_of_merged hmerged.toMergedOperators (essentialKept_of_boolean hbool) hess⟩

/-- A claim that `value` and `essential` require to be present stays required. -/
theorem essential_upperBound : UpperBound ho EssentialIsBoolean (fun _ _ => True)
    (fun P Q => ∀ slot, MeetsValue P slot → MeetsEssential P slot →
      MeetsValue Q slot ∧ MeetsEssential Q slot) where
  refl _ _ hv he := ⟨hv, he⟩
  trans h₁ h₂ slot hv he := h₂ slot (h₁ slot hv he).1 (h₁ slot hv he).2
  combine hsup hchild _ h := by
    obtain ⟨hrestricts, hrestricts'⟩ := restricts_of_combined h
    refine ⟨essentialIsBoolean_of_combined hsup hchild h, fun slot hv he => ?_,
      fun slot hv he => ?_⟩
    · exact ⟨hrestricts.value slot hv, (essential_of_combined hsup h hv he).1⟩
    · exact ⟨hrestricts'.value slot hv, (essential_of_combined hsup h hv he).2⟩

/-- A value that every `superset_of` asks for is asked for by their combination. -/
theorem supersetOf_upperBound (x : Json) : UpperBound ho
    (fun P => ∀ p, P.lookup "superset_of" = some p → p.Lists x) (fun _ _ => True)
    (fun P Q => "value" ∉ P → "value" ∉ Q ∧ ("superset_of" ∈ Q → "superset_of" ∈ P)) where
  refl _ hno := ⟨hno, fun h => h⟩
  trans h₁ h₂ hno := ⟨(h₂ (h₁ hno).1).1, fun h => (h₁ hno).2 ((h₂ (h₁ hno).1).2 h)⟩
  combine {superior child policy} hsup hchild _ h := by
    rcases combineClaimPolicy_eq_ok h with ⟨hvalue, hunder⟩ | ⟨hvalue, hmerged⟩
    · have hmem := value_of_combineUnderValue hvalue hunder
      refine ⟨?_, fun hno => absurd hmem hno, fun hno => absurd hmem hno⟩
      rcases combineUnderValue_eq_ok hunder with ⟨-, rfl⟩ | ⟨-, -, -, hnone⟩ | ⟨-, -, rfl⟩
      · exact hsup
      · intro p hp
        exact absurd ((hnone "superset_of" (by decide) (by decide)).symm.trans hp) (by simp)
      · exact hsup
    · have hops := hmerged.toMergedOperators
      refine ⟨fun p hp => (merged_lists (k := .supersetOf) rfl hops hp).mpr ⟨hsup, hchild⟩,
        fun hno => ⟨hvalue, fun hin => (hops.mem_iff (k := .supersetOf)).mpr (Or.inl hin)⟩,
        fun hno => ⟨fun hin => hno ((hops.mem_iff (k := .value)).mpr (Or.inr hin)),
          fun hin => (hops.mem_iff (k := .supersetOf)).mpr (Or.inr hin)⟩⟩

/-- The checks of one statement of a chain that the gathered policy for the
    claim keeps, whatever the policies on the way. -/
structure KeptAlong (chain : List (Statement Key)) (entityType claim : String)
    (side policy : ClaimPolicy) (slot : Option Json) : Prop where
  value : MeetsValue side slot
  essential : (∀ t ∈ chain, ∀ p, claimPolicyOf t entityType claim = some p →
    EssentialIsBoolean p) → MeetsEssential side slot
  oneOf : "value" ∉ policy → Within .oneOf side slot
  subsetOf : "value" ∉ policy → Within .subsetOf side slot
  supersetOf : "value" ∉ policy → "superset_of" ∈ side → ∀ v x, slot = some v →
    (∀ t ∈ chain, ∀ p q, claimPolicyOf t entityType claim = some p →
      p.lookup "superset_of" = some q → q.Lists x) → v.Holds x

/-- A claim that satisfies the gathered policy meets these checks of every
    statement. -/
theorem keptAlong_of_gathered {chain : List (Statement Key)} {entityType claim : String}
    {rule : Rule} {s : Statement Key} {side : ClaimPolicy}
    (h : gatherPolicies ho chain entityType = .ok rule) (hs : s ∈ chain)
    (hside : claimPolicyOf s entityType claim = some side) :
    ∃ policy, rule.metadataPolicy.lookup claim = some policy ∧
      ∀ slot, Satisfies policy slot → KeptAlong chain entityType claim side policy slot := by
  have hany : ChainMeets ho (fun _ _ => True) entityType claim chain :=
    chainMeets_of_forall (fun _ _ => trivial)
  obtain ⟨policy, hpolicy, hrestricts⟩ :=
    (restricts_upperBound.gatherPolicies claim h hany (fun _ _ _ _ => trivial)).2 s hs side hside
  refine ⟨policy, hpolicy, fun slot hslot => ?_⟩
  refine ⟨hrestricts.value slot hslot.value, fun hbool => ?_,
    fun hno => hrestricts.oneOf hno slot hslot.oneOf,
    fun hno => hrestricts.subsetOf hno slot hslot.subsetOf, fun hno hin v x hv hall => ?_⟩
  · obtain ⟨policy', hpolicy', hess⟩ :=
      (essential_upperBound.gatherPolicies claim h hany hbool).2 s hs side hside
    obtain rfl : policy = policy' := Option.some.inj (hpolicy.symm.trans hpolicy')
    exact (hess slot hslot.value hslot.essential).2
  · obtain ⟨hok, hbound⟩ := (supersetOf_upperBound x).gatherPolicies claim h hany
      (fun t ht p hp q hq => hall t ht p q hp hq)
    obtain ⟨policy', hpolicy', hsuper⟩ := hbound s hs side hside
    obtain rfl : policy = policy' := Option.some.inj (hpolicy.symm.trans hpolicy')
    obtain ⟨q, hq⟩ := Dict.mem_iff_lookup.mp ((hsuper hno).2 hin)
    exact hslot.supersetOf q v hq hv x (hok policy hpolicy q hq)

/-! ## Chains of combinations that only restrict -/

/-- Where the combinations keep all checks, so does their sequence. -/
theorem satisfies_upperBound : UpperBound ho (fun _ => True) KeepsChecks
    (fun P Q => ∀ slot, Satisfies P slot → Satisfies Q slot) where
  refl _ _ h := h
  trans h₁ h₂ slot h := h₂ slot (h₁ slot h)
  combine _ _ hkeeps h := by
    have honly := (onlyRestricts_iff h).mpr hkeeps
    exact ⟨trivial, fun slot hslot => (honly slot hslot).1, fun slot hslot => (honly slot hslot).2⟩

/-- The checks of two claim policies that a claim accepted by their combination
    meets: `superset_of` is asked for as far as both list it, and a superior's
    `value` stands for the lists next to it. -/
structure KeptBySides (superior child : ClaimPolicy) (slot : Option Json) : Prop where
  value : MeetsValue superior slot ∧ MeetsValue child slot
  essential : MeetsEssential superior slot
  childEssential : EssentialKept superior child → MeetsEssential child slot
  oneOf : "value" ∉ superior → Within .oneOf superior slot ∧ Within .oneOf child slot
  subsetOf : "value" ∉ superior → Within .subsetOf superior slot ∧ Within .subsetOf child slot
  supersetOf : "value" ∉ superior → "superset_of" ∈ superior ∨ "superset_of" ∈ child →
    ∀ v, slot = some v → ∀ x, ListedByBoth .supersetOf superior child x → v.Holds x

theorem keptBySides_of_combined (hcomb : combineClaimPolicy ho superior child = .ok policy)
    (hslot : Satisfies policy slot) : KeptBySides superior child slot := by
  obtain ⟨hsuperior, hchild⟩ := restricts_of_combined hcomb
  have hvalue := And.intro (hsuperior.value slot hslot.value) (hchild.value slot hslot.value)
  rcases combineClaimPolicy_eq_ok hcomb with ⟨hsup, -⟩ | ⟨hsup, hmerged⟩
  · have hpresent := isSome_of_meetsValue hsup hvalue.1
    exact ⟨hvalue, fun _ _ _ => hpresent, fun _ _ _ _ => hpresent, fun hno => absurd hsup hno,
      fun hno => absurd hsup hno, fun hno => absurd hsup hno⟩
  · have hops := hmerged.toMergedOperators
    refine ⟨hvalue, essential_superior_of_merged hops hslot.essential,
      fun hkept => essential_child_of_merged hops hkept hslot.essential,
      fun _ => (within_merged rfl hops).mp hslot.oneOf,
      fun _ => (within_merged rfl hops).mp hslot.subsetOf, ?_⟩
    rintro - hsome v rfl x hx
    exact (covers_merged hops).mp hslot.supersetOf hsome x hx

/-- What combinations keep, of two policies and along every chain.  All checks of
    both are kept exactly when the two keep each other's checks, and along a chain
    of such combinations the checks of every statement are. -/
theorem combination_keeps :
    (∀ superior child policy : ClaimPolicy, combineClaimPolicy ho superior child = .ok policy →
      (∀ slot, Satisfies policy slot → KeptBySides superior child slot) ∧
        (OnlyRestricts superior child policy ↔ KeepsChecks superior child)) ∧
      ∀ (chain : List (Statement Key)) (entityType claim : String) (rule : Rule),
        gatherPolicies ho chain entityType = .ok rule →
        ∀ s ∈ chain, ∀ side, claimPolicyOf s entityType claim = some side →
          ∃ policy, rule.metadataPolicy.lookup claim = some policy ∧
            ∀ slot, Satisfies policy slot →
              KeptAlong chain entityType claim side policy slot ∧
                (ChainMeets ho KeepsChecks entityType claim chain → Satisfies side slot) := by
  constructor
  · intro superior child policy hcomb
    exact ⟨fun slot hslot => keptBySides_of_combined hcomb hslot, onlyRestricts_iff hcomb⟩
  · intro chain entityType claim rule h s hs side hside
    obtain ⟨policy, hpolicy, hkept⟩ := keptAlong_of_gathered h hs hside
    refine ⟨policy, hpolicy, fun slot hslot => ⟨hkept slot hslot, fun hsteps => ?_⟩⟩
    obtain ⟨policy', hpolicy', hall⟩ :=
      (satisfies_upperBound.gatherPolicies claim h hsteps (fun _ _ _ _ => trivial)).2 s hs side
        hside
    obtain rfl : policy = policy' := Option.some.inj (hpolicy.symm.trans hpolicy')
    exact hall slot hslot

/-- A superior asks for three values, its subordinate for two of them; a claim
    with just these two is accepted by their combination. -/
theorem superset_of_loosened :
    ¬ ∀ superior child policy : ClaimPolicy,
      combineClaimPolicy .insertion superior child = .ok policy →
        OnlyRestricts superior child policy := by
  intro h
  have hsat : Satisfies (Dict.ofList [("superset_of", .arr [.str "X", .str "Y"])])
      (some (.arr [.str "X", .str "Y"])) := by
    refine ⟨fun v hv => ?_, fun p hp => ?_, fun p hp => ?_, fun p hp => ?_, fun p v hp hv x hx => ?_⟩
    · exact absurd (show (none : Option Json) = some v from hv) (by simp)
    · exact absurd (show (none : Option Json) = some p from hp) (by simp)
    · exact absurd (show (none : Option Json) = some p from hp) (by simp)
    · exact absurd (show (none : Option Json) = some p from hp) (by simp)
    · obtain rfl : Json.arr [.str "X", .str "Y"] = p := Option.some.inj hp
      obtain rfl := Option.some.inj hv
      exact Json.lists_arr.mp hx
  -- the intersection of the two lists is all that is left to ask for
  have hsup := (h (Dict.ofList [("superset_of", .arr [.str "X", .str "Y", .str "Z"])])
    (Dict.ofList [("superset_of", .arr [.str "X", .str "Y"])]) _ rfl _ hsat).1
  have hz : (Json.arr [.str "X", .str "Y"]).Holds (.str "Z") :=
    hsup.supersetOf (.arr [.str "X", .str "Y", .str "Z"]) _ rfl rfl (.str "Z")
      (by simp [Json.Holds, Json.held])
  simp [Json.Holds, Json.held, Json.norm] at hz

end Fedservice.Entity.Function
