/-
  Fedservice.Entity.Function.PolicyApplication

  What applying the policies to a verified chain leaves behind: the statements
  are as they were but for the metadata of the leaf, and the metadata of each
  type is what the combined policy of the superiors makes of what the leaf said.
-/

import Fedservice.Entity.Function.TrustChainPolicy

namespace Fedservice.Entity.Function

open Fedservice.Lib Fedservice.Py Fedservice.EntityStatement

variable {Key : Type} {ho : HashOrder}

/-! ## The outcome of a policy -/

/-- `metadata` is what the combined policy of the superiors makes of what the
    last statement says about itself. -/
def PolicyAdjusted (ho : HashOrder) (chain : List (Statement Key)) (entityType : String)
    (metadata : Metadata) : Prop :=
  ∃ own rule own', (chain.getLast?.bind (·.metadata)).bind (·.lookup entityType) = some own ∧
    gatherPolicies ho chain.dropLast entityType = .ok rule ∧
    applyPolicy ho rule own = .ok metadata own'

/-- There is only one outcome. -/
theorem PolicyAdjusted.unique {chain : List (Statement Key)} {entityType : String}
    {m m' : Metadata} (h : PolicyAdjusted ho chain entityType m)
    (h' : PolicyAdjusted ho chain entityType m') : m = m' := by
  obtain ⟨own, rule, left, hown, hrule, happly⟩ := h
  obtain ⟨own', rule', left', hown', hrule', happly'⟩ := h'
  rw [hown, Option.some.injEq] at hown'
  rw [hrule, Except.ok.injEq] at hrule'
  rw [← hown', ← hrule', happly, EStateM.Result.ok.injEq] at happly'
  exact happly'.1

/-! ## What stays as it is -/

/-- Two trust chains made from the same statements, up to the leaf's metadata. -/
structure SameEvidence (tc tc' : TrustChain Key) : Prop where
  anchor : tc'.anchor = tc.anchor
  chain : tc'.chain = tc.chain
  superiors : tc'.verifiedChain.dropLast = tc.verifiedChain.dropLast
  leaf : tc'.verifiedChain.getLast?.map (·.sub) = tc.verifiedChain.getLast?.map (·.sub)

theorem SameEvidence.refl (tc : TrustChain Key) : SameEvidence tc tc := ⟨rfl, rfl, rfl, rfl⟩

theorem sameEvidence_setLeafMetadata (entityType : String) (metadata : Metadata)
    (tc : TrustChain Key) : SameEvidence tc (setLeafMetadata entityType metadata tc) := by
  unfold setLeafMetadata
  cases hleaf : tc.verifiedChain.getLast? with
  | none => exact SameEvidence.refl tc
  | some leaf => exact ⟨rfl, rfl, by simp, by simp [hleaf]⟩

/-- The metadata of the other types is left alone. -/
theorem leafMetadata_setLeafMetadata_ne {entityType other : String} {metadata : Metadata}
    {tc : TrustChain Key} (h : other ≠ entityType) :
    leafMetadata other (setLeafMetadata entityType metadata tc) = leafMetadata other tc := by
  unfold setLeafMetadata
  cases hleaf : tc.verifiedChain.getLast? with
  | none => rfl
  | some leaf =>
      simp only [leafMetadata, hleaf, List.getLast?_concat, Option.bind_some]
      cases leaf.metadata with
      | none => rfl
      | some d => simp [AList.lookup_insert_ne h]

/-! ## One entity type -/

/-- All that `policyFor` can do: the leaf has no metadata of the type, or the
    combined policy was applied to what it has. -/
theorem policyFor_eq_ok {entityType : String} {tc tc' : TrustChain Key}
    (h : policyFor ho entityType tc = .ok () tc') :
    ∃ rule, gatherPolicies ho tc.verifiedChain.dropLast entityType = .ok rule ∧
      ((leafMetadata entityType tc = none ∧
          tc' = { tc with metadata := tc.metadata.set entityType none }) ∨
        ∃ own own' metadata, leafMetadata entityType tc = some own ∧
          applyPolicy ho rule own = .ok metadata own' ∧
          tc' = { setLeafMetadata entityType own'
              { tc with combinedPolicy := tc.combinedPolicy.insert entityType rule } with
            metadata := tc.metadata.set entityType (some metadata) }) := by
  unfold policyFor trustChainPolicy at h
  obtain ⟨metadata, tc₁, hpolicy, hmodify⟩ := bind_eq_ok.mp h
  rw [bind_of_ok (get_apply tc)] at hpolicy
  obtain ⟨rule, tc₂, hgather, hpolicy⟩ := bind_eq_ok.mp hpolicy
  obtain ⟨hrule, rfl⟩ := lift_eq_ok.mp hgather
  refine ⟨rule, hrule, ?_⟩
  -- the assignment to `trust_chain.metadata` comes last
  have htc' := (EStateM.Result.ok.inj hmodify).2.symm
  cases hown : leafMetadata entityType tc₂ with
  | none =>
      simp only [hown, pure_apply, EStateM.Result.ok.injEq] at hpolicy
      obtain ⟨rfl, rfl⟩ := hpolicy
      exact Or.inl ⟨rfl, htc'⟩
  | some own =>
      simp only [hown] at hpolicy
      rw [bind_of_ok (set_apply tc₂ _)] at hpolicy
      obtain ⟨m, tc₃, hzoom, hpolicy⟩ := bind_eq_ok.mp hpolicy
      obtain ⟨own', happ, rfl⟩ := zoom_eq_ok.mp hzoom
      simp only [pure_apply, EStateM.Result.ok.injEq] at hpolicy
      obtain ⟨rfl, rfl⟩ := hpolicy
      refine Or.inr ⟨own, own', m, rfl, happ, ?_⟩
      -- what happens to the leaf's own dictionary leaves that attribute alone
      have hmeta : (setLeafMetadata entityType own'
          { tc₂ with combinedPolicy := tc₂.combinedPolicy.insert entityType rule }).metadata =
            tc₂.metadata := by
        unfold setLeafMetadata
        split <;> rfl
      simp only [htc', hmeta]

/-- It gets through if the policies combine and can be applied. -/
theorem policyFor_of_adjusted {entityType : String} {tc : TrustChain Key} {rule : Rule}
    {own own' m : Metadata}
    (hrule : gatherPolicies ho tc.verifiedChain.dropLast entityType = .ok rule)
    (hown : leafMetadata entityType tc = some own) (happly : applyPolicy ho rule own = .ok m own') :
    ∃ tc', policyFor ho entityType tc = .ok () tc' := by
  have hzoom : ∀ tc₁ : TrustChain Key,
      zoom (fun _ => own) (setLeafMetadata entityType) (applyPolicy ho rule) tc₁ =
        .ok m (setLeafMetadata entityType own' tc₁) := by
    intro tc₁
    rw [zoom, happly]
  unfold policyFor trustChainPolicy
  rw [bind_assoc, bind_of_ok (get_apply tc), bind_assoc, hrule, bind_of_ok (lift_ok rule tc)]
  simp only [hown]
  rw [bind_assoc, bind_of_ok (set_apply tc _), bind_assoc, bind_of_ok (hzoom _)]
  exact ⟨_, rfl⟩

/-! ## All entity types of the leaf -/

/-- How far the policies have been applied to `tc₀`, with the types in `todo`
    still to come. -/
structure Adjusting (ho : HashOrder) (tc₀ : TrustChain Key) (todo : List String)
    (tc : TrustChain Key) : Prop where
  evidence : SameEvidence tc₀ tc
  untouched : ∀ entityType ∈ todo, leafMetadata entityType tc = leafMetadata entityType tc₀
  adjusted : ∃ d, tc.metadata = .byType d ∧ ∀ entityType metadata,
    d.lookup entityType = some (some metadata) →
      PolicyAdjusted ho tc₀.verifiedChain entityType metadata

/-- Step: one entity type. -/
theorem Adjusting.policyFor {tc₀ tc tc' : TrustChain Key} {entityType : String}
    {rest : List String} (h : Adjusting ho tc₀ (entityType :: rest) tc)
    (hnot : entityType ∉ rest) (hstep : policyFor ho entityType tc = .ok () tc') :
    Adjusting ho tc₀ rest tc' := by
  obtain ⟨rule, hrule, hcases⟩ := policyFor_eq_ok hstep
  obtain ⟨d, hd, hall⟩ := h.adjusted
  rw [h.evidence.superiors] at hrule
  rcases hcases with ⟨-, rfl⟩ | ⟨own, own', metadata, hown, happ, rfl⟩
  · -- no metadata of this type: `None` is stored under it
    refine ⟨⟨h.evidence.anchor, h.evidence.chain, h.evidence.superiors, h.evidence.leaf⟩,
      fun other hother => h.untouched other (List.mem_cons_of_mem _ hother),
      d.insert entityType none, by rw [hd]; rfl, fun other m hm => ?_⟩
    rcases Dict.lookup_insert_eq_some.mp hm with ⟨-, hnone⟩ | ⟨-, hm⟩
    · exact absurd hnone (by simp)
    · exact hall other m hm
  · -- the leaf's dictionary of this type may have changed, those to come have not
    have hsame := sameEvidence_setLeafMetadata entityType own'
      { tc with combinedPolicy := tc.combinedPolicy.insert entityType rule }
    refine ⟨⟨hsame.anchor.trans h.evidence.anchor, hsame.chain.trans h.evidence.chain,
      hsame.superiors.trans h.evidence.superiors, hsame.leaf.trans h.evidence.leaf⟩,
      fun other hother => ?_, d.insert entityType (some metadata), by rw [hd]; rfl,
      fun other m hm => ?_⟩
    · have hne : other ≠ entityType := fun heq => hnot (heq ▸ hother)
      rw [← h.untouched other (List.mem_cons_of_mem _ hother)]
      exact leafMetadata_setLeafMetadata_ne hne
    · rcases Dict.lookup_insert_eq_some.mp hm with ⟨rfl, hmetadata⟩ | ⟨-, hm⟩
      · obtain rfl := Option.some.inj hmetadata
        rw [h.untouched other (List.mem_cons_self ..)] at hown
        exact ⟨own, rule, own', hown, hrule, happ⟩
      · exact hall other m hm

/-- Run: all of them. -/
theorem Adjusting.policyForAll {tc₀ tc tc' : TrustChain Key} {todo : List String}
    (h : Adjusting ho tc₀ todo tc) (hnodup : todo.Nodup)
    (hrun : policyForAll ho todo tc = .ok () tc') : Adjusting ho tc₀ [] tc' := by
  induction todo generalizing tc with
  | nil =>
      obtain rfl := (EStateM.Result.ok.inj hrun).2
      exact h
  | cons entityType rest ih =>
      obtain ⟨_, tc₁, hstep, hrest⟩ := bind_eq_ok.mp hrun
      obtain ⟨hnot, hnodup⟩ := List.nodup_cons.mp hnodup
      exact ih (h.policyFor hnot hstep) hnodup hrest

/-- The run gets through exactly if every type has an outcome. -/
theorem Adjusting.exists_policyForAll_iff {tc₀ tc : TrustChain Key} {todo : List String}
    (h : Adjusting ho tc₀ todo tc) (hnodup : todo.Nodup)
    (hown : ∀ entityType ∈ todo, ∃ own, leafMetadata entityType tc₀ = some own) :
    (∃ tc', Function.policyForAll ho todo tc = .ok () tc') ↔
      ∀ entityType ∈ todo, ∃ m, PolicyAdjusted ho tc₀.verifiedChain entityType m := by
  induction todo generalizing tc with
  | nil => exact ⟨fun _ entityType h => absurd h List.not_mem_nil, fun _ => ⟨tc, rfl⟩⟩
  | cons entityType rest ih =>
      obtain ⟨hnot, hnodup⟩ := List.nodup_cons.mp hnodup
      obtain ⟨⟨own, hleaf⟩, hrest⟩ := List.forall_mem_cons.mp hown
      have hkept := h.untouched entityType (List.mem_cons_self ..)
      rw [hleaf] at hkept
      rw [List.forall_mem_cons]
      constructor
      · rintro ⟨tc', hrun⟩
        obtain ⟨_, tc₁, hstep, hlast⟩ := bind_eq_ok.mp hrun
        refine ⟨?_, (ih (h.policyFor hnot hstep) hnodup hrest).mp ⟨tc', hlast⟩⟩
        obtain ⟨rule, hrule, hcases⟩ := policyFor_eq_ok hstep
        rw [h.evidence.superiors] at hrule
        rcases hcases with ⟨hnone, -⟩ | ⟨own₁, own', m, hown₁, happly, -⟩
        · rw [hkept] at hnone
          exact absurd hnone (by simp)
        · rw [hkept, Option.some.injEq] at hown₁
          exact ⟨m, own, rule, own', hleaf, hrule, hown₁ ▸ happly⟩
      · rintro ⟨⟨m, own₁, rule, own', hown₁, hrule, happly⟩, hall⟩
        obtain rfl : own = own₁ := Option.some.inj (hleaf.symm.trans hown₁)
        rw [← h.evidence.superiors] at hrule
        obtain ⟨tc₁, hstep⟩ := policyFor_of_adjusted hrule hkept happly
        obtain ⟨tc', hlast⟩ := (ih (h.policyFor hnot hstep) hnodup hrest).mpr hall
        refine ⟨tc', ?_⟩
        rw [Function.policyForAll, bind_of_ok hstep]
        exact hlast

/-- Each type that is gone through gets an entry, and no other. -/
theorem Adjusting.entries {tc₀ tc tc' : TrustChain Key} {todo : List String}
    (h : Adjusting ho tc₀ todo tc) (hnodup : todo.Nodup)
    (hown : ∀ entityType ∈ todo, ∃ own, leafMetadata entityType tc₀ = some own)
    (hrun : Function.policyForAll ho todo tc = .ok () tc') {d : Dict (Option Metadata)}
    (hd : tc.metadata = .byType d) :
    ∃ d', tc'.metadata = .byType d' ∧ ∀ entityType,
      (entityType ∈ todo → ∃ m, d'.lookup entityType = some (some m)) ∧
      (entityType ∉ todo → d'.lookup entityType = d.lookup entityType) := by
  induction todo generalizing tc d with
  | nil =>
      obtain rfl := (EStateM.Result.ok.inj hrun).2
      exact ⟨d, hd, fun entityType => ⟨fun h => absurd h List.not_mem_nil, fun _ => rfl⟩⟩
  | cons entityType rest ih =>
      obtain ⟨_, tc₁, hstep, hlast⟩ := bind_eq_ok.mp hrun
      obtain ⟨hnot, hnodup⟩ := List.nodup_cons.mp hnodup
      obtain ⟨⟨own, hleaf⟩, hrest⟩ := List.forall_mem_cons.mp hown
      have hkept := h.untouched entityType (List.mem_cons_self ..)
      rw [hleaf] at hkept
      have hd₁ : ∃ m, tc₁.metadata = .byType (d.insert entityType (some m)) := by
        obtain ⟨rule, -, hcases⟩ := policyFor_eq_ok hstep
        rcases hcases with ⟨hnone, -⟩ | ⟨_, own', m, -, -, rfl⟩
        · rw [hkept] at hnone
          exact absurd hnone (by simp)
        · exact ⟨m, by rw [hd]; rfl⟩
      obtain ⟨m, hm⟩ := hd₁
      obtain ⟨d', hd', hall⟩ := ih (h.policyFor hnot hstep) hnodup hrest hlast hm
      refine ⟨d', hd', fun other => ⟨fun hmem => ?_, fun hmem => ?_⟩⟩
      · rcases List.mem_cons.mp hmem with rfl | hmem
        · exact ⟨m, by rw [(hall other).2 hnot, AList.lookup_insert]⟩
        · exact (hall other).1 hmem
      · obtain ⟨hne, hother⟩ := not_or.mp (fun h => hmem (List.mem_cons.mpr h))
        rw [(hall other).2 hother, AList.lookup_insert_ne hne]

/-! ## The whole chain -/

/-- What applying the policies to a trust chain of the verifier gives. -/
structure Processed (ho : HashOrder) (tc₀ tc : TrustChain Key) : Prop where
  evidence : SameEvidence tc₀ tc
  adjusted : 1 < tc₀.verifiedChain.length → ∀ entityType metadata,
    tc.metadata.item entityType = .ok (some metadata) →
      PolicyAdjusted ho tc₀.verifiedChain entityType metadata

theorem processed_of_call {tc₀ tc : TrustChain Key} (hfresh : tc₀.metadata = .byType ∅)
    (h : TrustChainPolicy.call ho "" tc₀ = .ok () tc) : Processed ho tc₀ tc := by
  unfold TrustChainPolicy.call at h
  rw [bind_of_ok (get_apply tc₀)] at h
  by_cases hlen : tc₀.verifiedChain.length > 1
  · rw [if_pos hlen, if_neg (by simp)] at h
    cases hmeta : tc₀.verifiedChain.getLast?.bind (·.metadata) with
    | none => simp [hmeta] at h
    | some metadata =>
        simp only [hmeta] at h
        have hstart : Adjusting ho tc₀ metadata.keys tc₀ :=
          ⟨SameEvidence.refl tc₀, fun _ _ => rfl, ∅, hfresh, fun entityType m hm => by simp at hm⟩
        obtain ⟨hsame, -, d, hd, hall⟩ := hstart.policyForAll metadata.keys_nodup h
        refine ⟨hsame, fun _ entityType m hm => hall entityType m ?_⟩
        rw [hd] at hm
        exact item_eq_ok.mp hm
  · -- a chain of one statement: no policy, the statements stay as they are
    rw [if_neg hlen] at h
    refine ⟨?_, fun hgt => absurd hgt hlen⟩
    cases hves : tc₀.verifiedChain with
    | nil => simp [hves] at h
    | cons es rest =>
        simp only [hves] at h
        cases hmeta : es.metadata with
        | none => simp [hmeta] at h
        | some metadata =>
            simp only [hmeta] at h
            obtain ⟨m, tc₁, hitem, h⟩ := bind_eq_ok.mp h
            obtain ⟨-, rfl⟩ := lift_eq_ok.mp hitem
            obtain rfl := (EStateM.Result.ok.inj h).2
            exact ⟨rfl, rfl, by rw [hves], by rw [hves]⟩

/-- A leaf below others has metadata if the policies get through. -/
theorem exists_metadata_of_call {tc₀ tc : TrustChain Key} (hlen : 1 < tc₀.verifiedChain.length)
    (h : TrustChainPolicy.call ho "" tc₀ = .ok () tc) :
    ∃ own, tc₀.verifiedChain.getLast?.bind (·.metadata) = some own := by
  unfold TrustChainPolicy.call at h
  rw [bind_of_ok (get_apply tc₀), if_pos hlen, if_neg (by simp)] at h
  cases hmeta : tc₀.verifiedChain.getLast?.bind (·.metadata) with
  | none => exact absurd h (by simp [hmeta])
  | some own => exact ⟨own, rfl⟩

/-- The types of the leaf of a fresh trust chain with superiors: the policies go through
    exactly if each has an outcome, and then the metadata have an entry for each. -/
theorem call_eq_ok_iff {tc₀ : TrustChain Key} (hfresh : tc₀.metadata = .byType ∅)
    (hlen : 1 < tc₀.verifiedChain.length) {own : Dict Metadata}
    (hown : tc₀.verifiedChain.getLast?.bind (·.metadata) = some own) :
    ((∃ tc, TrustChainPolicy.call ho "" tc₀ = .ok () tc) ↔
        ∀ entityType ∈ own, ∃ m, PolicyAdjusted ho tc₀.verifiedChain entityType m) ∧
      ∀ tc, TrustChainPolicy.call ho "" tc₀ = .ok () tc →
        ∃ d, tc.metadata = .byType d ∧ ∀ entityType,
          (entityType ∈ own → ∃ m, d.lookup entityType = some (some m) ∧
            PolicyAdjusted ho tc₀.verifiedChain entityType m) ∧
          (entityType ∉ own → d.lookup entityType = none) := by
  have hcall : TrustChainPolicy.call ho "" tc₀ = policyForAll ho own.keys tc₀ := by
    unfold TrustChainPolicy.call
    rw [bind_of_ok (get_apply tc₀), if_pos hlen, if_neg (by simp)]
    simp only [hown]
  have hstart : Adjusting ho tc₀ own.keys tc₀ :=
    ⟨SameEvidence.refl tc₀, fun _ _ => rfl, ∅, hfresh, fun entityType m hm => by simp at hm⟩
  have hleaf : ∀ entityType ∈ own.keys, ∃ m, leafMetadata entityType tc₀ = some m := by
    intro entityType hmem
    obtain ⟨m, hm⟩ := Dict.mem_iff_lookup.mp (AList.mem_keys.mpr hmem)
    exact ⟨m, by rw [leafMetadata, hown, Option.bind_some, hm]⟩
  refine ⟨?_, fun tc h => ?_⟩
  · rw [hcall]
    exact hstart.exists_policyForAll_iff own.keys_nodup hleaf
  · have hprocessed := processed_of_call hfresh h
    rw [hcall] at h
    obtain ⟨d, hd, hall⟩ := hstart.entries own.keys_nodup hleaf h hfresh
    refine ⟨d, hd, fun entityType => ⟨fun hmem => ?_, fun hmem => ?_⟩⟩
    · obtain ⟨m, hm⟩ := (hall entityType).1 (AList.mem_keys.mp hmem)
      refine ⟨m, hm, hprocessed.adjusted hlen entityType m ?_⟩
      rw [hd]
      exact item_eq_ok.mpr hm
    · rw [(hall entityType).2 (fun h => hmem (AList.mem_keys.mpr h)), AList.lookup_empty]

/-- The metadata that the policies leave in a fresh trust chain with superiors are their
    outcome. -/
theorem item_iff_policyAdjusted {tc₀ tc : TrustChain Key} (hfresh : tc₀.metadata = .byType ∅)
    (hlen : 1 < tc₀.verifiedChain.length) (h : TrustChainPolicy.call ho "" tc₀ = .ok () tc)
    {entityType : String} {metadata : Metadata} :
    tc.metadata.item entityType = .ok (some metadata) ↔
      PolicyAdjusted ho tc₀.verifiedChain entityType metadata := by
  refine ⟨(processed_of_call hfresh h).adjusted hlen entityType metadata, fun hadjusted => ?_⟩
  obtain ⟨own, hown⟩ := exists_metadata_of_call hlen h
  obtain ⟨d, hd, hall⟩ := (call_eq_ok_iff hfresh hlen hown).2 tc h
  have hmem : entityType ∈ own := by
    obtain ⟨published, rule, left, hpublished, -⟩ := hadjusted
    rw [hown, Option.bind_some] at hpublished
    exact Dict.mem_iff_lookup.mpr ⟨published, hpublished⟩
  obtain ⟨m, hm, hadjusted'⟩ := (hall entityType).1 hmem
  rw [hd, hadjusted.unique hadjusted']
  exact item_eq_ok.mpr hm

/-- What the policies keep: they write the metadata of the chain, the combined policies
    and the metadata of the leaf. -/
structure PolicyInvariant (Inv : TrustChain Key → Prop) : Prop where
  metadata : ∀ tc metadata, Inv tc → Inv { tc with metadata := metadata }
  combinedPolicy : ∀ tc policies, Inv tc → Inv { tc with combinedPolicy := policies }
  leaf : ∀ tc entityType metadata, Inv tc → Inv (setLeafMetadata entityType metadata tc)

variable {Inv : TrustChain Key → Prop}

theorem PolicyInvariant.policyFor (h : PolicyInvariant Inv) (entityType : String) :
    Ensures Inv (policyFor ho entityType) (fun _ => True) := by
  have hpolicy : Ensures Inv (trustChainPolicy ho entityType) (fun _ => True) := by
    refine ensures_get.bind fun tc htc => ?_
    refine (ensures_lift fun _ _ => trivial).bind fun combinedPolicy (_ : True) => ?_
    cases leafMetadata entityType tc with
    | none => exact ensures_pure trivial
    | some metadata =>
        refine Ensures.bind (ensures_set ?_) fun _ (_ : True) => ?_
        · exact h.combinedPolicy tc _ htc
        · exact (ensures_zoom (fun m tc' => h.leaf tc' entityType m) _).bind
            fun _ _ => ensures_pure trivial
  exact hpolicy.bind fun m _ => ensures_modify fun tc => h.metadata tc _

theorem PolicyInvariant.policyForAll (h : PolicyInvariant Inv) (types : List String) :
    Ensures Inv (policyForAll ho types) (fun _ => True) := by
  induction types with
  | nil => exact ensures_pure trivial
  | cons entityType rest ih => exact (h.policyFor entityType).bind fun _ _ => ih

theorem PolicyInvariant.call (h : PolicyInvariant Inv) (entityType : String) :
    Ensures Inv (TrustChainPolicy.call ho entityType) (fun _ => True) := by
  refine ensures_get.bind fun tc htc => ?_
  by_cases hlen : tc.verifiedChain.length > 1
  · rw [if_pos hlen]
    by_cases htype : entityType ≠ ""
    · rw [if_pos htype]
      exact h.policyFor entityType
    · rw [if_neg htype]
      cases tc.verifiedChain.getLast?.bind (·.metadata) with
      | none => exact ensures_throw _
      | some metadata => exact h.policyForAll metadata.keys
  · rw [if_neg hlen]
    cases hves : tc.verifiedChain with
    | nil => exact ensures_throw _
    | cons es rest =>
        cases hmeta : es.metadata with
        | none =>
            simp only [hmeta]
            exact ensures_throw _
        | some metadata =>
            simp only [hmeta]
            refine Ensures.bind (ensures_lift fun _ _ => trivial) fun m (_ : True) => ?_
            rw [← hves]
            exact ensures_set (h.combinedPolicy _ _ (h.metadata tc (.plain m) htc))

/-- It holds of what they return if it held before. -/
theorem PolicyInvariant.of_call (h : PolicyInvariant Inv) {tc₀ tc : TrustChain Key}
    {entityType : String} (htc : Inv tc₀)
    (hcall : TrustChainPolicy.call ho entityType tc₀ = .ok () tc) :
    Inv tc :=
  (h.call entityType).of_ok htc hcall

/-- The issuers of the chain are no policy's business. -/
theorem issPath_of_call {tc₀ tc : TrustChain Key} {entityType : String}
    (h : TrustChainPolicy.call ho entityType tc₀ = .ok () tc) : tc.issPath = tc₀.issPath := by
  have hinv : PolicyInvariant (fun tc : TrustChain Key => tc.issPath = tc₀.issPath) := by
    refine ⟨fun _ _ htc => htc, fun _ _ htc => htc, fun tc entityType metadata htc => ?_⟩
    unfold setLeafMetadata
    split
    · exact htc
    · exact htc
  exact hinv.of_call rfl h

/-- And so are the tokens that it was made from. -/
theorem chain_of_call {tc₀ tc : TrustChain Key} {entityType : String}
    (h : TrustChainPolicy.call ho entityType tc₀ = .ok () tc) : tc.chain = tc₀.chain := by
  have hinv : PolicyInvariant (fun tc : TrustChain Key => tc.chain = tc₀.chain) := by
    refine ⟨fun _ _ htc => htc, fun _ _ htc => htc, fun tc entityType metadata htc => ?_⟩
    unfold setLeafMetadata
    split
    · exact htc
    · exact htc
  exact hinv.of_call rfl h

/-- `apply_policies` processes each of the chains. -/
theorem call_of_mem_applyPolicies {tcs tcs' : List (TrustChain Key)}
    (h : applyPolicies ho tcs = .ok tcs') :
    ∀ tc ∈ tcs', ∃ tc₀ ∈ tcs, TrustChainPolicy.call ho "" tc₀ = .ok () tc := by
  induction tcs generalizing tcs' with
  | nil =>
      obtain rfl := Except.ok.inj h
      exact fun tc htc => absurd htc List.not_mem_nil
  | cons tc₀ rest ih =>
      rw [applyPolicies] at h
      cases hcall : TrustChainPolicy.call ho "" tc₀ with
      | error e s => simp [hcall] at h
      | ok u processed =>
          simp only [hcall] at h
          obtain ⟨rest', hrest, h⟩ := except_bind_eq_ok.mp h
          obtain rfl := except_pure_eq_ok.mp h
          intro tc htc
          rcases List.mem_cons.mp htc with rfl | htc
          · exact ⟨tc₀, List.mem_cons_self .., hcall⟩
          · obtain ⟨tc₁, htc₁, hcall₁⟩ := ih hrest tc htc
            exact ⟨tc₁, List.mem_cons_of_mem _ htc₁, hcall₁⟩

end Fedservice.Entity.Function
