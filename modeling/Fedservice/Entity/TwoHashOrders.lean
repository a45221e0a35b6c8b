/-
  Fedservice.Entity.TwoHashOrders

  Two processes of a federation entity, started with different hash seeds, that are
  asked the same questions.  The policies are the one place where sets are walked,
  so all that the seed can change is the order and the repetitions in the lists of
  metadata and of combined policies: every call raises in both processes or returns
  the same in both, up to such lists.
-/

import Fedservice.Entity.Function.PolicyHashOrder
import Fedservice.Entity.TrustChainExpiry

namespace Fedservice.Entity

open Fedservice.Lib Fedservice.Py Fedservice.EntityStatement Fedservice.Crypto
  Fedservice.Entity.Function

variable {Jar Key : Type} {ho ho' : HashOrder}

/-! ## Trust chains that are the same up to lists -/

/-- Statements that differ in their metadata at most, and there in lists. -/
structure SameStatement (s s' : Statement Key) : Prop where
  rest : s' = { s with metadata := s'.metadata }
  metadata : Option.Rel (fun d d' : Dict Metadata =>
    ∀ entityType, Option.Rel SameMetadata (d.lookup entityType) (d'.lookup entityType))
    s.metadata s'.metadata

/-- The metadata of two trust chains. -/
inductive SameChainMetadata : ChainMetadata → ChainMetadata → Prop
  | byType {d d' : Dict (Option Metadata)}
      (h : ∀ entityType, Option.Rel (Option.Rel SameMetadata) (d.lookup entityType)
        (d'.lookup entityType)) : SameChainMetadata (.byType d) (.byType d')
  | plain (metadata : Metadata) : SameChainMetadata (.plain metadata) (.plain metadata)

/-- Trust chains made of the same statements, with the same metadata and policies but for the
    order and the repetitions in lists. -/
structure SameTrustChain (tc tc' : TrustChain Key) : Prop where
  anchor : tc.anchor = tc'.anchor
  chain : tc.chain = tc'.chain
  exp : tc.exp = tc'.exp
  issPath : tc.issPath = tc'.issPath
  superiors : tc.verifiedChain.dropLast = tc'.verifiedChain.dropLast
  leaf : Option.Rel SameStatement tc.verifiedChain.getLast? tc'.verifiedChain.getLast?
  combinedPolicy : ∀ entityType, Option.Rel SameRule (tc.combinedPolicy.lookup entityType)
    (tc'.combinedPolicy.lookup entityType)
  metadata : SameChainMetadata tc.metadata tc'.metadata

theorem SameMetadata.refl (m : Metadata) : SameMetadata m m :=
  fun _ => Dict.rel_refl SameAsSets.refl _

theorem SameStatement.refl (s : Statement Key) : SameStatement s s :=
  ⟨rfl, Dict.rel_refl (fun _ _ => Dict.rel_refl SameMetadata.refl _) _⟩

theorem SameChainMetadata.refl (metadata : ChainMetadata) :
    SameChainMetadata metadata metadata := by
  cases metadata with
  | byType d => exact .byType fun _ => Dict.rel_refl (Dict.rel_refl SameMetadata.refl) _
  | plain m => exact .plain m

theorem SameTrustChain.refl (tc : TrustChain Key) : SameTrustChain tc tc :=
  ⟨rfl, rfl, rfl, rfl, rfl, Dict.rel_refl SameStatement.refl _,
    fun _ => Dict.rel_refl SameRule.refl _, SameChainMetadata.refl _⟩

theorem SameTrustChain.leafMetadata {tc tc' : TrustChain Key} (h : SameTrustChain tc tc')
    (entityType : String) :
    Option.Rel SameMetadata (leafMetadata entityType tc) (leafMetadata entityType tc') := by
  unfold Function.leafMetadata
  rcases Dict.rel_cases h.leaf with ⟨hs, hs'⟩ | ⟨s, s', hs, hs', hsame⟩
  · rw [hs, hs']
    exact .none
  · rw [hs, hs', Option.bind_some, Option.bind_some]
    rcases Dict.rel_cases hsame.metadata with ⟨hd, hd'⟩ | ⟨d, d', hd, hd', hdict⟩
    · rw [hd, hd']
      exact .none
    · rw [hd, hd']
      exact hdict entityType

theorem SameTrustChain.setLeafMetadata {tc tc' : TrustChain Key} (h : SameTrustChain tc tc')
    (entityType : String) {m m' : Metadata} (hm : SameMetadata m m') :
    SameTrustChain (setLeafMetadata entityType m tc) (setLeafMetadata entityType m' tc') := by
  unfold Function.setLeafMetadata
  rcases Dict.rel_cases h.leaf with ⟨hs, hs'⟩ | ⟨s, s', hs, hs', hsame⟩
  · rw [hs, hs']
    exact h
  · rw [hs, hs']
    refine { h with superiors := ?_, leaf := ?_ }
    · rw [List.dropLast_concat, List.dropLast_concat, h.superiors]
    · rw [List.getLast?_concat, List.getLast?_concat]
      refine .some ⟨by rw [hsame.rest], ?_⟩
      rcases Dict.rel_cases hsame.metadata with ⟨hd, hd'⟩ | ⟨d, d', hd, hd', hdict⟩
      · rw [hd, hd']
        exact .none
      · rw [hd, hd']
        exact .some (Dict.rel_lookup_insert hdict entityType hm)

/-! ## Policies on a trust chain -/

/-- The same up to lists, where the metadata are told apart by type. -/
structure SameByType (tc tc' : TrustChain Key) : Prop extends SameTrustChain tc tc' where
  byType : ∃ d, tc.metadata = .byType d

theorem tandem_trustChainPolicy (entityType : String) :
    Tandem SameByType (fun _ _ => True) (Option.Rel SameMetadata)
      (trustChainPolicy ho entityType : EStateM Exc (TrustChain Key) _)
      (trustChainPolicy ho' entityType) := by
  refine tandem_get.bind fun tc tc' htc => ?_
  have hgather : Lockstep SameRule (gatherPolicies ho tc.verifiedChain.dropLast entityType)
      (gatherPolicies ho' tc'.verifiedChain.dropLast entityType) := by
    rw [htc.superiors]
    exact lockstep_gatherPolicies _ entityType
  refine (tandem_lift (fun _ _ _ => trivial) hgather).bind fun rule rule' hrule => ?_
  rcases Dict.rel_cases (htc.leafMetadata entityType) with ⟨hm, hm'⟩ | ⟨m, m', hm, hm', hmm'⟩
  · rw [hm, hm']
    exact tandem_pure .none
  · rw [hm, hm']
    refine Tandem.bind (tandem_set ?_) fun _ _ _ => ?_
    · exact ⟨{ htc with combinedPolicy :=
        Dict.rel_lookup_insert htc.combinedPolicy entityType hrule }, htc.byType⟩
    · refine Tandem.bind (R := SameMetadata) ?_ fun a b hab => tandem_pure (.some hab)
      refine Tandem.zoom (tandem_applyPolicy hrule) (fun _ _ _ => hmm') ?_ fun _ _ _ _ _ _ => trivial
      intro a b s t hab hst
      refine ⟨hst.toSameTrustChain.setLeafMetadata entityType hab, ?_⟩
      obtain ⟨d, hd⟩ := hst.byType
      refine ⟨d, ?_⟩
      unfold Function.setLeafMetadata
      cases s.verifiedChain.getLast? with
      | none => exact hd
      | some leaf => exact hd

theorem tandem_policyFor (entityType : String) :
    Tandem SameByType (fun _ _ => True) (fun _ _ => True)
      (policyFor ho entityType : EStateM Exc (TrustChain Key) _) (policyFor ho' entityType) := by
  refine (tandem_trustChainPolicy entityType).bind fun m m' hm => tandem_modify fun tc tc' htc => ?_
  obtain ⟨d, hd⟩ := htc.byType
  have hmetadata := htc.metadata
  rw [hd] at hmetadata
  cases hd' : tc'.metadata with
  | plain other =>
      rw [hd'] at hmetadata
      exact nomatch hmetadata
  | byType d' =>
      rw [hd'] at hmetadata
      cases hmetadata with
      | byType hdict =>
          refine ⟨{ htc with metadata := ?_ }, d.insert entityType m, by rw [hd]; rfl⟩
          rw [hd]
          exact .byType (Dict.rel_lookup_insert hdict entityType hm)

theorem tandem_policyForAll (types : List String) :
    Tandem SameByType (fun _ _ => True) (fun _ _ => True)
      (policyForAll ho types : EStateM Exc (TrustChain Key) _) (policyForAll ho' types) := by
  induction types with
  | nil => exact tandem_pure trivial
  | cons entityType rest ih => exact (tandem_policyFor entityType).bind fun _ _ _ => ih

/-- The policies of one trust chain, as the verifier made it. -/
theorem outcomesRelated_call {tc : TrustChain Key} (hfresh : tc.metadata = .byType ∅) :
    OutcomesRelated SameTrustChain (fun _ _ => True) (fun _ _ => True)
      (TrustChainPolicy.call ho "" tc) (TrustChainPolicy.call ho' "" tc) := by
  have hstart : SameByType tc tc := ⟨SameTrustChain.refl tc, ∅, hfresh⟩
  unfold TrustChainPolicy.call
  rw [bind_of_ok (get_apply tc), bind_of_ok (get_apply tc)]
  by_cases hlen : tc.verifiedChain.length > 1
  · rw [if_pos hlen, if_pos hlen, if_neg (by simp), if_neg (by simp)]
    cases tc.verifiedChain.getLast?.bind (·.metadata) with
    | none => exact .error _ _ trivial
    | some metadata =>
        have hall : Tandem SameByType (fun _ _ => True) (fun _ _ => True)
            (policyForAll ho metadata.keys : EStateM Exc (TrustChain Key) _)
            (policyForAll ho' metadata.keys) := tandem_policyForAll metadata.keys
        rcases (hall tc tc hstart).cases with
          ⟨a, s, b, t, hm, hn, -, hst⟩ | ⟨e, s, e', t, hm, hn, -⟩
        · simp only [hm, hn]
          exact .ok trivial hst.toSameTrustChain
        · simp only [hm, hn]
          exact .error e e' trivial
  · -- a chain of one statement: no policy is combined, so no set is walked
    rw [if_neg hlen, if_neg hlen]
    exact OutcomesRelated.refl SameTrustChain.refl (fun _ => trivial) (fun _ => trivial) _

theorem lockstep_applyPolicies {tcs : List (TrustChain Key)}
    (hfresh : ∀ tc ∈ tcs, tc.metadata = .byType ∅) :
    Lockstep (List.Forall₂ SameTrustChain) (applyPolicies ho tcs) (applyPolicies ho' tcs) := by
  induction tcs with
  | nil => exact .ok .nil
  | cons tc rest ih =>
      obtain ⟨hfirst, hrest⟩ := List.forall_mem_cons.mp hfresh
      unfold applyPolicies
      have hcall : OutcomesRelated SameTrustChain (fun _ _ => True) (fun _ _ => True)
          (TrustChainPolicy.call ho "" tc) (TrustChainPolicy.call ho' "" tc) :=
        outcomesRelated_call hfirst
      rcases hcall.cases with
        ⟨a, s, b, t, hm, hn, -, hst⟩ | ⟨e, s, e', t, hm, hn, -⟩
      · simp only [hm, hn]
        exact (ih hrest).bind fun _ _ hall => .ok (.cons hst hall)
      · simp only [hm, hn]
        exact .error e e'

/-! ## The entity -/

/-- Entities that have collected the same, hold the same keys and keep trust chains that are
    the same up to lists. -/
structure SameState (st st' : FederationState Jar Key) : Prop where
  collector : st.collector = st'.collector
  keyjar : st.keyjar = st'.keyjar
  anchor : st.trustChainAnchor = st'.trustChainAnchor
  trustChain : ∀ e, Option.Rel (List.Forall₂ SameTrustChain) (st.trustChain.lookup e)
    (st'.trustChain.lookup e)

theorem SameState.refl (st : FederationState Jar Key) : SameState st st :=
  ⟨rfl, rfl, rfl, fun _ => Dict.rel_refl (fun _ => List.forall₂_same.mpr fun tc _ =>
    SameTrustChain.refl tc) _⟩

/-- The collector and the key jar walk no sets. -/
theorem tandem_inCollector {α : Type} {P : α → Prop} (m : EStateM Exc (CollectorState Key) α)
    (hP : ∀ s a t, m s = .ok a t → P a) :
    Tandem SameState SameState (fun a b => a = b ∧ P a)
      (inCollector m : EStateM Exc (FederationState Jar Key) α) (inCollector m) :=
  (tandem_same m hP).zoom (fun _ _ h => h.collector) (fun _ _ _ _ heq h => { h with collector := heq })
    (fun _ _ _ _ heq h => { h with collector := heq })

theorem tandem_inKeyjar {α : Type} {P : α → Prop} (m : EStateM Exc Jar α)
    (hP : ∀ s a t, m s = .ok a t → P a) :
    Tandem SameState SameState (fun a b => a = b ∧ P a)
      (inKeyjar m : EStateM Exc (FederationState Jar Key) α) (inKeyjar m) :=
  (tandem_same m hP).zoom (fun _ _ h => h.keyjar) (fun _ _ _ _ heq h => { h with keyjar := heq })
    (fun _ _ _ _ heq h => { h with keyjar := heq })

variable [KeyStore Jar Key] [DecidableEq Key] {env : CollectorEnv Key}

theorem tandem_getVerifiedTrustChains (e : EntityId) :
    Tandem SameState SameState (List.Forall₂ SameTrustChain)
      (getVerifiedTrustChains ho env e : EStateM Exc (FederationState Jar Key) _)
      (getVerifiedTrustChains ho' env e) := by
  refine (tandem_inCollector (P := fun _ => True) _ fun _ _ _ _ => trivial).bind ?_
  rintro ⟨chains, leafEc⟩ _ ⟨rfl, -⟩
  refine Tandem.ite Iff.rfl (fun _ => tandem_pure .nil) fun _ => ?_
  refine (tandem_inKeyjar (P := fun tcs => ∀ tc ∈ tcs, tc.metadata = .byType ∅) _ ?_).bind ?_
  · -- what the verifier returns has no metadata yet
    intro jar tcs jar' hverify tc htc
    obtain ⟨_, _, _, _, _, _, -, -, hcall⟩ := verifiedFrom_of_mem hverify tc htc
    exact (call_eq_some hcall).2.2.2.2.2
  · rintro tcs _ ⟨rfl, hfresh⟩
    exact tandem_lift (fun _ _ h => h) (lockstep_applyPolicies hfresh)

theorem tandem_getTrustChains (e : EntityId) :
    Tandem SameState SameState (List.Forall₂ SameTrustChain)
      (getTrustChains ho env e : EStateM Exc (FederationState Jar Key) _)
      (getTrustChains ho' env e) := by
  refine tandem_get.bind fun st st' hst => ?_
  rcases Dict.rel_cases (hst.trustChain e) with ⟨hl, hl'⟩ | ⟨tcs, tcs', hl, hl', htcs⟩
  · rw [hl, hl']
    refine (tandem_getVerifiedTrustChains e).bind fun tcs tcs' htcs => ?_
    have hempty : tcs.isEmpty = true ↔ tcs'.isEmpty = true := by
      cases htcs with
      | nil => exact Iff.rfl
      | cons _ _ => exact iff_of_false (by simp) (by simp)
    refine Tandem.ite hempty (fun _ => tandem_pure .nil) fun _ => ?_
    refine Tandem.bind (tandem_modify ?_) fun _ _ _ => tandem_pure htcs
    exact fun s t h => { h with trustChain := Dict.rel_lookup_insert h.trustChain e htcs }
  · rw [hl, hl']
    exact tandem_pure htcs

/-- What is handed out, up to lists. -/
inductive SameHandedOut : HandedOut Key → HandedOut Key → Prop
  | trustChains {tcs tcs' : List (TrustChain Key)} (h : List.Forall₂ SameTrustChain tcs tcs') :
      SameHandedOut (.trustChains tcs) (.trustChains tcs')
  | metadata {found found' : Option ChainMetadata}
      (h : Option.Rel SameChainMetadata found found') :
      SameHandedOut (.metadata found) (.metadata found')

/-- Step: one question to both. -/
theorem tandem_call (op : TrustCall) :
    Tandem SameState SameState SameHandedOut
      (op.call ho env : EStateM Exc (FederationState Jar Key) _) (op.call ho' env) := by
  cases op with
  | getTrustChains e =>
      exact (tandem_getTrustChains e).bind fun _ _ htcs => tandem_pure (.trustChains htcs)
  | getVerifiedMetadata e =>
      have hmetadata : Tandem SameState SameState (Option.Rel SameChainMetadata)
          (getVerifiedMetadata ho env e : EStateM Exc (FederationState Jar Key) _)
          (getVerifiedMetadata ho' env e) := by
        rw [getVerifiedMetadata_eq, getVerifiedMetadata_eq]
        refine (tandem_getTrustChains e).bind fun tcs tcs' htcs => tandem_pure ?_
        cases htcs with
        | nil => exact .none
        | cons h _ => exact .some h.metadata
      exact hmetadata.bind fun _ _ h => tandem_pure (.metadata h)

/-- Run: a federation entity answers alike in every process, whatever the servers answer and
    in whatever order it is asked.  Where a call raises in one process it raises in the
    other; the trust chains, the policies and the metadata differ at most in the order and
    the repetitions of lists. -/
theorem hash_order_shows_in_lists_only (ho ho' : HashOrder) (env : CollectorEnv Key)
    (st : FederationState Jar Key) (ops : List TrustCall) :
    SameState (runState (TrustCall.call ho env) st ops)
        (runState (TrustCall.call ho' env) st ops) ∧
      List.Forall₂ (OutcomesRelated SameState SameState SameHandedOut)
        (runOutcomes (TrustCall.call ho env) st ops)
        (runOutcomes (TrustCall.call ho' env) st ops) :=
  Tandem.run tandem_call (SameState.refl st) ops

end Fedservice.Entity
