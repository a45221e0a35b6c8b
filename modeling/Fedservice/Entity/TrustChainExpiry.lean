/-
  Fedservice.Entity.TrustChainExpiry

  The trust chains of an entity are verified once and kept; nothing on the way
  looks at when they expire.  Where no statement that is verified has expired,
  and no chain is asked for after a statement of it has, what a federation entity
  hands out is not expired and expires with the first of its statements.
-/

import Fedservice.Entity.VerifiedTrustChains
import Fedservice.Entity.Function.Federation
import Mathlib.Order.Bounds.Defs

namespace Fedservice.Entity

open Fedservice.Lib Fedservice.Py Fedservice.EntityStatement Fedservice.Crypto
  Fedservice.Entity.Function

variable {Jar Key : Type}

/-! ## trust_chain_expires_at -/

/-- None of the statements has expired, nor an expiry time before the epoch. -/
def AllCurrent (now : Int) (statements : List (Statement Key)) : Prop :=
  ∀ exp ∈ statements.map (·.exp), 0 ≤ exp ∧ now ≤ exp

/-- The loop goes down from a time that is not before the epoch. -/
theorem isLeast_foldl {exps : List Int} (hexps : ∀ exp ∈ exps, 0 ≤ exp) {start : Int}
    (hstart : 0 ≤ start) :
    IsLeast {t | t ∈ start :: exps}
      (exps.foldl (fun exp t => if exp ≥ 0 then (if t < exp then t else exp) else t) start) := by
  induction exps generalizing start with
  | nil =>
      refine ⟨List.mem_singleton_self _, fun t ht => ?_⟩
      rw [List.mem_singleton.mp ht]
      rfl
  | cons first rest ih =>
      have hfirst := hexps first (List.mem_cons_self ..)
      have hrest : ∀ exp ∈ rest, 0 ≤ exp := fun t ht => hexps t (List.mem_cons_of_mem first ht)
      rw [List.foldl_cons, if_pos hstart]
      by_cases hlt : first < start
      · rw [if_pos hlt]
        obtain ⟨hmem, hleast⟩ := ih hrest hfirst
        refine ⟨List.mem_cons_of_mem start hmem, fun t ht => ?_⟩
        rcases List.mem_cons.mp ht with rfl | ht
        · exact (hleast (List.mem_cons_self ..)).trans hlt.le
        · exact hleast ht
      · rw [if_neg hlt]
        obtain ⟨hmem, hleast⟩ := ih hrest hstart
        refine ⟨?_, fun t ht => ?_⟩
        · rcases List.mem_cons.mp hmem with heq | hmem
          · exact List.mem_cons.mpr (Or.inl heq)
          · exact List.mem_cons_of_mem start (List.mem_cons_of_mem first hmem)
        · rcases List.mem_cons.mp ht with rfl | ht
          · exact hleast (List.mem_cons_self ..)
          · rcases List.mem_cons.mp ht with rfl | ht
            · exact (hleast (List.mem_cons_self ..)).trans (not_lt.mp hlt)
            · exact hleast (List.mem_cons_of_mem start ht)

/-- It only looks at the expiry times. -/
theorem trustChainExpiresAt_eq (statements : List (Statement Key)) :
    trustChainExpiresAt statements = (statements.map (·.exp)).foldl
      (fun exp t => if exp ≥ 0 then (if t < exp then t else exp) else t) (-1) := by
  rw [trustChainExpiresAt, List.foldl_map]

/-- Where no expiry time is before the epoch, the first of them is found. -/
theorem isLeast_trustChainExpiresAt {statements : List (Statement Key)} (hne : statements ≠ [])
    (hexps : ∀ exp ∈ statements.map (·.exp), 0 ≤ exp) :
    IsLeast {t | t ∈ statements.map (·.exp)} (trustChainExpiresAt statements) := by
  rw [trustChainExpiresAt_eq]
  cases statements with
  | nil => exact absurd rfl hne
  | cons first rest =>
      rw [List.map_cons, List.foldl_cons, if_neg (by decide)]
      rw [List.map_cons] at hexps
      exact isLeast_foldl (fun t ht => hexps t (List.mem_cons_of_mem _ ht))
        (hexps _ (List.mem_cons_self ..))

/-- The chain is not expired, and expires with the first of its statements. -/
structure Unexpired (now : Int) (tc : TrustChain Key) : Prop where
  least : IsLeast {t | t ∈ tc.verifiedChain.map (·.exp)} tc.exp
  current : tc.isExpired now = false

/-- The expiry time of the chain is what the verifier makes of its statements. -/
structure Dated (tc : TrustChain Key) : Prop where
  exp : tc.exp = trustChainExpiresAt tc.verifiedChain
  nonempty : tc.verifiedChain ≠ []

theorem Dated.unexpired {tc : TrustChain Key} (h : Dated tc) {now : Int}
    (hcurrent : AllCurrent now tc.verifiedChain) : Unexpired now tc := by
  have hleast : IsLeast {t | t ∈ tc.verifiedChain.map (·.exp)} tc.exp := by
    rw [h.exp]
    exact isLeast_trustChainExpiresAt h.nonempty fun t ht => (hcurrent t ht).1
  refine ⟨hleast, ?_⟩
  rw [TrustChain.isExpired, decide_eq_false_iff_not]
  exact not_lt.mpr (hcurrent _ hleast.1).2

/-! ## Policies do not change expiry times -/

/-- The expiry times of the statements and of the chain. -/
def SameExpiries (tc₀ tc : TrustChain Key) : Prop :=
  tc.exp = tc₀.exp ∧ tc.verifiedChain.map (·.exp) = tc₀.verifiedChain.map (·.exp)

theorem SameExpiries.setLeafMetadata {tc₀ tc : TrustChain Key} (h : SameExpiries tc₀ tc)
    (entityType : String) (metadata : Metadata) :
    SameExpiries tc₀ (setLeafMetadata entityType metadata tc) := by
  unfold Function.setLeafMetadata
  cases hleaf : tc.verifiedChain.getLast? with
  | none => exact h
  | some leaf =>
      have hsplit : tc.verifiedChain.dropLast ++ [leaf] = tc.verifiedChain :=
        List.dropLast_append_getLast? leaf hleaf
      refine ⟨h.1, ?_⟩
      rw [← h.2]
      nth_rewrite 2 [← hsplit]
      rw [List.map_append, List.map_append]
      rfl

variable {ho : HashOrder}

/-- Applying the policies to a chain does not change when it expires. -/
theorem sameExpiries_of_call {tc₀ tc : TrustChain Key}
    (h : TrustChainPolicy.call ho "" tc₀ = .ok () tc) : SameExpiries tc₀ tc := by
  have hinv : PolicyInvariant (SameExpiries tc₀) :=
    ⟨fun _ _ htc => htc, fun _ _ htc => htc, fun _ entityType metadata htc =>
      htc.setLeafMetadata entityType metadata⟩
  exact hinv.of_call ⟨rfl, rfl⟩ h

/-! ## Chains that are verified afresh -/

variable [KeyStore Jar Key] [DecidableEq Key] {env : CollectorEnv Key}

omit [KeyStore Jar Key] [DecidableEq Key] in
/-- The collected chains as they are verified, each with the leaf's own statement. -/
def withLeaf (chains : List (List (Token Key))) (leafEc : Option (SelfSigned Key)) :
    List (List (Token Key)) :=
  chains.map (· ++ leafEc.toList.map fun config => .jws config.jws)

omit [DecidableEq Key] in
/-- Each of the statements was signed with a key held for its issuer, or one that a
    statement which is at hand lists for it, and they meet the restrictions. -/
def Verifiable (jar : Jar) (atHand : List (SignedStatement Key)) (ts : List (Token Key)) : Prop :=
  (∀ s ∈ ts.filterMap factory, HeldOrListed jar atHand s.payload.iss s.signer) ∧
    meetsRestrictions (payloads ts) = .ok true

/-- What is known of a trust chain that was verified afresh. -/
structure FromCollected (jar : Jar) (chains : List (List (Token Key))) (tc : TrustChain Key) :
    Prop where
  dated : Dated tc
  collected : ∃ chain ∈ chains, Verifiable jar (chains.flatten.filterMap factory) chain ∧
    tc.verifiedChain.map (·.exp) = (payloads chain).map (·.exp)

theorem fromCollected_of_verified {chains : List (List (Token Key))}
    {leafEc : Option (SelfSigned Key)} {jar jar' : Jar} {tcs₀ tcs : List (TrustChain Key)}
    (hverify : verifyTrustChains (leafEc.toList.map fun config => .jws config.jws) chains jar =
      .ok tcs₀ jar')
    (hpolicy : applyPolicies ho tcs₀ = .ok tcs) :
    ∀ tc ∈ tcs, FromCollected jar (withLeaf chains leafEc) tc := by
  intro tc htc
  obtain ⟨tc₀, htc₀, hprocess⟩ := call_of_mem_applyPolicies hpolicy tc htc
  obtain ⟨before, c, after, res, jar₁, jar₂, rfl, hbefore, hcall⟩ :=
    verifiedFrom_of_mem hverify tc₀ htc₀
  obtain ⟨hverified, -, -, hexp, -, -⟩ := call_eq_some hcall
  obtain ⟨hsame, hexps⟩ := sameExpiries_of_call hprocess
  have hdated : Dated tc := by
    refine ⟨?_, fun hnil => ?_⟩
    · rw [hsame, hexp, trustChainExpiresAt_eq, trustChainExpiresAt_eq, hexps]
    · rw [hnil, List.map_nil, eq_comm, List.map_eq_nil_iff] at hexps
      exact hverified.nonempty hexps
  refine ⟨hdated, c ++ leafEc.toList.map (fun config => .jws config.jws), ?_, ⟨?_, ?_⟩, ?_⟩
  · exact List.mem_map_of_mem (List.mem_append_right before (List.mem_cons_self ..))
  · intro s hs
    obtain ⟨upto, rest, hsplit⟩ := List.append_of_mem hs
    -- the key was held after the chains before, or is listed further up in this one
    rcases hverified.signed upto s rest hsplit with hheld | ⟨u, hu, hsub, hk⟩
    · have hjar : finalState (verifyTrustChains (leafEc.toList.map fun config =>
          .jws config.jws) before jar) = jar₁ := by rw [hbefore, finalState_ok]
      rw [← hjar] at hheld
      refine heldOrListed_mono (heldOrListed_of_verifyTrustChains hheld) fun u hu => ?_
      rw [withLeaf, List.map_append, List.flatten_append, List.filterMap_append]
      exact List.mem_append_left _ hu
    · refine Or.inr ⟨u, ?_, hsub, hk⟩
      have hin : u ∈
          (c ++ leafEc.toList.map fun config => Token.jws config.jws).filterMap factory := by
        rw [hsplit]
        exact List.mem_append_left _ hu
      rw [withLeaf, List.map_append, List.flatten_append, List.filterMap_append, List.map_cons,
        List.flatten_cons, List.filterMap_append]
      exact List.mem_append_right _ (List.mem_append_left _ hin)
  · have hpayloads := hverified.payloads
    rw [payloads, ← hpayloads]
    exact hverified.restrictions
  · have hpayloads := hverified.payloads
    rw [hexps, payloads, ← hpayloads]

/-- What `get_verified_trust_chains` returns, and what it leaves behind. -/
theorem fromCollected_of_getVerifiedTrustChains {entityId : EntityId}
    {tcs : List (TrustChain Key)} {st st' : FederationState Jar Key}
    (h : getVerifiedTrustChains ho env entityId st = .ok tcs st') :
    st'.trustChain = st.trustChain ∧ ∃ chains leafEc,
      collectTrustChains env entityId (.text "") "" [] st.collector =
        .ok (chains, leafEc) st'.collector ∧
      ∀ tc ∈ tcs, FromCollected st.keyjar (withLeaf chains leafEc) tc := by
  unfold getVerifiedTrustChains at h
  obtain ⟨⟨chains, leafEc⟩, st₁, hcollect, h⟩ := bind_eq_ok.mp h
  obtain ⟨collector, hchains, rfl⟩ := inCollector_eq_ok.mp hcollect
  by_cases hlen : chains.length = 0
  · simp only [hlen, if_true, pure_apply, EStateM.Result.ok.injEq] at h
    obtain ⟨rfl, rfl⟩ := h
    exact ⟨rfl, chains, leafEc, hchains, fun tc htc => absurd htc List.not_mem_nil⟩
  · simp only [hlen, if_false] at h
    obtain ⟨verified, st₂, hverify, h⟩ := bind_eq_ok.mp h
    obtain ⟨jar, hverified, rfl⟩ := inKeyjar_eq_ok.mp hverify
    obtain ⟨hpolicy, rfl⟩ := lift_eq_ok.mp h
    exact ⟨rfl, chains, leafEc, hchains, fromCollected_of_verified hverified hpolicy⟩

/-- The chains that are kept are left alone, also where something is raised. -/
theorem ensures_getVerifiedTrustChains (store : Dict (List (TrustChain Key)))
    (entityId : EntityId) :
    Ensures (fun st : FederationState Jar Key => st.trustChain = store)
      (getVerifiedTrustChains ho env entityId) (fun _ => True) := by
  unfold getVerifiedTrustChains inCollector inKeyjar
  refine Ensures.bind (ensures_zoom ?_ _) fun collected (_ : True) => ?_
  · exact fun _ _ hst => hst
  · obtain ⟨chains, leafEc⟩ := collected
    by_cases hlen : chains.length = 0
    · simp only [if_pos hlen]
      exact ensures_pure trivial
    · simp only [if_neg hlen]
      refine Ensures.bind (ensures_zoom ?_ _) fun verified (_ : True) => ?_
      · exact fun _ _ hst => hst
      · exact ensures_lift fun _ _ => trivial

/-! ## Calls -/

/-- The function and the entity it is called for. -/
inductive TrustCall where
  | getTrustChains (entityId : EntityId)
  | getVerifiedMetadata (entityId : EntityId)

def TrustCall.entityId : TrustCall → EntityId
  | .getTrustChains entityId => entityId
  | .getVerifiedMetadata entityId => entityId

/-- What is handed out. -/
inductive HandedOut (Key : Type) where
  | trustChains (trustChains : List (TrustChain Key))
  | metadata (metadata : Option ChainMetadata)

def TrustCall.call (ho : HashOrder) (env : CollectorEnv Key) :
    TrustCall → EStateM Exc (FederationState Jar Key) (HandedOut Key)
  | .getTrustChains entityId => do
      return .trustChains (← Entity.getTrustChains ho env entityId)
  | .getVerifiedMetadata entityId => do
      return .metadata (← Entity.getVerifiedMetadata ho env entityId)

/-- The call, and the time when it returns. -/
def TrustCall.run (ho : HashOrder) (env : CollectorEnv Key) (op : TrustCall) :
    EStateM Exc (FederationState Jar Key) (HandedOut Key × Int) := do
  let handed ← op.call ho env
  let now ← inCollector (utcTimeSansFrac env)
  return (handed, now)

/-- The chains out of those of the entity that a call is about. -/
def TrustCall.uses (tcs : List (TrustChain Key)) : TrustCall → List (TrustChain Key)
  | .getTrustChains _ => tcs
  | .getVerifiedMetadata _ => tcs.take 1

/-- The chains that are handed out are not expired; metadata are those of the first of
    the chains that are kept for the entity. -/
def HandsOutUnexpired (ho : HashOrder) (env : CollectorEnv Key) (st : FederationState Jar Key)
    (op : TrustCall) : Prop :=
  ∀ handed now st', op.run ho env st = .ok (handed, now) st' →
    match handed with
    | .trustChains tcs => ∀ tc ∈ tcs, Unexpired now tc
    | .metadata none => True
    | .metadata (some metadata) => ∃ tc rest,
        st'.trustChain.lookup op.entityId = some (tc :: rest) ∧ tc.metadata = metadata ∧
          Unexpired now tc

/-- What a call goes by is current: the chains that are kept for the entity, or else
    those of the collected ones that can be verified. -/
def TrustCall.Current (env : CollectorEnv Key) (st : FederationState Jar Key) (op : TrustCall) :
    Prop :=
  match st.trustChain.lookup op.entityId with
  | some tcs => ∀ tc ∈ op.uses tcs, AllCurrent (env.now st.collector.asked) tc.verifiedChain
  | none => ∀ chains leafEc collector,
      collectTrustChains env op.entityId (.text "") "" [] st.collector =
        .ok (chains, leafEc) collector →
      ∀ chain ∈ withLeaf chains leafEc,
        Verifiable st.keyjar ((withLeaf chains leafEc).flatten.filterMap factory) chain →
          AllCurrent (env.now collector.asked) (payloads chain)

/-- The chains that are kept have the expiry times that the verifier gave them. -/
def DatedStore (st : FederationState Jar Key) : Prop :=
  ∀ e tcs, st.trustChain.lookup e = some tcs → ∀ tc ∈ tcs, Dated tc

/-- Chains that are kept are handed out as they are, others are collected, verified and
    kept. -/
theorem getTrustChains_apply (entityId : EntityId) (st : FederationState Jar Key) :
    getTrustChains ho env entityId st =
      match st.trustChain.lookup entityId with
      | some kept => .ok kept st
      | none =>
          match getVerifiedTrustChains ho env entityId st with
          | .ok tcs st₁ => .ok tcs (if tcs.isEmpty then st₁ else storeTrustChains entityId tcs st₁)
          | .error e st₁ => .error e st₁ := by
  unfold Entity.getTrustChains
  rw [bind_of_ok (get_apply st)]
  cases hlookup : st.trustChain.lookup entityId with
  | some kept => rfl
  | none =>
      simp only
      cases hverified : getVerifiedTrustChains ho env entityId st with
      | error e st₁ => rw [bind_of_error hverified]
      | ok verified st₁ =>
          rw [bind_of_ok hverified]
          cases verified <;> rfl

/-- The metadata are those of the first of the chains. -/
theorem getVerifiedMetadata_eq (entityId : EntityId) :
    (getVerifiedMetadata ho env entityId : EStateM Exc (FederationState Jar Key) _) =
      getTrustChains ho env entityId >>= fun tcs => pure (tcs.head?.map (·.metadata)) := by
  funext st
  unfold getVerifiedMetadata Entity.getTrustChains
  rw [bind_assoc, bind_of_ok (get_apply st), bind_of_ok (get_apply st)]
  cases hlookup : st.trustChain.lookup entityId with
  | some kept => rfl
  | none =>
      simp only
      cases hverified : getVerifiedTrustChains ho env entityId st with
      | error e st₁ => rw [bind_of_error hverified, bind_assoc, bind_of_error hverified]
      | ok verified st₁ =>
          rw [bind_of_ok hverified, bind_assoc, bind_of_ok hverified]
          cases verified <;> rfl

/-- The chains that are kept are still dated after a call. -/
theorem DatedStore.getTrustChains {st : FederationState Jar Key} (hst : DatedStore st)
    (entityId : EntityId) : DatedStore (finalState (getTrustChains ho env entityId st)) := by
  rw [getTrustChains_apply]
  cases hlookup : st.trustChain.lookup entityId with
  | some kept => exact hst
  | none =>
      simp only
      cases hverified : getVerifiedTrustChains ho env entityId st with
      | error e st₁ =>
          have hkeeps : Ensures (fun st' : FederationState Jar Key => st'.trustChain = st.trustChain)
              (getVerifiedTrustChains ho env entityId) (fun _ => True) :=
            ensures_getVerifiedTrustChains st.trustChain entityId
          have hstore := (hkeeps st rfl).1
          rw [hverified, finalState_error] at hstore
          intro e' tcs hkept
          rw [finalState_error, hstore] at hkept
          exact hst e' tcs hkept
      | ok tcs st₁ =>
          obtain ⟨hstore, chains, leafEc, -, hall⟩ :=
            fromCollected_of_getVerifiedTrustChains hverified
          intro e' tcs' hkept
          simp only [finalState_ok] at hkept
          by_cases hempty : tcs.isEmpty = true
          · rw [if_pos hempty, hstore] at hkept
            exact hst e' tcs' hkept
          · rw [if_neg hempty, storeTrustChains, Dict.lookup_insert', hstore] at hkept
            by_cases hsame : e' = entityId
            · rw [if_pos hsame, Option.some.injEq] at hkept
              rw [← hkept]
              exact fun tc htc => (hall tc htc).dated
            · rw [if_neg hsame] at hkept
              exact hst e' tcs' hkept

/-- The chains that a call is about, where what it goes by is current. -/
theorem unexpired_of_current {st st' : FederationState Jar Key} (hst : DatedStore st)
    {op : TrustCall} (hcurrent : op.Current env st) {tcs : List (TrustChain Key)}
    (hrun : getTrustChains ho env op.entityId st = .ok tcs st') :
    ∀ tc ∈ op.uses tcs, Unexpired (env.now st'.collector.asked) tc := by
  intro tc huses
  have htc : tc ∈ tcs := by
    cases op with
    | getTrustChains entityId => exact huses
    | getVerifiedMetadata entityId => exact List.mem_of_mem_take huses
  rw [getTrustChains_apply] at hrun
  unfold TrustCall.Current at hcurrent
  cases hlookup : st.trustChain.lookup op.entityId with
  | some kept =>
      simp only [hlookup] at hrun hcurrent
      obtain ⟨rfl, rfl⟩ := EStateM.Result.ok.inj hrun
      exact (hst op.entityId kept hlookup tc htc).unexpired (hcurrent tc huses)
  | none =>
      simp only [hlookup] at hrun hcurrent
      cases hverified : getVerifiedTrustChains ho env op.entityId st with
      | error e st₁ => simp [hverified] at hrun
      | ok verified st₁ =>
          simp only [hverified] at hrun
          obtain ⟨rfl, rfl⟩ := EStateM.Result.ok.inj hrun
          obtain ⟨-, chains, leafEc, hcollect, hall⟩ :=
            fromCollected_of_getVerifiedTrustChains hverified
          obtain ⟨hdated, chain, hchain, hverifiable, hexps⟩ := hall tc htc
          have hclock : (if verified.isEmpty then st₁
              else storeTrustChains op.entityId verified st₁).collector = st₁.collector := by
            cases verified <;> rfl
          rw [hclock]
          refine hdated.unexpired ?_
          rw [AllCurrent, hexps]
          exact hcurrent chains leafEc st₁.collector hcollect chain hchain hverifiable

theorem kept_of_getTrustChains {entityId : EntityId} {tcs : List (TrustChain Key)}
    {st st' : FederationState Jar Key} (h : getTrustChains ho env entityId st = .ok tcs st')
    (hne : tcs ≠ []) : st'.trustChain.lookup entityId = some tcs := by
  rw [getTrustChains_apply] at h
  cases hlookup : st.trustChain.lookup entityId with
  | some kept =>
      simp only [hlookup] at h
      obtain ⟨rfl, rfl⟩ := EStateM.Result.ok.inj h
      exact hlookup
  | none =>
      cases hverified : getVerifiedTrustChains ho env entityId st with
      | error e st₁ => simp [hlookup, hverified] at h
      | ok verified st₁ =>
          simp only [hlookup, hverified] at h
          obtain ⟨rfl, rfl⟩ := EStateM.Result.ok.inj h
          rw [if_neg (by simpa using hne), storeTrustChains]
          exact AList.lookup_insert _

/-- What the call does, and nothing but a reading of the clock. -/
theorem run_eq_ok {op : TrustCall} {st st' : FederationState Jar Key} {handed : HandedOut Key}
    {now : Int} (h : op.run ho env st = .ok (handed, now) st') :
    ∃ st₁, op.call ho env st = .ok handed st₁ ∧ now = env.now st₁.collector.asked ∧
      st'.trustChain = st₁.trustChain := by
  obtain ⟨handed', st₁, hcall, h⟩ := bind_eq_ok.mp h
  obtain ⟨now', st₂, hclock, h⟩ := bind_eq_ok.mp h
  obtain ⟨heq, rfl⟩ := EStateM.Result.ok.inj h
  obtain ⟨rfl, rfl⟩ := Prod.mk.inj heq
  obtain ⟨hnow, rfl⟩ := EStateM.Result.ok.inj hclock
  exact ⟨st₁, hcall, hnow.symm, rfl⟩

theorem finalState_run_trustChain (op : TrustCall) (st : FederationState Jar Key) :
    (finalState (op.run ho env st)).trustChain =
      (finalState (op.call ho env st)).trustChain := by
  rw [TrustCall.run]
  cases hcall : op.call ho env st with
  | error e st₁ => rw [bind_of_error hcall, finalState_error, finalState_error]
  | ok handed st₁ =>
      rw [bind_of_ok hcall]
      rfl

/-- The chains that are kept are those kept after `get_trust_chains`. -/
theorem finalState_call_eq (op : TrustCall) (st : FederationState Jar Key) :
    finalState (op.call ho env st) = finalState (getTrustChains ho env op.entityId st) := by
  cases op with
  | getTrustChains entityId => rw [TrustCall.call, finalState_bind_pure, TrustCall.entityId]
  | getVerifiedMetadata entityId =>
      rw [TrustCall.call, getVerifiedMetadata_eq, finalState_bind_pure, finalState_bind_pure,
        TrustCall.entityId]

/-- One call. -/
theorem DatedStore.run {st : FederationState Jar Key} (hst : DatedStore st) (op : TrustCall)
    (hcurrent : op.Current env st) :
    DatedStore (finalState (op.run ho env st)) ∧ HandsOutUnexpired ho env st op := by
  refine ⟨fun e tcs hlookup => ?_, fun handed now st' hrun => ?_⟩
  · rw [finalState_run_trustChain, finalState_call_eq] at hlookup
    exact hst.getTrustChains op.entityId e tcs hlookup
  · obtain ⟨st₁, hcalled, rfl, hstore⟩ := run_eq_ok hrun
    cases op with
    | getTrustChains entityId =>
        obtain ⟨tcs, st₂, hcall, hreturn⟩ := bind_eq_ok.mp hcalled
        obtain ⟨rfl, rfl⟩ := EStateM.Result.ok.inj hreturn
        exact unexpired_of_current hst hcurrent hcall
    | getVerifiedMetadata entityId =>
        rw [TrustCall.call, getVerifiedMetadata_eq] at hcalled
        obtain ⟨metadata, st₂, hmetadata, hreturn⟩ := bind_eq_ok.mp hcalled
        obtain ⟨rfl, rfl⟩ := EStateM.Result.ok.inj hreturn
        obtain ⟨tcs, st₃, hcall, hreturn⟩ := bind_eq_ok.mp hmetadata
        obtain ⟨rfl, rfl⟩ := EStateM.Result.ok.inj hreturn
        cases tcs with
        | nil => trivial
        | cons tc rest =>
            refine ⟨tc, rest, ?_, rfl, ?_⟩
            · rw [hstore]
              exact kept_of_getTrustChains hcall (by simp)
            · exact unexpired_of_current hst hcurrent hcall tc (List.mem_cons_self ..)

/-- In a run of calls where what each of them goes by is current, no expired trust is
    handed out, and what is handed out expires with the first of its statements. -/
theorem hands_out_unexpired {st : FederationState Jar Key} (hempty : st.trustChain = ∅)
    (ops : List TrustCall)
    (hcurrent : RunMeets (TrustCall.run ho env) (TrustCall.Current env) st ops) :
    RunMeets (TrustCall.run ho env) (HandsOutUnexpired ho env) st ops := by
  have hstart : DatedStore st := by
    intro e tcs hlookup
    rw [hempty] at hlookup
    exact absurd hlookup (by simp)
  exact (run_invariant DatedStore (fun st op hst hop => hst.run op hop) ops hstart hcurrent).2

/-! ## A chain that is kept too long -/

/-- A leaf below its trust anchor. -/
def belowTrustAnchor : List (String × SignedStatement Nat) :=
  [("https://op.org/.well-known/openid-federation",
    ⟨{ iss := "https://op.org", sub := "https://op.org", exp := 1000, jwks := some [3]
       authorityHints := some ["https://ta.org"]
       metadata := some (Dict.ofList [("openid_provider", ∅)]) }, 3⟩),
   ("https://ta.org/.well-known/openid-federation",
    ⟨{ iss := "https://ta.org", sub := "https://ta.org", exp := 1000, jwks := some [1]
       metadata := some (withFetchEndpoint "https://ta.org/fetch") }, 1⟩),
   ("https://ta.org/fetch?https://op.org",
    ⟨{ iss := "https://ta.org", sub := "https://op.org", exp := 900, jwks := some [3] }, 1⟩)]

/-- The chain is verified at 100 and handed out again at 2000, when it has long expired. -/
theorem expired_chain_handed_out :
    ¬ ∀ (env : CollectorEnv Nat) (ops : List TrustCall),
      (∀ m n, m ≤ n → env.now m ≤ env.now n) →
        RunMeets (TrustCall.run .insertion env) (HandsOutUnexpired .insertion env) trustsTa ops := by
  intro hall
  have hclock : ∀ m n : Nat, m ≤ n →
      (if m < 7 then 100 else 2000 : Int) ≤ if n < 7 then 100 else 2000 := by
    intro m n hmn
    by_cases hn : n < 7
    · rw [if_pos hn, if_pos (by omega)]
    · rw [if_neg hn]
      by_cases hm : m < 7
      · rw [if_pos hm]
        decide
      · rw [if_neg hm]
  obtain ⟨-, hsecond, -⟩ := hall
    { onPages ["https://ta.org"] belowTrustAnchor with now := fun n => if n < 7 then 100 else 2000 }
    [.getTrustChains "https://op.org", .getTrustChains "https://op.org"] hclock
  have hunexpired := (hsecond _ _ _ rfl _ (List.mem_singleton_self _)).current
  exact absurd hunexpired (by decide)

theorem hands_out_unexpired_belowTrustAnchor :
    RunMeets (TrustCall.run .insertion (onPages ["https://ta.org"] belowTrustAnchor))
      (HandsOutUnexpired .insertion (onPages ["https://ta.org"] belowTrustAnchor)) trustsTa
      [.getTrustChains "https://op.org", .getVerifiedMetadata "https://op.org"] := by
  refine hands_out_unexpired rfl _ ⟨?_, ?_, trivial⟩
  · intro chains leafEc collector hcollect chain hchain _
    obtain ⟨hcollected, rfl⟩ := EStateM.Result.ok.inj hcollect
    obtain ⟨rfl, rfl⟩ := Prod.mk.inj hcollected
    obtain rfl := List.mem_singleton.mp hchain
    unfold AllCurrent
    decide
  · intro tc htc
    obtain rfl := List.mem_singleton.mp htc
    unfold AllCurrent
    decide

end Fedservice.Entity
