/-
  Fedservice.Entity.StandingChains

  Which of the lists of statements that are found for an entity become trust
  chains, told from the statements and the key jar: those that are signed from
  above and meet the restrictions.
-/

import Fedservice.Entity.FailingBranches

namespace Fedservice.Entity

open Fedservice.Lib Fedservice.Py Fedservice.EntityStatement Fedservice.Crypto
  Fedservice.Entity.Function

variable {Jar Key : Type} [KeyStore Jar Key] [DecidableEq Key] {ho : HashOrder}
  {env : CollectorEnv Key}

/-! ## Lists of statements that stand -/

/-- A list of tokens starts with a JWS, the statements in it are signed from above with the
    keys of a key jar, and they meet the restrictions among them. -/
structure Stands (jar : Jar) (ts : List (Token Key)) : Prop where
  starts : ∃ first rest, ts = .jws first :: rest
  signed : SignedFromAbove jar (ts.filterMap factory)
  restricted : meetsRestrictions (payloads ts) = .ok true

/-- The key jar when some lists of statements, each with the same ones at its end, have been
    gone through. -/
def keyjarAfter (ends : List (Token Key)) (chains : List (List (Token Key))) (jar : Jar) : Jar :=
  runState (fun c => TrustChainVerifier.call (c ++ ends)) jar chains

/-- One of some lists stands, with the statements at its end, when those before it have been
    gone through. -/
def StandsAmong (ends : List (Token Key)) (chains : List (List (Token Key))) (jar : Jar)
    (ts : List (Token Key)) : Prop :=
  ∃ before c after, chains = before ++ c :: after ∧ ts = c ++ ends ∧
    Stands (keyjarAfter ends before jar) ts

omit [DecidableEq Key] in
theorem Stands.nonempty {jar : Jar} {ts : List (Token Key)} (h : Stands jar ts) :
    payloads ts ≠ [] := by
  obtain ⟨first, rest, rfl⟩ := h.starts
  exact List.cons_ne_nil first.payload (payloads rest)

/-- A list that stands starts with a statement of an issuer with keys in the key jar. -/
theorem Stands.contains {jar : Jar} {first : SignedStatement Key} {rest : List (Token Key)}
    (h : Stands jar (.jws first :: rest)) : KeyStore.contains jar first.payload.iss = true :=
  contains_of_mem_keysOf (signedFromAbove_cons.mp h.signed).1

theorem StandsAmong.nonempty {ends : List (Token Key)} {chains : List (List (Token Key))}
    {jar : Jar} {ts : List (Token Key)} (h : StandsAmong ends chains jar ts) :
    payloads ts ≠ [] := by
  obtain ⟨before, c, after, -, -, hstands⟩ := h
  exact hstands.nonempty

/-- What the verifier makes of a list that stands, if it does not raise. -/
theorem call_of_stands {ts : List (Token Key)} {jar jar' : Jar} {made : Option (TrustChain Key)}
    (h : TrustChainVerifier.call ts jar = .ok made jar') (hstands : Stands jar ts) :
    made = some (trustChainOf ts) := by
  obtain ⟨first, rest, rfl⟩ := hstands.starts
  have hanchor := hstands.contains
  cases hloop : verifyLoop rest.length [] (.jws first :: rest) jar with
  | ok ves jar₁ =>
      have hcall := call_of_verifyLoop hanchor hloop
      rw [h, hstands.restricted] at hcall
      exact (EStateM.Result.ok.inj hcall).1
  | error e jar₁ =>
      have hraise := call_of_refused hanchor hloop
      exact absurd (h.symm.trans hraise) (by simp)

/-- What the verifier makes a trust chain of stands. -/
theorem stands_of_call {ts : List (Token Key)} {jar jar' : Jar} {tc : TrustChain Key}
    (h : TrustChainVerifier.call ts jar = .ok (some tc) jar') : Stands jar ts := by
  have hverified := (call_eq_some h).1
  have hpayloads : tc.verifiedChain = payloads ts := hverified.payloads
  refine ⟨hverified.head, hverified.signed, ?_⟩
  rw [← hpayloads]
  exact hverified.restrictions

/-- Going through lists of statements leaves the key jar that verifying them leaves. -/
theorem keyjarAfter_of_verifyTrustChains {ends : List (Token Key)}
    {chains : List (List (Token Key))} {tcs : List (TrustChain Key)} {jar jar' : Jar}
    (h : verifyTrustChains ends chains jar = .ok tcs jar') :
    keyjarAfter ends chains jar = jar' := by
  induction chains generalizing jar tcs with
  | nil => exact (EStateM.Result.ok.inj h).2
  | cons c chains ih =>
      obtain ⟨made, jar₁, hcall, hrest⟩ := bind_eq_ok.mp h
      obtain ⟨res, jar₂, hlater, hpure⟩ := bind_eq_ok.mp hrest
      obtain ⟨-, rfl⟩ := EStateM.Result.ok.inj hpure
      rw [keyjarAfter, runState_cons, hcall]
      exact ih hlater

/-- The trust chains that are verified are those of the lists that stand. -/
theorem mem_verifyTrustChains_iff {ends : List (Token Key)} {chains : List (List (Token Key))}
    {tcs : List (TrustChain Key)} {jar jar' : Jar}
    (h : verifyTrustChains ends chains jar = .ok tcs jar') {tc : TrustChain Key} :
    tc ∈ tcs ↔ ∃ ts, StandsAmong ends chains jar ts ∧ tc = trustChainOf ts := by
  constructor
  · intro hmem
    obtain ⟨before, c, after, res, jar₁, jar₂, rfl, hbefore, hcall⟩ := verifiedFrom_of_mem h tc hmem
    have hstands := stands_of_call hcall
    refine ⟨c ++ ends, ⟨before, c, after, rfl, rfl, ?_⟩,
      Option.some.inj (call_of_stands hcall hstands)⟩
    rwa [keyjarAfter_of_verifyTrustChains hbefore]
  · rintro ⟨ts, ⟨before, c, after, rfl, rfl, hstands⟩, rfl⟩
    obtain ⟨res, jar₁, later, hbefore, hrest, rfl⟩ := verifyTrustChains_append h
    rw [keyjarAfter_of_verifyTrustChains hbefore] at hstands
    obtain ⟨made, jar₂, hcall, hlater⟩ := bind_eq_ok.mp hrest
    obtain ⟨others, jar₃, -, hpure⟩ := bind_eq_ok.mp hlater
    obtain ⟨rfl, -⟩ := EStateM.Result.ok.inj hpure
    rw [call_of_stands hcall hstands]
    exact List.mem_append_right res (List.mem_append_left others (List.mem_singleton_self _))

omit [DecidableEq Key] in
/-- Every trust chain is processed, if the policies do not raise. -/
theorem exists_processed {tcs tcs' : List (TrustChain Key)} (h : applyPolicies ho tcs = .ok tcs')
    {tc : TrustChain Key} (htc : tc ∈ tcs) :
    ∃ tc' ∈ tcs', TrustChainPolicy.call ho "" tc = .ok () tc' := by
  induction tcs generalizing tcs' with
  | nil => exact absurd htc List.not_mem_nil
  | cons first rest ih =>
      rw [applyPolicies] at h
      cases hcall : TrustChainPolicy.call ho "" first with
      | error e processed => simp [hcall] at h
      | ok u processed =>
          simp only [hcall] at h
          obtain ⟨others, hothers, hpure⟩ := except_bind_eq_ok.mp h
          obtain rfl := except_pure_eq_ok.mp hpure
          rcases List.mem_cons.mp htc with rfl | htc
          · exact ⟨processed, List.mem_cons_self .., hcall⟩
          · obtain ⟨tc', htc', hprocessed⟩ := ih hothers htc
            exact ⟨tc', List.mem_cons_of_mem _ htc', hprocessed⟩

omit [KeyStore Jar Key] [DecidableEq Key] in
/-- The policies go through on all trust chains exactly if they do on each. -/
theorem exists_applyPolicies_iff {tcs : List (TrustChain Key)} :
    (∃ tcs', applyPolicies ho tcs = .ok tcs') ↔
      ∀ tc ∈ tcs, ∃ tc', TrustChainPolicy.call ho "" tc = .ok () tc' := by
  induction tcs with
  | nil => exact ⟨fun _ _ htc => absurd htc List.not_mem_nil, fun _ => ⟨[], rfl⟩⟩
  | cons first rest ih =>
      rw [List.forall_mem_cons, ← ih, applyPolicies]
      cases hcall : TrustChainPolicy.call ho "" first with
      | error e processed => simp
      | ok u processed =>
          constructor
          · rintro ⟨tcs', h⟩
            obtain ⟨others, hothers, -⟩ := except_bind_eq_ok.mp h
            exact ⟨⟨processed, rfl⟩, others, hothers⟩
          · rintro ⟨-, others, hothers⟩
            exact ⟨processed :: others, by rw [hothers]; rfl⟩

/-- There is a trust chain of some kind, verified and processed, exactly if a list stands
    whose trust chain is of that kind. -/
theorem exists_trusted_iff {ends : List (Token Key)} {chains : List (List (Token Key))}
    {tcs tcs' : List (TrustChain Key)} {jar jar' : Jar}
    (hverify : verifyTrustChains ends chains jar = .ok tcs jar')
    (hpolicy : applyPolicies ho tcs = .ok tcs') {P : TrustChain Key → Prop}
    {Q : List (Token Key) → Prop} (hiff : ∀ ts tc, payloads ts ≠ [] →
      TrustChainPolicy.call ho "" (trustChainOf ts) = .ok () tc → (P tc ↔ Q ts)) :
    (∃ tc ∈ tcs', P tc) ↔ ∃ ts, StandsAmong ends chains jar ts ∧ Q ts := by
  constructor
  · rintro ⟨tc, htc, hP⟩
    obtain ⟨tc₀, htc₀, hprocess⟩ := call_of_mem_applyPolicies hpolicy tc htc
    obtain ⟨ts, hstands, rfl⟩ := (mem_verifyTrustChains_iff hverify).mp htc₀
    exact ⟨ts, hstands, (hiff ts tc hstands.nonempty hprocess).mp hP⟩
  · rintro ⟨ts, hstands, hQ⟩
    obtain ⟨tc, htc, hprocess⟩ :=
      exists_processed hpolicy ((mem_verifyTrustChains_iff hverify).mpr ⟨ts, hstands, rfl⟩)
    exact ⟨tc, htc, (hiff ts tc hstands.nonempty hprocess).mpr hQ⟩

/-! ## Lists that go through -/

omit [KeyStore Jar Key] [DecidableEq Key] in
/-- Every statement in a list lists keys, but for one that ends a list of JWSs. -/
def ListsKeys (ts : List (Token Key)) : Prop :=
  ∀ upto s below, ts = upto ++ .jws s :: below → s.payload.jwks = none →
    below = [] ∧ (upto.filterMap factory).length = upto.length

omit [DecidableEq Key] in
/-- A list starts with a statement of an issuer with keys in the key jar. -/
def StartsKnown (jar : Jar) (ts : List (Token Key)) : Prop :=
  ∃ first rest, ts = .jws first :: rest ∧ KeyStore.contains jar first.payload.iss = true

/-- Neither the verifier nor the policies raise on a list: it starts with a JWS, and if that
    is one of an issuer with keys in the key jar, the statements are signed from above and
    list keys, the restrictions can be checked and, if they are met, the policies combine
    and apply. -/
def GoesThrough (ho : HashOrder) (jar : Jar) (ts : List (Token Key)) : Prop :=
  (∃ first rest, ts = .jws first :: rest) ∧
    (StartsKnown jar ts → SignedFromAbove jar (ts.filterMap factory) ∧ ListsKeys ts ∧
      ∃ met, meetsRestrictions (payloads ts) = .ok met ∧
        (met = true → ∃ processed,
          TrustChainPolicy.call ho "" (trustChainOf ts) = .ok () processed))

/-- Every list goes through, with the same statements at its end, when those before it have
    been gone through. -/
def AllGoThrough (ho : HashOrder) (ends : List (Token Key)) (chains : List (List (Token Key)))
    (jar : Jar) : Prop :=
  RunMeets (fun c => TrustChainVerifier.call (c ++ ends))
    (fun jar c => GoesThrough ho jar (c ++ ends)) jar chains

/-- The loop of `verify_trust_chain` gets through a list exactly if its statements are signed
    from above and all list keys, but for one that has as many before it as are counted. -/
theorem exists_verifyLoop_iff {n : Nat} {ves : List (Statement Key)} {ts : List (Token Key)}
    {jar : Jar} :
    (∃ ves' jar', verifyLoop n ves ts jar = .ok ves' jar') ↔
      SignedFromAbove jar (ts.filterMap factory) ∧
        ∀ upto s below, ts = upto ++ .jws s :: below → s.payload.jwks = none →
          ves.length + (upto.filterMap factory).length = n := by
  induction ts generalizing ves jar with
  | nil => exact ⟨fun _ => ⟨signedFromAbove_nil, by simp⟩, fun _ => ⟨ves, jar, rfl⟩⟩
  | cons t ts ih =>
      cases t with
      | text raw =>
          -- what is no JWS is passed over
          have hstep : verifyStatement n ves (.text raw) jar = .ok ves jar := rfl
          rw [verifyLoop, bind_of_ok hstep, ih]
          refine and_congr_right fun _ =>
            ⟨fun h upto s below hsplit => ?_, fun h upto s below hsplit => ?_⟩
          · cases upto with
            | nil => exact absurd (List.cons.inj hsplit).1 (by simp)
            | cons t upto =>
                obtain ⟨rfl, htail⟩ := List.cons.inj hsplit
                exact h upto s below htail
          · exact h (.text raw :: upto) s below (by rw [hsplit]; rfl)
      | jws s =>
          have hstep : verifyStatement n ves (.jws s) jar = _ := verifyStatement_apply (factory_jws s)
          rw [List.filterMap_cons_some (factory_jws s), signedFromAbove_cons, verifyLoop]
          by_cases hsigner : s.signer ∈ keysOf jar s.payload.iss
          · rw [if_pos hsigner] at hstep
            by_cases hmissing : s.payload.jwks = none ∧ ves.length ≠ n
            · -- no keys, and further statements to come
              rw [if_pos hmissing] at hstep
              rw [bind_of_error hstep]
              refine ⟨by simp, ?_⟩
              rintro ⟨-, hkeys⟩
              exact absurd (hkeys [] s ts rfl hmissing.1) hmissing.2
            · rw [if_neg hmissing] at hstep
              rw [bind_of_ok hstep, ih, List.length_append, List.length_singleton]
              constructor
              · rintro ⟨hsigned, hkeys⟩
                refine ⟨⟨hsigner, hsigned⟩, fun upto u below hsplit hnone => ?_⟩
                cases upto with
                | nil =>
                    obtain ⟨heq, rfl⟩ := List.cons.inj hsplit
                    obtain rfl := Token.jws.inj heq
                    exact not_not.mp fun hlen => hmissing ⟨hnone, hlen⟩
                | cons t upto =>
                    obtain ⟨rfl, htail⟩ := List.cons.inj hsplit
                    have hlen := hkeys upto u below htail hnone
                    rw [List.filterMap_cons_some (factory_jws s), List.length_cons]
                    omega
              · rintro ⟨⟨-, hsigned⟩, hkeys⟩
                refine ⟨hsigned, fun upto u below hsplit hnone => ?_⟩
                have hlen := hkeys (.jws s :: upto) u below (by rw [hsplit]; rfl) hnone
                rw [List.filterMap_cons_some (factory_jws s), List.length_cons] at hlen
                omega
          · rw [if_neg hsigner] at hstep
            rw [bind_of_error hstep]
            refine ⟨by simp, ?_⟩
            rintro ⟨⟨hin, -⟩, -⟩
            exact absurd hin hsigner

omit [KeyStore Jar Key] [DecidableEq Key] in
/-- Only the last statement of a list of JWSs has as many before it as are counted. -/
theorem listsKeys_iff {first : SignedStatement Key} {rest : List (Token Key)} :
    ListsKeys (.jws first :: rest) ↔
      ∀ upto s below, (.jws first :: rest : List (Token Key)) = upto ++ .jws s :: below →
        s.payload.jwks = none →
          ([] : List (Statement Key)).length + (upto.filterMap factory).length = rest.length := by
  refine forall_congr' fun upto => forall_congr' fun s => forall_congr' fun below =>
    imp_congr_right fun hsplit => imp_congr_right fun _ => ?_
  have hlen : rest.length + 1 = upto.length + (below.length + 1) := by
    rw [← List.length_cons, hsplit, List.length_append, List.length_cons]
  have hle : (upto.filterMap factory).length ≤ upto.length := List.length_filterMap_le factory upto
  rw [List.length_nil, ← List.length_eq_zero_iff]
  omega

/-- A list fails unless it goes through. -/
theorem chainFails_eq_false_iff_goesThrough {ts : List (Token Key)} {jar : Jar} :
    chainFails ho jar ts = false ↔ GoesThrough ho jar ts := by
  cases ts with
  | nil =>
      have hraise : TrustChainVerifier.call ([] : List (Token Key)) jar = .error .indexError jar :=
        rfl
      simp [chainFails, hraise, GoesThrough]
  | cons t rest =>
      cases t with
      | text raw =>
          have hraise : ∃ e, TrustChainVerifier.call (.text raw :: rest) jar = .error e jar :=
            ⟨_, rfl⟩
          obtain ⟨e, hraise⟩ := hraise
          simp [chainFails, hraise, GoesThrough]
      | jws first =>
          have hknown : StartsKnown jar (.jws first :: rest) ↔
              KeyStore.contains jar first.payload.iss = true := by
            simp [StartsKnown]
          have hloop : (∃ ves jar', verifyLoop rest.length [] (.jws first :: rest) jar =
              .ok ves jar') ↔ _ := exists_verifyLoop_iff
          rw [← listsKeys_iff] at hloop
          rw [GoesThrough, hknown, and_iff_right ⟨first, rest, rfl⟩]
          by_cases hanchor : KeyStore.contains jar first.payload.iss = true
          · rw [forall_prop_of_true hanchor]
            cases hverify : verifyLoop rest.length [] (.jws first :: rest) jar with
            | error err jar' =>
                -- a statement is refused, and the verifier raises
                have hnot : ¬ (SignedFromAbove jar ((.jws first :: rest : List (Token Key)).filterMap
                    factory) ∧ ListsKeys (.jws first :: rest)) := by
                  intro hok
                  obtain ⟨ves, jar'', hok⟩ := hloop.mpr hok
                  exact absurd (hverify.symm.trans hok) (by simp)
                rw [chainFails, call_of_refused hanchor hverify]
                exact ⟨fun h => absurd h (by simp), fun h => absurd ⟨h.1, h.2.1⟩ hnot⟩
            | ok ves jar' =>
                obtain ⟨hsigned, hkeys⟩ := hloop.mp ⟨ves, jar', hverify⟩
                rw [chainFails, call_of_verifyLoop hanchor hverify]
                refine Iff.trans ?_ ⟨fun h => ⟨hsigned, hkeys, h⟩, fun h => h.2.2⟩
                cases hmeets : meetsRestrictions (payloads (.jws first :: rest)) with
                | error err => simp
                | ok met =>
                    cases met with
                    | false => simp
                    | true =>
                        cases hpolicy : TrustChainPolicy.call ho ""
                            (trustChainOf (.jws first :: rest)) with
                        | error err processed => simp [hpolicy]
                        | ok u processed => simp [hpolicy]
          -- an anchor whose keys are not known is no failure
          · rw [chainFails, call_of_unknown hanchor]
            exact ⟨fun _ h => absurd h hanchor, fun _ => rfl⟩

/-- All lists go through exactly where they are verified and processed. -/
theorem allGoThrough_iff {ends : List (Token Key)} {chains : List (List (Token Key))} {jar : Jar} :
    AllGoThrough ho ends chains jar ↔ ∃ trustChains jar' processed,
      verifyTrustChains ends chains jar = .ok trustChains jar' ∧
      applyPolicies ho trustChains = .ok processed := by
  rw [← noChainFails_iff]
  exact runMeets_congr fun c _ jar => chainFails_eq_false_iff_goesThrough.symm

/-! ## The keys that they list -/

/-- Some list that starts with a statement of an issuer with keys in the key jar, when those
    before it have been gone through, lists a key for an entity. -/
def ListedAmong (ends : List (Token Key)) (chains : List (List (Token Key))) (jar : Jar)
    (id : EntityId) (k : Key) : Prop :=
  ∃ before c after, chains = before ++ c :: after ∧
    StartsKnown (keyjarAfter ends before jar) (c ++ ends) ∧
    ∃ s ∈ payloads (c ++ ends), s.sub = id ∧ k ∈ s.keys

/-- What a list that stands lists is listed. -/
theorem listedAmong_of_standsAmong {ends : List (Token Key)} {chains : List (List (Token Key))}
    {jar : Jar} {ts : List (Token Key)} (h : StandsAmong ends chains jar ts) {s : Statement Key}
    (hs : s ∈ payloads ts) {k : Key} (hk : k ∈ s.keys) : ListedAmong ends chains jar s.sub k := by
  obtain ⟨before, c, after, hsplit, rfl, hstands⟩ := h
  obtain ⟨first, rest, hfirst⟩ := hstands.starts
  rw [hfirst] at hstands
  exact ⟨before, c, after, hsplit, ⟨first, rest, hfirst, hstands.contains⟩, s, hs, rfl, hk⟩

/-- What the key jar holds when a list has gone through. -/
theorem mem_keysOf_of_goesThrough {ts : List (Token Key)} {jar : Jar} {id : EntityId} {k : Key}
    (h : GoesThrough ho jar ts) :
    k ∈ keysOf (finalState (TrustChainVerifier.call ts jar)) id ↔
      k ∈ keysOf jar id ∨ StartsKnown jar ts ∧ ∃ s ∈ payloads ts, s.sub = id ∧ k ∈ s.keys := by
  obtain ⟨⟨first, rest, rfl⟩, hknown⟩ := h
  rw [finalState_call, verifyTrustChain_cons]
  by_cases hanchor : KeyStore.contains jar first.payload.iss = true
  · have hstarts : StartsKnown jar (.jws first :: rest) := ⟨first, rest, rfl, hanchor⟩
    obtain ⟨hsigned, hkeys, -⟩ := hknown hstarts
    obtain ⟨ves, jar', hloop⟩ := exists_verifyLoop_iff.mpr ⟨hsigned, listsKeys_iff.mp hkeys⟩
    rw [if_pos hanchor, bind_of_ok hloop, finalState_lift, (verifyLoop_eq_ok hloop).2.2 id k,
      HeldOrListed, and_iff_right hstarts, payloads]
    simp
  · rw [if_neg hanchor, finalState_ok]
    refine ⟨Or.inl, fun h => h.resolve_right ?_⟩
    rintro ⟨⟨first', rest', heq, hanchor'⟩, -⟩
    obtain ⟨heq, -⟩ := List.cons.inj heq
    exact hanchor (Token.jws.inj heq ▸ hanchor')

/-- What it holds when all have. -/
theorem mem_keysOf_keyjarAfter {ends : List (Token Key)} {chains : List (List (Token Key))}
    {jar : Jar} {id : EntityId} {k : Key} (h : AllGoThrough ho ends chains jar) :
    k ∈ keysOf (keyjarAfter ends chains jar) id ↔
      k ∈ keysOf jar id ∨ ListedAmong ends chains jar id k := by
  induction chains generalizing jar with
  | nil => simp [keyjarAfter, ListedAmong]
  | cons c chains ih =>
      obtain ⟨hhere, hrest⟩ := h
      rw [keyjarAfter, runState_cons, ← keyjarAfter, ih hrest, mem_keysOf_of_goesThrough hhere,
        or_assoc]
      refine or_congr_right ?_
      constructor
      · rintro (⟨hstarts, hlisted⟩ | ⟨before, c', after, rfl, hstarts, hlisted⟩)
        · exact ⟨[], c, chains, rfl, hstarts, hlisted⟩
        · exact ⟨c :: before, c', after, rfl, hstarts, hlisted⟩
      · rintro ⟨before, c', after, hsplit, hstarts, hlisted⟩
        cases before with
        | nil =>
            obtain ⟨rfl, -⟩ := List.cons.inj hsplit
            exact Or.inl ⟨hstarts, hlisted⟩
        | cons b before =>
            obtain ⟨rfl, htail⟩ := List.cons.inj hsplit
            exact Or.inr ⟨before, c', after, htail, hstarts, hlisted⟩

/-! ## The trust chains of an entity -/

omit [KeyStore Jar Key] [DecidableEq Key] in
/-- The entity configuration at the end of the lists that are found. -/
def leafTokens (leafEc : Option (SelfSigned Key)) : List (Token Key) :=
  leafEc.toList.map fun config => .jws config.jws

/-- What is found for an entity. -/
def foundFor (env : CollectorEnv Key) (entityId : EntityId) (st : CollectorState Key) :
    Except Exc (List (List (Token Key)) × Option (SelfSigned Key)) :=
  outcome (collectTrustChains env entityId (.text "") "" [] st)

/-- Trust chains are returned exactly where all lists that are found go through. -/
theorem exists_getVerifiedTrustChains_iff {e : EntityId} {fe : FederationState Jar Key} :
    (∃ tcs fe', getVerifiedTrustChains ho env e fe = .ok tcs fe') ↔
      ∃ chains leafEc, foundFor env e fe.collector = .ok (chains, leafEc) ∧
        AllGoThrough ho (leafTokens leafEc) chains fe.keyjar := by
  unfold getVerifiedTrustChains foundFor
  constructor
  · rintro ⟨tcs, fe', h⟩
    obtain ⟨⟨chains, leafEc⟩, fe₁, hcollect, hverified⟩ := bind_eq_ok.mp h
    obtain ⟨c, hcollected, rfl⟩ := inCollector_eq_ok.mp hcollect
    refine ⟨chains, leafEc, outcome_eq_ok.mpr ⟨c, hcollected⟩, ?_⟩
    by_cases hlen : chains.length = 0
    · obtain rfl := List.length_eq_zero_iff.mp hlen
      trivial
    · simp only [hlen, if_false] at hverified
      obtain ⟨made, fe₂, hmade, hlift⟩ := bind_eq_ok.mp hverified
      obtain ⟨jar, hverify, rfl⟩ := inKeyjar_eq_ok.mp hmade
      exact allGoThrough_iff.mpr ⟨made, jar, tcs, hverify, (lift_eq_ok.mp hlift).1⟩
  · rintro ⟨chains, leafEc, hfound, hall⟩
    obtain ⟨c, hcollected⟩ := outcome_eq_ok.mp hfound
    rw [bind_of_ok (inCollector_of_ok hcollected)]
    by_cases hlen : chains.length = 0
    · simp only [hlen, if_true]
      exact ⟨_, _, rfl⟩
    · simp only [hlen, if_false]
      obtain ⟨made, jar, processed, hverify, hprocess⟩ := allGoThrough_iff.mp hall
      have hmade : inKeyjar (verifyTrustChains (leafTokens leafEc) chains)
          { fe with collector := c } = .ok made { fe with collector := c, keyjar := jar } :=
        inKeyjar_of_ok hverify
      exact ⟨processed, _, by rw [← leafTokens, bind_of_ok hmade, hprocess]; rfl⟩

/-- What the trust chains that are returned say, told from the lists that are found, and the
    key jar that they leave. -/
theorem of_getVerifiedTrustChains {e : EntityId} {tcs : List (TrustChain Key)}
    {fe fe' : FederationState Jar Key} (h : getVerifiedTrustChains ho env e fe = .ok tcs fe')
    {chains : List (List (Token Key))} {leafEc : Option (SelfSigned Key)}
    (hfound : foundFor env e fe.collector = .ok (chains, leafEc)) :
    fe'.keyjar = keyjarAfter (leafTokens leafEc) chains fe.keyjar ∧
      ∀ {P : TrustChain Key → Prop} {Q : List (Token Key) → Prop}, (∀ ts tc, payloads ts ≠ [] →
          TrustChainPolicy.call ho "" (trustChainOf ts) = .ok () tc → (P tc ↔ Q ts)) →
        ((∃ tc ∈ tcs, P tc) ↔
          ∃ ts, StandsAmong (leafTokens leafEc) chains fe.keyjar ts ∧ Q ts) := by
  obtain ⟨c, hcollected⟩ := outcome_eq_ok.mp hfound
  unfold getVerifiedTrustChains at h
  rw [bind_of_ok (inCollector_of_ok hcollected)] at h
  by_cases hlen : chains.length = 0
  · -- nothing is found, and no chain is made
    simp only [hlen, if_true, pure_apply, EStateM.Result.ok.injEq] at h
    obtain ⟨rfl, rfl⟩ := h
    obtain rfl := List.length_eq_zero_iff.mp hlen
    refine ⟨rfl, fun _ => ⟨?_, ?_⟩⟩
    · rintro ⟨tc, htc, -⟩
      exact absurd htc List.not_mem_nil
    · rintro ⟨ts, ⟨before, c', after, hsplit, -⟩, -⟩
      exact absurd hsplit (by simp)
  · simp only [hlen, if_false] at h
    obtain ⟨made, fe₂, hmade, hlift⟩ := bind_eq_ok.mp h
    obtain ⟨jar, hverify, rfl⟩ := inKeyjar_eq_ok.mp hmade
    obtain ⟨hprocess, rfl⟩ := lift_eq_ok.mp hlift
    exact ⟨(keyjarAfter_of_verifyTrustChains hverify).symm, exists_trusted_iff hverify hprocess⟩

end Fedservice.Entity
