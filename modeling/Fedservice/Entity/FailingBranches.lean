/-
  Fedservice.Entity.FailingBranches

  An entity may have several paths to its trust anchors, and a path may fail: an
  authority does not answer, a signature has no key, policies conflict.  The
  trust chains of the other paths are what `get_verified_trust_chains` makes of
  the federation without the paths that fail, and that is what it returns exactly
  where no path fails.
-/

import Fedservice.Entity.FederationEntity
import Fedservice.Entity.Function.CompleteChains
import Fedservice.Entity.VerifiedTrustChains

namespace Fedservice.Entity

open Fedservice.Lib Fedservice.Py Fedservice.EntityStatement Fedservice.Crypto
  Fedservice.Entity.Function

variable {Jar Key : Type}

/-! ## The federation without the branches that fail -/

section Superiors

variable [DecidableEq Key] (env : CollectorEnv Key) (stopAt : EntityId)

/-- The tree of superiors without the branches that fail: those of the authorities
    above are left out first, and an authority whose own branch then still fails
    is no authority hint. -/
def soundSuperiors : Nat → EntityId → Option (Statement Key) → Except Exc (Function.Tree Key)
  | 0, _, _ => throw .recursionError
  | depth + 1, entityId, entityConfiguration =>
      match entityConfiguration with
      | none => throw .typeError
      | some config =>
          match config.authorityHints with
          | none => return .empty
          | some hints =>
              let branchOf := branch env (soundSuperiors depth) entityId
              if config.iss = stopAt then return .empty
              else growTree branchOf .empty (hints.filter fun authority => (branchOf authority).isOk)

/-- No branch fails to be collected: every authority on the way up answers, about
    an entity that lists it, and has a configuration that is not about to expire;
    and the way up ends before the stack does. -/
def AllCollected : Nat → EntityId → Option (Statement Key) → Prop
  | 0, _, _ => False
  | depth + 1, entityId, entityConfiguration => ∃ config, entityConfiguration = some config ∧
      ∀ authority, Hints stopAt config authority →
        (entityId = authority ∧ entityId ∈ env.trustAnchors) ∨
        statementAbout env entityId authority = .ok none ∨
        ∃ statement own, statementAbout env entityId authority = .ok (some statement) ∧
          configuration env authority = .ok own ∧ isCurrent env own.payload = true ∧
          AllCollected depth authority (some own.payload)

variable {env stopAt}

/-- What it takes for a branch to be collected. -/
theorem branch_isOk_iff {above : EntityId → Option (Statement Key) → Except Exc (Function.Tree Key)}
    (hnone : ∀ a, ¬ ∃ tree, above a none = .ok tree) {e a : EntityId} :
    (∃ value, branch env above e a = .ok value) ↔
      (e = a ∧ e ∈ env.trustAnchors) ∨ statementAbout env e a = .ok none ∨
      ∃ statement own, statementAbout env e a = .ok (some statement) ∧
        configuration env a = .ok own ∧ isCurrent env own.payload = true ∧
        ∃ tree, above a (some own.payload) = .ok tree := by
  unfold branch
  by_cases hself : e = a ∧ e ∈ env.trustAnchors
  · have hcond : (e = a && decide (e ∈ env.trustAnchors)) = true := by simpa using hself
    rw [if_pos hcond]
    exact ⟨fun _ => Or.inl hself, fun _ => ⟨none, rfl⟩⟩
  · have hcond : ¬ (e = a && decide (e ∈ env.trustAnchors)) = true := by simpa using hself
    rw [if_neg hcond]
    constructor
    · rintro ⟨value, hvalue⟩
      obtain ⟨found, hsaid, hvalue⟩ := except_bind_eq_ok.mp hvalue
      cases found with
      | none => exact Or.inr (Or.inl hsaid)
      | some statement =>
          obtain ⟨own, hown, hvalue⟩ := except_bind_eq_ok.mp hvalue
          obtain ⟨tree, htree, -⟩ := except_bind_eq_ok.mp hvalue
          by_cases hcurrent : isCurrent env own.payload = true
          · rw [if_pos hcurrent] at htree
            exact Or.inr (Or.inr ⟨statement, own, hsaid, hown, hcurrent, tree, htree⟩)
          · rw [if_neg hcurrent] at htree
            exact absurd ⟨tree, htree⟩ (hnone a)
    · rintro (h | hsaid | ⟨statement, own, hsaid, hown, hcurrent, tree, htree⟩)
      · exact absurd h hself
      · exact ⟨none, by rw [hsaid]; rfl⟩
      · refine ⟨some (statement, tree), ?_⟩
        rw [hsaid, except_ok_bind]
        simp only [hown, except_ok_bind, hcurrent, if_true, htree]
        rfl

/-- Nobody gets past a configuration that is gone from the cache. -/
theorem superiors_none {depth : Nat} (a : EntityId) :
    ¬ ∃ tree, superiors env stopAt depth a none = .ok tree := by
  rintro ⟨tree, htree⟩
  cases depth with
  | zero => exact except_throw_ne_ok htree
  | succ depth => exact except_throw_ne_ok htree

/-- The tree of superiors can be had exactly if no branch fails. -/
theorem superiors_isOk_iff {depth : Nat} {e : EntityId} {config : Option (Statement Key)} :
    (∃ tree, superiors env stopAt depth e config = .ok tree) ↔
      AllCollected env stopAt depth e config := by
  induction depth generalizing e config with
  | zero =>
      refine ⟨?_, False.elim⟩
      rintro ⟨tree, htree⟩
      exact except_throw_ne_ok htree
  | succ depth ih =>
      cases config with
      | none =>
          refine ⟨fun h => absurd h (superiors_none e), ?_⟩
          rintro ⟨config, hnone, -⟩
          exact absurd hnone (by simp)
      | some config =>
          have hbranch : ∀ a,
              (∃ value, branch env (superiors env stopAt depth) e a = .ok value) ↔ _ :=
            fun a => branch_isOk_iff superiors_none
          constructor
          · rintro ⟨tree, htree⟩
            refine ⟨config, rfl, fun a ha => ?_⟩
            obtain ⟨value, hmem⟩ := exists_mem_superiors htree ha
            have hvalue := ((mem_superiors htree).mp hmem).2
            simpa only [ih] using (hbranch a).mp ⟨value, hvalue⟩
          · rintro ⟨config', heq, hall⟩
            obtain rfl := Option.some.inj heq
            refine superiors_of_branches fun a ha => (hbranch a).mpr ?_
            simpa only [ih] using hall a ha

omit [DecidableEq Key] in
/-- Loops over the hints agree if the branches do. -/
theorem growTree_congr
    {branchOf branchOf' : EntityId → Except Exc (Option (Token Key × Function.Tree Key))}
    {hints : List EntityId} (t : Function.Tree Key) (h : ∀ a ∈ hints, branchOf a = branchOf' a) :
    growTree branchOf t hints = growTree branchOf' t hints := by
  induction hints generalizing t with
  | nil => rfl
  | cons a rest ih =>
      rw [growTree, growTree, h a (List.mem_cons_self ..)]
      cases branchOf' a with
      | error err => rfl
      | ok value => exact ih (t.set a value) fun b hb => h b (List.mem_cons_of_mem a hb)

/-- A branch that can be had depends on the tree above it and on nothing else there. -/
theorem branch_mono
    {above above' : EntityId → Option (Statement Key) → Except Exc (Function.Tree Key)}
    (hmono : ∀ a config tree, above a config = .ok tree → above' a config = .ok tree)
    {e a : EntityId} {value : Option (Token Key × Function.Tree Key)}
    (h : branch env above e a = .ok value) : branch env above' e a = .ok value := by
  unfold branch at h ⊢
  by_cases hself : (e = a && decide (e ∈ env.trustAnchors)) = true
  · rwa [if_pos hself] at h ⊢
  · rw [if_neg hself] at h ⊢
    obtain ⟨found, hsaid, h⟩ := except_bind_eq_ok.mp h
    rw [hsaid, except_ok_bind]
    cases found with
    | none => exact h
    | some statement =>
        obtain ⟨own, hown, h⟩ := except_bind_eq_ok.mp h
        obtain ⟨tree, htree, h⟩ := except_bind_eq_ok.mp h
        simp only [hown, except_ok_bind, hmono _ _ _ htree]
        exact h

/-- What a branch holds is a JWS. -/
theorem jws_of_branch {above : EntityId → Option (Statement Key) → Except Exc (Function.Tree Key)}
    {e a : EntityId} {s : Token Key} {tree : Function.Tree Key}
    (h : branch env above e a = .ok (some (s, tree))) : ∃ u, s = .jws u := by
  obtain ⟨-, hsaid, -⟩ := branch_eq_some h
  exact (statementAbout_eq_some hsaid).2

/-- Where no branch fails none is left out. -/
theorem soundSuperiors_of_superiors {depth : Nat} {e : EntityId}
    {config : Option (Statement Key)} {tree : Function.Tree Key}
    (h : superiors env stopAt depth e config = .ok tree) :
    soundSuperiors env stopAt depth e config = .ok tree := by
  induction depth generalizing e config tree with
  | zero => exact absurd h except_throw_ne_ok
  | succ depth ih =>
      cases config with
      | none => exact absurd h except_throw_ne_ok
      | some config =>
          rw [superiors] at h
          rw [soundSuperiors]
          cases hhints : config.authorityHints with
          | none =>
              simp only [hhints] at h ⊢
              exact h
          | some hints =>
              simp only [hhints] at h ⊢
              by_cases hstop : config.iss = stopAt
              · rwa [if_pos hstop] at h ⊢
              · rw [if_neg hstop] at h ⊢
                -- the tree has been grown, so every branch came out, with or without what fails
                -- above
                have hsame : ∀ a ∈ hints, branch env (superiors env stopAt depth) e a =
                    branch env (soundSuperiors env stopAt depth) e a := by
                  intro a ha
                  obtain ⟨value, hvalue, -⟩ := mem_growTree_of_hint h ha
                  rw [hvalue, branch_mono (fun _ _ _ habove => ih habove) hvalue]
                have hall : hints.filter (fun a =>
                    (branch env (soundSuperiors env stopAt depth) e a).isOk) = hints := by
                  refine List.filter_eq_self.mpr fun a ha => ?_
                  obtain ⟨value, hvalue, -⟩ := mem_growTree_of_hint h ha
                  rw [← hsame a ha, hvalue]
                  rfl
                rw [hall, ← growTree_congr .empty hsame]
                exact h

end Superiors

/-! ## Chains that fail -/

section Chains

variable [KeyStore Jar Key] [DecidableEq Key] (ho : HashOrder)

/-- The verifier or the policies raise on a chain. -/
def chainFails (jar : Jar) (chain : List (Token Key)) : Bool :=
  match TrustChainVerifier.call chain jar with
  | .error _ _ => true
  | .ok none _ => false
  | .ok (some trustChain) _ =>
      match TrustChainPolicy.call ho "" trustChain with
      | .error _ _ => true
      | .ok _ _ => false

/-- The chains that do not fail, with the keys that those before them leave. -/
def soundChains (entityStatements : List (Token Key)) : Jar → List (List (Token Key)) →
    List (List (Token Key))
  | _, [] => []
  | jar, c :: chains =>
      if chainFails ho jar (c ++ entityStatements) then soundChains entityStatements jar chains
      else c :: soundChains entityStatements
        (finalState (TrustChainVerifier.call (c ++ entityStatements) jar)) chains

omit [KeyStore Jar Key] [DecidableEq Key] in
/-- The trust chain that the verifier makes of a chain it accepts. -/
def trustChainOf (chain : List (Token Key)) : TrustChain Key where
  anchor := ((payloads chain).head?.map (·.iss)).getD ""
  chain := chain
  exp := trustChainExpiresAt (payloads chain)
  issPath := ((payloads chain).map (·.iss)).reverse
  verifiedChain := payloads chain

/-- A chain that begins with a trust anchor holds: each statement is signed with a key
    of its issuer, from the key jar or from further up; each but the last lists keys;
    the restrictions can be checked; and if they are met, the policies combine and
    apply. -/
def ChainHolds (jar : Jar) (chain : List (Token Key)) : Prop :=
  ∀ first rest, chain.filterMap factory = first :: rest →
    KeyStore.contains jar first.payload.iss = true →
      SignedFromAbove jar (first :: rest) ∧
      (∀ s ∈ (first :: rest).dropLast, s.payload.jwks ≠ none) ∧
      ∃ met, meetsRestrictions (payloads chain) = .ok met ∧
        (met = true → ∃ processed,
          TrustChainPolicy.call ho "" (trustChainOf chain) = .ok () processed)

omit [KeyStore Jar Key] [DecidableEq Key] in
/-- All but the last one: the first one too, if there are others. -/
theorem forall_mem_dropLast_cons {P : SignedStatement Key → Prop} {s : SignedStatement Key}
    {stmts : List (SignedStatement Key)} :
    (∀ u ∈ (s :: stmts).dropLast, P u) ↔ (stmts ≠ [] → P s) ∧ ∀ u ∈ stmts.dropLast, P u := by
  cases stmts with
  | nil => simp
  | cons v stmts =>
      rw [List.dropLast_cons_of_ne_nil (by simp), List.forall_mem_cons]
      exact and_congr_left' ⟨fun hs _ => hs, fun hs => hs (by simp)⟩

/-- The loop of `verify_trust_chain` gets through a list of JWSs exactly if they are
    signed from above and all but the last list keys. -/
theorem verifyLoop_isOk_iff {n : Nat} {ves : List (Statement Key)}
    {stmts : List (SignedStatement Key)} {jar : Jar} (hlen : ves.length + stmts.length = n + 1) :
    (∃ ves' jar', verifyLoop n ves (stmts.map Token.jws) jar = .ok ves' jar') ↔
      SignedFromAbove jar stmts ∧ ∀ s ∈ stmts.dropLast, s.payload.jwks ≠ none := by
  induction stmts generalizing ves jar with
  | nil => exact ⟨fun _ => ⟨signedFromAbove_nil, by simp⟩, fun _ => ⟨ves, jar, rfl⟩⟩
  | cons s stmts ih =>
      rw [List.length_cons] at hlen
      -- a statement's keys are added for those below it, so the last one needs none
      have hlast : stmts ≠ [] ↔ ves.length ≠ n := by
        rw [ne_eq, ← List.length_eq_zero_iff]
        omega
      have hstep : verifyStatement n ves (.jws s) jar = _ := verifyStatement_apply (factory_jws s)
      rw [signedFromAbove_cons, forall_mem_dropLast_cons, hlast, List.map_cons, verifyLoop]
      by_cases hsigner : s.signer ∈ keysOf jar s.payload.iss
      · rw [if_pos hsigner] at hstep
        by_cases hmissing : s.payload.jwks = none ∧ ves.length ≠ n
        · -- no keys, and further statements to come
          rw [if_pos hmissing] at hstep
          rw [bind_of_error hstep]
          refine ⟨by simp, ?_⟩
          rintro ⟨-, hkeys, -⟩
          exact absurd hmissing.1 (hkeys hmissing.2)
        · rw [if_neg hmissing] at hstep
          have hnext : (ves ++ [s.payload]).length + stmts.length = n + 1 := by
            rw [List.length_append, List.length_singleton]
            omega
          have hown : ves.length ≠ n → s.payload.jwks ≠ none :=
            fun hmore hnone => hmissing ⟨hnone, hmore⟩
          rw [bind_of_ok hstep, ih hnext]
          constructor
          · rintro ⟨hsigned, hkeys⟩
            exact ⟨⟨hsigner, hsigned⟩, hown, hkeys⟩
          · rintro ⟨⟨-, hsigned⟩, -, hkeys⟩
            exact ⟨hsigned, hkeys⟩
      · rw [if_neg hsigner] at hstep
        rw [bind_of_error hstep]
        refine ⟨by simp, ?_⟩
        rintro ⟨⟨hin, -⟩, -⟩
        exact absurd hin hsigner

omit [KeyStore Jar Key] [DecidableEq Key] in
theorem filterMap_factory_map_jws (stmts : List (SignedStatement Key)) :
    (stmts.map Token.jws).filterMap factory = stmts := by
  rw [List.filterMap_map]
  exact List.filterMap_some

variable {ho}

/-- What the verifier does with a list that begins with a JWS. -/
theorem verifyTrustChain_cons (first : SignedStatement Key) (rest : List (Token Key)) (jar : Jar) :
    verifyTrustChain (.jws first :: rest) jar =
      if KeyStore.contains jar first.payload.iss = true then
        (verifyLoop rest.length [] (.jws first :: rest) >>= fun ves =>
          lift (acceptVerified ves)) jar
      else .ok [] jar := by
  have htrusted : trustedAnchor jar (.jws first : Token Key) =
      .ok (KeyStore.contains jar first.payload.iss) := rfl
  rw [verifyTrustChain, bind_of_ok (get_apply jar), htrusted, bind_of_ok (lift_ok _ jar)]
  cases KeyStore.contains jar first.payload.iss <;> rfl

/-- What it makes of JWSs that are verified one by one. -/
theorem call_of_verifyLoop {first : SignedStatement Key} {rest : List (Token Key)}
    {ves : List (Statement Key)} {jar jar' : Jar}
    (hanchor : KeyStore.contains jar first.payload.iss = true)
    (hloop : verifyLoop rest.length [] (.jws first :: rest) jar = .ok ves jar') :
    TrustChainVerifier.call (.jws first :: rest) jar =
      match meetsRestrictions (payloads (.jws first :: rest)) with
      | .error err => .error err jar'
      | .ok false => .ok none jar'
      | .ok true => .ok (some (trustChainOf (.jws first :: rest))) jar' := by
  have hves : ves = payloads (.jws first :: rest) := (verifyLoop_eq_ok hloop).1
  have hcons : payloads (.jws first :: rest) = first.payload :: payloads rest := rfl
  have hverify : verifyTrustChain (.jws first :: rest) jar = lift (acceptVerified ves) jar' := by
    rw [verifyTrustChain_cons, if_pos hanchor, bind_of_ok hloop]
  rw [hves, acceptVerified, hcons] at hverify
  rw [hcons]
  unfold TrustChainVerifier.call
  cases hmeets : meetsRestrictions (first.payload :: payloads rest) with
  | error err =>
      rw [hmeets] at hverify
      exact bind_of_error hverify
  | ok met =>
      rw [hmeets] at hverify
      cases met with
      | false => exact bind_of_ok hverify
      | true =>
          rw [bind_of_ok hverify]
          rfl

omit [DecidableEq Key] in
theorem chainHolds_cons_iff {first : SignedStatement Key} {rest : List (SignedStatement Key)}
    {jar : Jar} :
    ChainHolds ho jar ((first :: rest).map Token.jws) ↔
      (KeyStore.contains jar first.payload.iss = true →
        (SignedFromAbove jar (first :: rest) ∧
          ∀ s ∈ (first :: rest).dropLast, s.payload.jwks ≠ none) ∧
        ∃ met, meetsRestrictions (payloads ((first :: rest).map Token.jws)) = .ok met ∧
          (met = true → ∃ processed, TrustChainPolicy.call ho ""
            (trustChainOf ((first :: rest).map Token.jws)) = .ok () processed)) := by
  rw [ChainHolds, filterMap_factory_map_jws]
  constructor
  · intro h hanchor
    obtain ⟨hsigned, hkeys, hmeets⟩ := h first rest rfl hanchor
    exact ⟨⟨hsigned, hkeys⟩, hmeets⟩
  · intro h first' rest' heq hanchor
    obtain ⟨rfl, rfl⟩ := List.cons.inj heq
    obtain ⟨⟨hsigned, hkeys⟩, hmeets⟩ := h hanchor
    exact ⟨hsigned, hkeys, hmeets⟩

/-- Where a statement is refused, the verifier raises. -/
theorem call_of_refused {first : SignedStatement Key} {rest : List (Token Key)}
    {jar jar' : Jar} {err : Exc} (hanchor : KeyStore.contains jar first.payload.iss = true)
    (hraise : verifyLoop rest.length [] (.jws first :: rest) jar = .error err jar') :
    TrustChainVerifier.call (.jws first :: rest) jar = .error err jar' := by
  refine bind_of_error ?_
  rw [verifyTrustChain_cons, if_pos hanchor, bind_of_error hraise]

/-- The chain of an unknown trust anchor is passed over. -/
theorem call_of_unknown {first : SignedStatement Key} {rest : List (Token Key)}
    {jar : Jar} (hanchor : ¬ KeyStore.contains jar first.payload.iss = true) :
    TrustChainVerifier.call (.jws first :: rest) jar = .ok none jar := by
  have hverify : verifyTrustChain (.jws first :: rest) jar = .ok [] jar := by
    rw [verifyTrustChain_cons, if_neg hanchor]
  exact bind_of_ok hverify

/-- A chain of JWSs fails unless it holds. -/
theorem chainFails_eq_false_iff {stmts : List (SignedStatement Key)} (hne : stmts ≠ [])
    {jar : Jar} :
    chainFails ho jar (stmts.map Token.jws) = false ↔ ChainHolds ho jar (stmts.map Token.jws) := by
  obtain ⟨first, rest, rfl⟩ := List.exists_cons_of_ne_nil hne
  have hloop : (∃ ves jar', verifyLoop (rest.map Token.jws).length []
      (.jws first :: rest.map Token.jws) jar = .ok ves jar') ↔ _ :=
    @verifyLoop_isOk_iff _ _ _ _ _ _ (first :: rest) jar (by simp)
  rw [chainHolds_cons_iff, List.map_cons]
  by_cases hanchor : KeyStore.contains jar first.payload.iss = true
  · by_cases hsigned : SignedFromAbove jar (first :: rest) ∧
        ∀ s ∈ (first :: rest).dropLast, s.payload.jwks ≠ none
    · obtain ⟨ves, jar', hok⟩ := hloop.mpr hsigned
      rw [chainFails, call_of_verifyLoop hanchor hok]
      refine Iff.trans ?_ ⟨fun h _ => ⟨hsigned, h⟩, fun h => (h hanchor).2⟩
      cases hmeets : meetsRestrictions (payloads (.jws first :: rest.map Token.jws)) with
      | error err => simp
      | ok met =>
          cases met with
          | false => simp
          | true =>
              cases hpolicy : TrustChainPolicy.call ho ""
                  (trustChainOf (.jws first :: rest.map Token.jws)) with
              | error err processed => simp [hpolicy]
              | ok u processed => simp [hpolicy]
    -- a statement is refused, and the verifier raises
    · refine ⟨fun hfails => ?_, fun h => absurd (h hanchor).1 hsigned⟩
      cases hraise : verifyLoop (rest.map Token.jws).length []
          (.jws first :: rest.map Token.jws) jar with
      | ok ves jar' => exact absurd (hloop.mp ⟨ves, jar', hraise⟩) hsigned
      | error err jar' =>
          rw [chainFails, call_of_refused hanchor hraise] at hfails
          exact absurd hfails (by simp)
  -- an anchor whose keys are not known is no failure
  · rw [chainFails, call_of_unknown hanchor]
    exact ⟨fun _ h => absurd h hanchor, fun _ => rfl⟩

/-! ## Chains that all hold -/

/-- One chain of the list. -/
theorem chainFails_eq_false {jar : Jar} {chain : List (Token Key)}
    (h : chainFails ho jar chain = false) :
    ∃ found jar', TrustChainVerifier.call chain jar = .ok found jar' ∧
      ∀ trustChain ∈ found, ∃ processed,
        TrustChainPolicy.call ho "" trustChain = .ok () processed := by
  unfold chainFails at h
  cases hcall : TrustChainVerifier.call chain jar with
  | error err jar' => simp [hcall] at h
  | ok found jar' =>
      refine ⟨found, jar', rfl, fun trustChain hmem => ?_⟩
      obtain rfl := Option.mem_def.mp hmem
      simp only [hcall] at h
      cases hpolicy : TrustChainPolicy.call ho "" trustChain with
      | error err processed => simp [hpolicy] at h
      | ok u processed => exact ⟨processed, rfl⟩

/-- The chains of a list, each with the keys that those before it leave. -/
def NoChainFails (ho : HashOrder) (entityStatements : List (Token Key)) (jar : Jar)
    (chains : List (List (Token Key))) : Prop :=
  RunMeets (fun c => TrustChainVerifier.call (c ++ entityStatements))
    (fun jar c => chainFails ho jar (c ++ entityStatements) = false) jar chains

/-- Where no chain fails none is left out, -/
theorem soundChains_of_noChainFails {entityStatements : List (Token Key)}
    {chains : List (List (Token Key))} {jar : Jar}
    (h : NoChainFails ho entityStatements jar chains) :
    soundChains ho entityStatements jar chains = chains := by
  induction chains generalizing jar with
  | nil => rfl
  | cons c chains ih =>
      obtain ⟨hhere, hrest⟩ := h
      have hnot : ¬ chainFails ho jar (c ++ entityStatements) = true := by simp [hhere]
      rw [soundChains, if_neg hnot, ih hrest]

/-- and it is where all are verified and processed. -/
theorem noChainFails_iff {entityStatements : List (Token Key)}
    {chains : List (List (Token Key))} {jar : Jar} :
    NoChainFails ho entityStatements jar chains ↔ ∃ trustChains jar' processed,
      verifyTrustChains entityStatements chains jar = .ok trustChains jar' ∧
      applyPolicies ho trustChains = .ok processed := by
  induction chains generalizing jar with
  | nil => exact ⟨fun _ => ⟨[], jar, [], rfl, rfl⟩, fun _ => trivial⟩
  | cons c chains ih =>
      rw [NoChainFails, RunMeets]
      constructor
      · rintro ⟨hhere, hrest⟩
        obtain ⟨found, jar₁, hcall, hpolicy⟩ := chainFails_eq_false hhere
        -- the keys that this chain leaves are those that the rest is verified with
        rw [hcall, finalState_ok] at hrest
        obtain ⟨trustChains, jar₂, processed, hverify, hprocess⟩ := ih.mp hrest
        have hall : verifyTrustChains entityStatements (c :: chains) jar =
            .ok (found.toList ++ trustChains) jar₂ := by
          rw [verifyTrustChains, bind_of_ok hcall, bind_of_ok hverify, pure_apply]
        cases found with
        | none => exact ⟨trustChains, jar₂, processed, hall, hprocess⟩
        | some trustChain =>
            obtain ⟨first, hfirst⟩ := hpolicy trustChain rfl
            refine ⟨trustChain :: trustChains, jar₂, first :: processed, hall, ?_⟩
            rw [applyPolicies, hfirst, hprocess]
            rfl
      · rintro ⟨trustChains, jar₂, processed, hverify, hprocess⟩
        obtain ⟨found, jar₁, hcall, hverify⟩ := bind_eq_ok.mp hverify
        obtain ⟨later, jar₃, hlater, hpure⟩ := bind_eq_ok.mp hverify
        obtain ⟨rfl, rfl⟩ := EStateM.Result.ok.inj hpure
        rw [hcall, finalState_ok]
        cases found with
        | none =>
            refine ⟨by simp [chainFails, hcall], ih.mpr ⟨later, jar₃, processed, hlater, hprocess⟩⟩
        | some trustChain =>
            rw [Option.toList_some, List.singleton_append, applyPolicies] at hprocess
            cases hpolicy : TrustChainPolicy.call ho "" trustChain with
            | error err first => simp [hpolicy] at hprocess
            | ok u first =>
                simp only [hpolicy] at hprocess
                obtain ⟨rest, hrest, -⟩ := except_bind_eq_ok.mp hprocess
                exact ⟨by simp [chainFails, hcall, hpolicy],
                  ih.mpr ⟨later, jar₃, rest, hlater, hrest⟩⟩

end Chains

/-! ## The trust chains of an entity -/

section TrustChains

variable [KeyStore Jar Key] [DecidableEq Key] (ho : HashOrder) (env : CollectorEnv Key)

/-- What `get_verified_trust_chains` makes of the federation without the branches
    that fail. -/
def withoutFailing (e : EntityId) (config : SelfSigned Key) (jar : Jar) :
    Except Exc (List (TrustChain Key)) := do
  let tree ← soundSuperiors env "" env.recursionLimit e (some config.payload)
  let leafEc := [.jws config.jws]
  let trustChains ← outcome
    (verifyTrustChains leafEc (soundChains ho leafEc jar (tree2chains tree)) jar)
  applyPolicies ho trustChains

/-- No branch fails: all are collected, and each chain holds with the keys that the
    chains before it leave. -/
structure NoBranchFails (e : EntityId) (config : SelfSigned Key) (jar : Jar) : Prop where
  collected : AllCollected env "" env.recursionLimit e (some config.payload)
  hold : ∀ tree, superiors env "" env.recursionLimit e (some config.payload) = .ok tree →
    RunMeets (fun c => TrustChainVerifier.call (c ++ [.jws config.jws]))
      (fun jar c => ChainHolds ho jar (c ++ [.jws config.jws])) jar (tree2chains tree)

variable {ho env}

omit [KeyStore Jar Key] in
/-- What authorities say are JWSs. -/
theorem jws_of_mem_tree2chains {stopAt : EntityId} {depth : Nat} {e : EntityId}
    {config : Option (Statement Key)} {tree : Function.Tree Key}
    (htree : superiors env stopAt depth e config = .ok tree) {c : List (Token Key)}
    (hc : c ∈ tree2chains tree) : ∃ stmts : List (SignedStatement Key), c = stmts.map .jws := by
  induction depth generalizing e config tree c with
  | zero => exact absurd htree except_throw_ne_ok
  | succ depth ih =>
      cases config with
      | none => exact absurd htree except_throw_ne_ok
      | some config =>
          rw [tree2chains_eq, List.mem_map] at hc
          obtain ⟨c, hc, rfl⟩ := hc
          rcases Function.Tree.mem_chains.mp hc with ⟨a, -, rfl⟩ | ⟨a, s, above, hmem, hthrough⟩
          · exact ⟨[], rfl⟩
          · have hvalue := ((mem_superiors htree).mp hmem).2
            obtain ⟨-, -, own, -, habove⟩ := of_branch_eq_some hvalue
            obtain ⟨u, rfl⟩ := jws_of_branch hvalue
            -- the chain ends here, or goes on above the authority
            rcases mem_chainsThrough.mp hthrough with ⟨-, rfl⟩ | ⟨upper, hupper, rfl⟩
            · exact ⟨[u], rfl⟩
            · have hmap : upper.map (·.2) ∈ tree2chains above := by
                rw [tree2chains_eq]
                exact List.mem_map_of_mem hupper
              obtain ⟨stmts, hstmts⟩ := ih habove hmap
              exact ⟨stmts ++ [u], by simp [hstmts]⟩

/-- The collected chains fail exactly where they do not hold. -/
theorem noChainFails_iff_hold {stopAt : EntityId} {depth : Nat} {e : EntityId}
    {config : Option (Statement Key)} {tree : Function.Tree Key}
    (htree : superiors env stopAt depth e config = .ok tree) {leafEc : SignedStatement Key}
    {jar : Jar} :
    NoChainFails ho [.jws leafEc] jar (tree2chains tree) ↔
      RunMeets (fun c => TrustChainVerifier.call (c ++ [.jws leafEc]))
        (fun jar c => ChainHolds ho jar (c ++ [.jws leafEc])) jar (tree2chains tree) := by
  refine runMeets_congr fun c hc jar => ?_
  obtain ⟨stmts, rfl⟩ := jws_of_mem_tree2chains htree hc
  have happend : stmts.map Token.jws ++ [Token.jws leafEc] = (stmts ++ [leafEc]).map .jws := by
    simp
  rw [happend]
  exact chainFails_eq_false_iff (by simp)

variable {entities : Finset EntityId}

omit [KeyStore Jar Key] in
/-- The chains that are collected for an entity with an entity configuration. -/
theorem collectTrustChains_of_leaf (h : Steady env entities) {e : EntityId} (he : e ∈ entities)
    {config : SelfSigned Key} (hleaf : leaf env e = .ok (some config)) {st : CollectorState Key}
    (hst : Reflects env entities st) :
    outcome (collectTrustChains env e (.text "") "" [] st) =
      (superiors env "" env.recursionLimit e (some config.payload) >>= fun tree =>
        .ok (tree2chains tree, some config)) := by
  rw [(h.yieldsPublishedChains he "" st hst).1, publishedChains, collected, hleaf, except_ok_bind]
  cases htree : superiors env "" env.recursionLimit e (some config.payload) with
  | error err => simp [htree]
  | ok tree => simp [htree]

/-- What is returned for such an entity, from there on. -/
theorem getVerifiedTrustChains_of_leaf (h : Steady env entities) {e : EntityId}
    (he : e ∈ entities) {config : SelfSigned Key} (hleaf : leaf env e = .ok (some config))
    {st : FederationState Jar Key} (hst : Reflects env entities st.collector) :
    outcome (getVerifiedTrustChains ho env e st) =
      (superiors env "" env.recursionLimit e (some config.payload) >>= fun tree =>
        outcome (verifyTrustChains [.jws config.jws] (tree2chains tree) st.keyjar) >>=
          applyPolicies ho) := by
  have hcollect := collectTrustChains_of_leaf h he hleaf hst
  unfold getVerifiedTrustChains
  cases hrun : collectTrustChains env e (.text "") "" [] st.collector with
  | error err c =>
      rw [hrun, outcome_error] at hcollect
      rw [bind_of_error (inCollector_of_error hrun), outcome_error]
      cases htree : superiors env "" env.recursionLimit e (some config.payload) with
      | error err' =>
          rw [htree, except_error_bind, Except.error.injEq] at hcollect
          rw [hcollect, except_error_bind]
      | ok tree =>
          rw [htree] at hcollect
          exact absurd hcollect (by simp)
  | ok found c =>
      rw [hrun, outcome_ok] at hcollect
      obtain ⟨tree, htree, hfound⟩ := except_bind_eq_ok.mp hcollect.symm
      obtain rfl := Except.ok.inj hfound
      rw [bind_of_ok (inCollector_of_ok hrun), htree, except_ok_bind]
      by_cases hnone : (tree2chains tree).length = 0
      · -- nothing to verify
        simp only [hnone, if_true, pure_apply, outcome_ok]
        rw [List.length_eq_zero_iff.mp hnone]
        rfl
      · -- the key jar is the one from before, whatever was collected
        simp only [hnone, if_false, Option.toList_some, List.map_cons, List.map_nil]
        cases hverify : verifyTrustChains [.jws config.jws] (tree2chains tree) st.keyjar with
        | error err jar =>
            have hjar : inKeyjar (verifyTrustChains [.jws config.jws] (tree2chains tree))
                { st with collector := c } = .error err { st with collector := c, keyjar := jar } := by
              exact inKeyjar_of_error hverify
            rw [bind_of_error hjar]
            rfl
        | ok trustChains jar =>
            have hjar : inKeyjar (verifyTrustChains [.jws config.jws] (tree2chains tree))
                { st with collector := c } =
                  .ok trustChains { st with collector := c, keyjar := jar } := by
              exact inKeyjar_of_ok hverify
            rw [bind_of_ok hjar, outcome_lift]
            rfl

/-- What is returned is what the federation without the branches that fail gives
    exactly where no branch fails: otherwise nothing is returned. -/
theorem failures_stay_in_branch_iff (h : Steady env entities) {e : EntityId} (he : e ∈ entities)
    {config : SelfSigned Key} (hleaf : leaf env e = .ok (some config))
    {st : FederationState Jar Key} (hst : Reflects env entities st.collector) :
    (∃ trustChains st', getVerifiedTrustChains ho env e st = .ok trustChains st' ∧
      withoutFailing ho env e config st.keyjar = .ok trustChains) ↔
    NoBranchFails ho env e config st.keyjar := by
  have hreturns : outcome (getVerifiedTrustChains ho env e st) = _ :=
    getVerifiedTrustChains_of_leaf h he hleaf hst
  constructor
  -- whatever is returned, the tree has been grown and every chain gone through
  · rintro ⟨trustChains, st', hreturn, -⟩
    rw [hreturn, outcome_ok] at hreturns
    obtain ⟨tree, htree, hrest⟩ := except_bind_eq_ok.mp hreturns.symm
    obtain ⟨verified, hverify, hprocess⟩ := except_bind_eq_ok.mp hrest
    obtain ⟨jar, hverify⟩ := outcome_eq_ok.mp hverify
    refine ⟨superiors_isOk_iff.mp ⟨tree, htree⟩, fun tree' htree' => ?_⟩
    rw [htree, Except.ok.injEq] at htree'
    rw [← htree', ← noChainFails_iff_hold htree, noChainFails_iff]
    exact ⟨verified, jar, trustChains, hverify, hprocess⟩
  -- where nothing fails nothing is left out, so both are the same run
  · rintro ⟨hcollected, hhold⟩
    obtain ⟨tree, htree⟩ := superiors_isOk_iff.mpr hcollected
    have hnone := (noChainFails_iff_hold htree).mpr (hhold tree htree)
    obtain ⟨verified, jar, trustChains, hverify, hprocess⟩ := noChainFails_iff.mp hnone
    have hall : (outcome (verifyTrustChains [.jws config.jws] (tree2chains tree) st.keyjar) >>=
        applyPolicies ho) = .ok trustChains := by
      rw [hverify, outcome_ok, except_ok_bind, hprocess]
    rw [htree, except_ok_bind, hall] at hreturns
    obtain ⟨st', hreturn⟩ := outcome_eq_ok.mp hreturns
    refine ⟨trustChains, st', hreturn, ?_⟩
    rw [withoutFailing, soundSuperiors_of_superiors htree, except_ok_bind]
    simp only [soundChains_of_noChainFails hnone]
    exact hall

end TrustChains

/-! ## A superior that is not there -/

/-- A leaf below a trust anchor, which also lists an authority that publishes nothing. -/
def besideMissingPage : List (String × SignedStatement Nat) :=
  [("https://op.org/.well-known/openid-federation",
    ⟨{ iss := "https://op.org", sub := "https://op.org", exp := 1000, jwks := some [3]
       authorityHints := some ["https://ta.org", "https://gone.org"]
       metadata := some (Dict.ofList [("openid_provider", ∅)]) }, 3⟩),
   ("https://ta.org/.well-known/openid-federation",
    ⟨{ iss := "https://ta.org", sub := "https://ta.org", exp := 1000, jwks := some [1]
       metadata := some (withFetchEndpoint "https://ta.org/fetch") }, 1⟩),
   ("https://ta.org/fetch?https://op.org",
    ⟨{ iss := "https://ta.org", sub := "https://op.org", exp := 1000, jwks := some [3] }, 1⟩)]

theorem steady_besideMissingPage : Steady (onPages ["https://ta.org"] besideMissingPage)
    {"https://op.org", "https://ta.org", "https://gone.org"} := by
  refine steady_onPages (fun e he config hconfig => ?_) (by unfold CacheKeysApart; decide)
  simp only [Finset.mem_insert, Finset.mem_singleton] at he
  rcases he with rfl | rfl | rfl
  · obtain rfl := Except.ok.inj hconfig
    decide
  · obtain rfl := Except.ok.inj hconfig
    decide
  · exact absurd hconfig nofun

/-- The authority that is not there suppresses the chain through the trust anchor. -/
theorem missing_page_suppresses_chain :
    ¬ ∀ (env : CollectorEnv Nat) (entities : Finset EntityId), Steady env entities →
      ∀ e ∈ entities, ∀ config, leaf env e = .ok (some config) →
      ∀ trustChains, withoutFailing HashOrder.insertion env e config trustsTa.keyjar =
          .ok trustChains → trustChains ≠ [] →
        ∃ st', getVerifiedTrustChains HashOrder.insertion env e trustsTa = .ok trustChains st' := by
  intro hall
  obtain ⟨st', hreturn⟩ := hall (onPages ["https://ta.org"] besideMissingPage) _
    steady_besideMissingPage "https://op.org" (by decide) _ rfl _ rfl (by simp)
  have hraise : ∃ st', getVerifiedTrustChains HashOrder.insertion
      (onPages ["https://ta.org"] besideMissingPage) "https://op.org" trustsTa =
        .error (.missingPage [.lit "No such page: '",
          .val (.str "https://gone.org/.well-known/openid-federation"), .lit "'"]) st' := ⟨_, rfl⟩
  obtain ⟨st'', hraise⟩ := hraise
  rw [hraise] at hreturn
  exact absurd hreturn (by simp)

theorem failures_stay_in_branch_iff_besideMissingPage :
    ∃ config, leaf (onPages ["https://ta.org"] besideMissingPage) "https://op.org" =
        .ok (some config) ∧
      ((∃ trustChains st', getVerifiedTrustChains HashOrder.insertion
          (onPages ["https://ta.org"] besideMissingPage) "https://op.org" trustsTa =
            .ok trustChains st' ∧
          withoutFailing HashOrder.insertion (onPages ["https://ta.org"] besideMissingPage)
            "https://op.org" config trustsTa.keyjar = .ok trustChains) ↔
        NoBranchFails HashOrder.insertion (onPages ["https://ta.org"] besideMissingPage)
          "https://op.org" config trustsTa.keyjar) := by
  obtain ⟨config, hleaf⟩ : ∃ config, leaf (onPages ["https://ta.org"] besideMissingPage)
      "https://op.org" = .ok (some config) := ⟨_, rfl⟩
  exact ⟨config, hleaf, failures_stay_in_branch_iff steady_besideMissingPage (by decide) hleaf
    reflects_empty⟩

end Fedservice.Entity
