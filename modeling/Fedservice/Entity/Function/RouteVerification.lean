/-
  Fedservice.Entity.Function.RouteVerification

  Verifying what is said along a route.  In a federation that is well kept every
  authority signs with a key of its own and lists the keys of those it speaks
  about; the chain of a route then verifies if the key jar holds the keys of the
  authority at its end, and is passed over if the key jar does not know it.
-/

import Fedservice.Entity.Function.RoutesOfTree
import Fedservice.Entity.Function.Verifier
import Fedservice.Lib.UpdateEach

namespace Fedservice.Entity.Function

open Fedservice.Lib Fedservice.Py Fedservice.EntityStatement Fedservice.Crypto Relation

variable {Jar Key : Type} [KeyStore Jar Key] [DecidableEq Key]

/-! ## Chains that are signed from above -/

omit [DecidableEq Key] in
/-- One more statement at the lower end. -/
theorem SignedFromAbove.concat {jar : Jar} {stmts : List (SignedStatement Key)}
    {s : SignedStatement Key} (h : SignedFromAbove jar stmts)
    (hs : HeldOrListed jar stmts s.payload.iss s.signer) : SignedFromAbove jar (stmts ++ [s]) := by
  intro upto u rest hsplit
  rcases List.eq_nil_or_concat rest with rfl | ⟨rest', last, rfl⟩
  · obtain ⟨rfl, heq⟩ := List.append_inj' hsplit rfl
    obtain rfl := (List.cons.inj heq).1
    exact hs
  · rw [List.concat_eq_append, ← List.cons_append, ← List.append_assoc] at hsplit
    exact h upto u rest' (List.append_inj' hsplit rfl).1

/-- Whom the key jar knows after it has learnt from a statement. -/
theorem contains_of_contains_learn [LawfulKeyStore Jar] {jar : Jar} {s : Statement Key}
    {id : EntityId} (h : KeyStore.contains (learn jar s) id = true) :
    KeyStore.contains jar id = true ∨ id = s.sub := by
  unfold learn at h
  cases hjwks : s.jwks with
  | none =>
      simp only [hjwks] at h
      exact Or.inl h
  | some jwks =>
      simp only [hjwks] at h
      unfold addKeys at h
      cases hold : KeyStore.getIssuerKeys jar s.sub with
      | none =>
          simp only [hold] at h
          exact LawfulKeyStore.contains_addKb h
      | some old =>
          simp only [hold] at h
          split at h
          · exact Or.inl h
          · exact LawfulKeyStore.contains_addKb h

/-- The key jar after a list of statements has been verified. -/
def learnAll (jar : Jar) (stmts : List (SignedStatement Key)) : Jar :=
  stmts.foldl (fun jar s => learn jar s.payload) jar

/-- The loop gets through a list that is signed from above and lists keys throughout. -/
theorem verifyLoop_of_signed {n : Nat} {ves : List (Statement Key)}
    {stmts : List (SignedStatement Key)} {jar : Jar} (h : SignedFromAbove jar stmts)
    (hjwks : ∀ s ∈ stmts, s.payload.jwks ≠ none) :
    verifyLoop n ves (stmts.map .jws) jar =
      .ok (ves ++ stmts.map (·.payload)) (learnAll jar stmts) := by
  induction stmts generalizing ves jar with
  | nil =>
      rw [List.map_nil, List.map_nil, List.append_nil]
      rfl
  | cons s stmts ih =>
      obtain ⟨hsigner, hrest⟩ := signedFromAbove_cons.mp h
      have hstep : verifyStatement n ves (.jws s) jar =
          .ok (ves ++ [s.payload]) (learn jar s.payload) := by
        rw [verifyStatement_apply (factory_jws s), if_pos hsigner,
          if_neg fun hnone => hjwks s (List.mem_cons_self ..) hnone.1]
      rw [List.map_cons, verifyLoop, bind_of_ok hstep,
        ih hrest fun u hu => hjwks u (List.mem_cons_of_mem s hu), List.map_cons, List.append_assoc]
      rfl

/-- A list that is signed from above, with an issuer at its top whom the key jar knows: what is
    left is to meet the restrictions. -/
theorem verifyTrustChain_of_signed {first : SignedStatement Key}
    {rest : List (SignedStatement Key)} {jar : Jar} (h : SignedFromAbove jar (first :: rest))
    (hjwks : ∀ s ∈ first :: rest, s.payload.jwks ≠ none)
    (hknown : KeyStore.contains jar first.payload.iss = true) :
    verifyTrustChain ((first :: rest).map .jws) jar =
      lift (acceptVerified ((first :: rest).map (·.payload))) (learnAll jar (first :: rest)) := by
  have hanchor : lift (trustedAnchor jar (.jws first)) jar = .ok true jar := by
    simp [trustedAnchor, hknown]
  rw [List.map_cons, verifyTrustChain, bind_of_ok (get_apply jar), bind_of_ok hanchor]
  simp only [Bool.not_true, Bool.false_eq_true, if_false]
  rw [← List.map_cons, bind_of_ok (verifyLoop_of_signed h hjwks), List.nil_append]

/-- A list with an issuer at its top whom the key jar does not know is passed over. -/
theorem verifyTrustChain_of_unknown {first : SignedStatement Key} {rest : List (Token Key)}
    {jar : Jar} (hunknown : KeyStore.contains jar first.payload.iss = false) :
    verifyTrustChain (.jws first :: rest) jar = .ok [] jar := by
  have hanchor : lift (trustedAnchor jar (.jws first)) jar = .ok false jar := by
    simp [trustedAnchor, hunknown]
  rw [verifyTrustChain, bind_of_ok (get_apply jar), bind_of_ok hanchor]
  rfl

/-! ## A well kept federation -/

/-- What an authority says about an entity: signed with a key of the authority, and with the
    keys of the entity. -/
structure SpeaksOf (env : CollectorEnv Key) (a e : EntityId) (s : SignedStatement Key) : Prop where
  iss : s.payload.iss = a
  sub : s.payload.sub = e
  signer : ∀ config, configuration env a = .ok config → s.signer ∈ config.payload.keys
  keys : ∀ config, configuration env e = .ok config → ∀ k ∈ config.payload.keys, k ∈ s.payload.keys

/-- Everybody publishes a configuration of its own, and authorities speak of the entities that
    list them. -/
structure WellKept (env : CollectorEnv Key) (entities : Finset EntityId) : Prop
    extends Answering env entities where
  named : ∀ e ∈ entities, ∀ config, configuration env e = .ok config →
    config.payload.iss = e ∧ config.payload.sub = e
  speaks : ∀ e ∈ entities, ∀ a, Lists env "" e a → ∀ s, said env e a = some s → SpeaksOf env a e s

/-- `a` has nobody above it. -/
def AtTop (env : CollectorEnv Key) (a : EntityId) : Prop := ∀ b, ¬ Lists env "" a b

/-- Of the entities at the top the key jar knows those in `known`, with the keys they
    publish, and no others. -/
def KnowsTops (env : CollectorEnv Key) (entities : Finset EntityId) (known : EntityId → Bool)
    (jar : Jar) : Prop :=
  ∀ t ∈ entities, AtTop env t → KeyStore.contains jar t = known t ∧
    (known t = true → ∀ config, configuration env t = .ok config →
      ∀ k ∈ config.payload.keys, k ∈ keysOf jar t)

/-- The statements that are verified for a route: those along it and the configuration of the
    entity itself. -/
def chainAlong (env : CollectorEnv Key) (e : EntityId) (config : SelfSigned Key)
    (route : List EntityId) : List (SignedStatement Key) :=
  saidAlong env e route ++ [config.jws]

/-- The trust chain that is made of a route. -/
def trustChainAlong (env : CollectorEnv Key) (e : EntityId) (config : SelfSigned Key)
    (route : List EntityId) : TrustChain Key where
  anchor := route.getLastD e
  chain := (chainAlong env e config route).map .jws
  exp := trustChainExpiresAt ((chainAlong env e config route).map (·.payload))
  issPath := e :: route
  verifiedChain := (chainAlong env e config route).map (·.payload)

/-! ## The chain of a route -/

section Route

variable {env : CollectorEnv Key} {entities : Finset EntityId} {known : EntityId → Bool}

/-- What is said about an entity that lists an authority. -/
theorem WellKept.said (h : WellKept env entities) {e a : EntityId} (he : e ∈ entities)
    (hlists : Lists env "" e a) (hself : ¬ (e = a ∧ e ∈ env.trustAnchors)) :
    ∃ s config, Function.said env e a = some s ∧ SpeaksOf env a e s ∧
      configuration env a = .ok config := by
  obtain ⟨config, s, hconfig, -, hsaid⟩ := h.toAnswering.statementAbout he ⟨hlists, hself⟩
  have hs := said_of_statementAbout hsaid
  exact ⟨s, config, hs, h.speaks e he a hlists s hs, hconfig⟩

/-- A statement that an authority makes lists keys. -/
theorem SpeaksOf.jwks_ne_none {a e : EntityId} {s : SignedStatement Key} (h : SpeaksOf env a e s)
    {config : SelfSigned Key} (hconfig : configuration env e = .ok config) :
    s.payload.jwks ≠ none := by
  intro hnone
  have hkey := h.keys config hconfig config.jws.signer config.own
  rw [Statement.keys, hnone] at hkey
  exact absurd hkey List.not_mem_nil

/-- What is said along a route is signed from above, by a key jar that holds the keys of its
    end, and lists the keys of the entity. -/
theorem WellKept.signed (h : WellKept env entities) {e : EntityId} (he : e ∈ entities)
    (hcycle : NoCycleFrom (Lists env "") e) {route : List EntityId}
    (hroute : Route (Lists env "") e route) {jar : Jar}
    (hjar : ∀ t ∈ route.getLast?, ∀ config, configuration env t = .ok config →
      ∀ k ∈ config.payload.keys, k ∈ keysOf jar t) :
    SignedFromAbove jar (saidAlong env e route) ∧
      ∀ config, configuration env e = .ok config → ∀ k ∈ config.payload.keys,
        HeldOrListed jar (saidAlong env e route) e k := by
  -- on the route; what is listed for an authority is what its own statement is signed with
  induction hroute with
  | @last e a hlists _ =>
      have hself : ¬ (e = a ∧ e ∈ env.trustAnchors) := fun hself =>
        hcycle e .refl (TransGen.single (hself.1 ▸ hlists))
      obtain ⟨s, own, hs, hspeaks, hown⟩ := h.said he hlists hself
      have hline : saidAlong env e [a] = [s] := by simp [saidAlong, hs]
      rw [hline]
      constructor
      · have hheld := hjar a (by simp) own hown s.signer (hspeaks.signer own hown)
        exact signedFromAbove_nil.concat (heldOrListed_nil.mpr (by rwa [hspeaks.iss]))
      · intro config hconfig k hk
        exact Or.inr ⟨s, List.mem_singleton_self s, hspeaks.sub, hspeaks.keys config hconfig k hk⟩
  | @step e a route hlists hroute ih =>
      have hself : ¬ (e = a ∧ e ∈ env.trustAnchors) := fun hself =>
        hcycle e .refl (TransGen.single (hself.1 ▸ hlists))
      obtain ⟨s, own, hs, hspeaks, hown⟩ := h.said he hlists hself
      have hline : saidAlong env e (a :: route) = saidAlong env a route ++ [s] := by
        simp [saidAlong, hs]
      obtain ⟨b, rest, rfl⟩ := List.exists_cons_of_ne_nil hroute.ne_nil
      obtain ⟨hsigned, hlisted⟩ := ih (hlists.mem h.toSteady he) (hcycle.step hlists) fun t ht =>
        hjar t (by simpa [List.getLast?_cons_cons] using ht)
      rw [hline]
      constructor
      · refine hsigned.concat ?_
        rw [hspeaks.iss]
        exact hlisted own hown s.signer (hspeaks.signer own hown)
      · intro config hconfig k hk
        exact Or.inr ⟨s, by simp, hspeaks.sub, hspeaks.keys config hconfig k hk⟩

/-- Who says what along a route: the authorities on it, from its end down, about entities that
    have somebody above them. -/
theorem WellKept.along (h : WellKept env entities) {e : EntityId} (he : e ∈ entities)
    (hcycle : NoCycleFrom (Lists env "") e) {route : List EntityId}
    (hroute : Route (Lists env "") e route) :
    (saidAlong env e route).map (·.payload.iss) = route.reverse ∧
      ∀ s ∈ saidAlong env e route, s.payload.jwks ≠ none ∧ ¬ AtTop env s.payload.sub := by
  have hstep : ∀ {e a : EntityId}, e ∈ entities → NoCycleFrom (Lists env "") e →
      Lists env "" e a → ∃ s, Function.said env e a = some s ∧ s.payload.iss = a ∧
        s.payload.jwks ≠ none ∧ ¬ AtTop env s.payload.sub := by
    intro e a he hcycle hlists
    have hself : ¬ (e = a ∧ e ∈ env.trustAnchors) := fun hself =>
      hcycle e .refl (TransGen.single (hself.1 ▸ hlists))
    obtain ⟨s, -, hs, hspeaks, -⟩ := h.said he hlists hself
    obtain ⟨config, hconfig⟩ := h.publishes e he
    refine ⟨s, hs, hspeaks.iss, hspeaks.jwks_ne_none hconfig, fun htop => ?_⟩
    exact htop a (by rwa [hspeaks.sub])
  induction hroute with
  | @last e a hlists _ =>
      obtain ⟨s, hs, hiss, hs'⟩ := hstep he hcycle hlists
      simp [saidAlong, hs, hiss, hs']
  | @step e a route hlists hroute ih =>
      obtain ⟨s, hs, hiss, hs'⟩ := hstep he hcycle hlists
      obtain ⟨hissuers, hall⟩ := ih (hlists.mem h.toSteady he) (hcycle.step hlists)
      refine ⟨by simp [saidAlong, hs, hiss, hissuers], fun u hu => ?_⟩
      rcases List.mem_append.mp hu with hu | hu
      · exact hall u hu
      · rw [hs, Option.toList_some, List.mem_singleton] at hu
        exact hu ▸ hs'

/-- The statements that are verified for a route all list keys, of entities that have somebody
    above them. -/
theorem WellKept.listsKeys (h : WellKept env entities) {e : EntityId} (he : e ∈ entities)
    (hcycle : NoCycleFrom (Lists env "") e) {config : SelfSigned Key}
    (hconfig : configuration env e = .ok config) {route : List EntityId}
    (hroute : Route (Lists env "") e route) :
    ∀ s ∈ chainAlong env e config route, s.payload.jwks ≠ none ∧ ¬ AtTop env s.payload.sub := by
  intro s hs
  rcases List.mem_append.mp hs with hs | hs
  · exact (h.along he hcycle hroute).2 s hs
  · obtain rfl := List.mem_singleton.mp hs
    have hsub : config.jws.payload.sub = e := (h.named e he config hconfig).2
    obtain ⟨a, rest, rfl⟩ := List.exists_cons_of_ne_nil hroute.ne_nil
    refine ⟨fun hnone => ?_, fun htop => htop a ?_⟩
    · have hown := config.own
      rw [Statement.keys, hnone] at hown
      exact absurd hown List.not_mem_nil
    · rw [hsub]
      exact (Route.cons_iff.mp hroute).1

/-- The issuers of the chain of a route, from the entity upwards. -/
theorem WellKept.issPath (h : WellKept env entities) {e : EntityId} (he : e ∈ entities)
    (hcycle : NoCycleFrom (Lists env "") e) {config : SelfSigned Key}
    (hconfig : configuration env e = .ok config) {route : List EntityId}
    (hroute : Route (Lists env "") e route) :
    (((chainAlong env e config route).map (·.payload)).map (·.iss)).reverse = e :: route := by
  have hname : config.jws.payload.iss = e := (h.named e he config hconfig).1
  have hissuers := (h.along he hcycle hroute).1
  rw [chainAlong, List.map_map, List.map_append, List.reverse_append]
  simp only [List.map_cons, List.map_nil, List.reverse_singleton, List.singleton_append,
    Function.comp_apply, hname, List.cons.injEq, true_and]
  have hcomp : (fun s : SignedStatement Key => s.payload.iss) =
      (fun s : Statement Key => s.iss) ∘ fun s : SignedStatement Key => s.payload := rfl
  rw [← hcomp, hissuers, List.reverse_reverse]

/-- The top of the chain of a route is the statement of its end. -/
theorem WellKept.exists_first (h : WellKept env entities) {e : EntityId} (he : e ∈ entities)
    (hcycle : NoCycleFrom (Lists env "") e) {route : List EntityId}
    (hroute : Route (Lists env "") e route) (config : SelfSigned Key) :
    ∃ first rest, chainAlong env e config route = first :: rest ∧
      first.payload.iss = route.getLastD e := by
  have hissuers := (h.along he hcycle hroute).1
  cases hsaid : saidAlong env e route with
  | nil =>
      rw [hsaid] at hissuers
      exact absurd (List.reverse_eq_nil_iff.mp hissuers.symm) hroute.ne_nil
  | cons first rest =>
      refine ⟨first, rest ++ [config.jws], by rw [chainAlong, hsaid]; rfl, ?_⟩
      have hhead := congrArg List.head? hissuers
      rw [hsaid, List.map_cons, List.head?_cons, List.head?_reverse] at hhead
      rw [List.getLastD_eq_getLast?, ← hhead, Option.getD_some]

/-- The chain of a route is signed from above by a key jar that holds the keys of its end. -/
theorem WellKept.signed_chainAlong (h : WellKept env entities) {e : EntityId} (he : e ∈ entities)
    (hcycle : NoCycleFrom (Lists env "") e) {config : SelfSigned Key}
    (hconfig : configuration env e = .ok config) {route : List EntityId}
    (hroute : Route (Lists env "") e route) {jar : Jar}
    (hjar : ∀ t ∈ route.getLast?, ∀ config, configuration env t = .ok config →
      ∀ k ∈ config.payload.keys, k ∈ keysOf jar t) :
    SignedFromAbove jar (chainAlong env e config route) := by
  obtain ⟨hsigned, hlisted⟩ := h.signed he hcycle hroute hjar
  refine hsigned.concat ?_
  have hname := (h.named e he config hconfig).1
  rw [show config.jws.payload.iss = e from hname]
  exact hlisted config hconfig _ config.own

/-! ## What verification leaves -/

variable [LawfulKeyStore Jar]

/-- Learning the keys of an entity with somebody above it does not make a top known. -/
theorem KnowsTops.learn (h : WellKept env entities) {jar : Jar}
    (hjar : KnowsTops env entities known jar) {s : Statement Key} (hsub : ¬ AtTop env s.sub) :
    KnowsTops env entities known (learn jar s) := by
  intro t ht htop
  obtain ⟨hknown, hkeys⟩ := hjar t ht htop
  have hkeys' : known t = true → ∀ config, configuration env t = .ok config →
      ∀ k ∈ config.payload.keys, k ∈ keysOf (Function.learn jar s) t :=
    fun hyes config hconfig k hk =>
      mem_keysOf_learn.mpr (Or.inl (hkeys hyes config hconfig k hk))
  refine ⟨?_, hkeys'⟩
  cases hcase : known t with
  | true =>
      obtain ⟨config, hconfig⟩ := h.publishes t ht
      exact contains_of_mem_keysOf (hkeys' hcase config hconfig _ config.own)
  | false =>
      rw [hcase] at hknown
      by_contra hyes
      rw [Bool.not_eq_false] at hyes
      rcases contains_of_contains_learn hyes with hbefore | rfl
      · exact absurd (hknown.symm.trans hbefore) Bool.false_ne_true
      · exact hsub htop

theorem KnowsTops.learnAll (h : WellKept env entities) {jar : Jar}
    (hjar : KnowsTops env entities known jar) {stmts : List (SignedStatement Key)}
    (hsubs : ∀ s ∈ stmts, ¬ AtTop env s.payload.sub) :
    KnowsTops env entities known (learnAll jar stmts) := by
  induction stmts generalizing jar with
  | nil => exact hjar
  | cons s stmts ih =>
      exact ih (hjar.learn h (hsubs s (List.mem_cons_self ..)))
        fun u hu => hsubs u (List.mem_cons_of_mem s hu)

/-! ## The verdict on a route -/

omit [KeyStore Jar Key] [LawfulKeyStore Jar] in
theorem mem_of_reaches (h : Steady env entities) {e a : EntityId} (he : e ∈ entities)
    (hreach : TransGen (Lists env "") e a) : a ∈ entities := by
  induction hreach with
  | single hlists => exact hlists.mem h he
  | tail _ hlists ih => exact hlists.mem h ih

/-- Whether the chain of a route is accepted: its end is known and it meets the restrictions. -/
def accepts (known : EntityId → Bool) (env : CollectorEnv Key) (e : EntityId)
    (config : SelfSigned Key) (route : List EntityId) : Except Exc Bool :=
  if known (route.getLastD e) then
    meetsRestrictions ((chainAlong env e config route).map (·.payload))
  else .ok false

/-- Verifying the chain of a route comes to the trust chain of the route if it is accepted. -/
theorem WellKept.call (h : WellKept env entities) {e : EntityId} (he : e ∈ entities)
    (hcycle : NoCycleFrom (Lists env "") e) {config : SelfSigned Key}
    (hconfig : configuration env e = .ok config) {route : List EntityId}
    (hroute : Route (Lists env "") e route) :
    Yields (fun jar : Jar => KnowsTops env entities known jar)
      (TrustChainVerifier.call ((saidAlong env e route).map .jws ++ [.jws config.jws]))
      (do return if ← accepts known env e config route
          then some (trustChainAlong env e config route) else none) := by
  intro jar hjar
  obtain ⟨t, hlast⟩ : ∃ t, route.getLast? = some t :=
    Option.isSome_iff_exists.mp (List.getLast?_isSome.mpr hroute.ne_nil)
  have htop : AtTop env t := hroute.ends hlast
  have ht : t ∈ entities :=
    mem_of_reaches h.toSteady he (hroute.reaches (List.mem_of_getLast? hlast))
  obtain ⟨hknown, hkeys⟩ := hjar t ht htop
  have hend : route.getLastD e = t := by rw [List.getLastD_eq_getLast?, hlast, Option.getD_some]
  obtain ⟨first, rest, hchain, hfirst⟩ := h.exists_first he hcycle hroute config
  rw [hend] at hfirst
  have htokens : (saidAlong env e route).map .jws ++ [.jws config.jws] =
      (chainAlong env e config route).map Token.jws := by
    rw [chainAlong, List.map_append]
    rfl
  unfold TrustChainVerifier.call accepts
  rw [hend, htokens]
  cases hcase : known t with
  | false =>
      -- the route ends at somebody whom the key jar does not know
      have hunknown : KeyStore.contains jar first.payload.iss = false := by
        rw [hfirst, hknown, hcase]
      rw [hchain, List.map_cons, bind_of_ok (verifyTrustChain_of_unknown hunknown)]
      exact ⟨rfl, hjar⟩
  | true =>
      have hyes : KeyStore.contains jar first.payload.iss = true := by rw [hfirst, hknown, hcase]
      have hself : SignedFromAbove jar (first :: rest) := by
        rw [← hchain]
        exact h.signed_chainAlong he hcycle hconfig hroute fun t' ht' =>
          Option.some.inj (hlast.symm.trans ht') ▸ hkeys hcase
      have hlists : ∀ s ∈ first :: rest, s.payload.jwks ≠ none ∧ ¬ AtTop env s.payload.sub := by
        rw [← hchain]
        exact h.listsKeys he hcycle hconfig hroute
      have hrun := verifyTrustChain_of_signed hself (fun s hs => (hlists s hs).1) hyes
      -- the keys that are learnt are not of anybody at the top
      have hleft := hjar.learnAll h fun s hs => (hlists s hs).2
      rw [hchain, if_pos rfl]
      unfold acceptVerified at hrun
      simp only [List.map_cons, List.isEmpty_cons, Bool.false_eq_true, if_false] at hrun ⊢
      cases hmeets : meetsRestrictions (first.payload :: rest.map (·.payload)) with
      | error err =>
          rw [hmeets, except_error_bind, lift_error] at hrun
          rw [bind_of_error hrun]
          exact ⟨rfl, hleft⟩
      | ok meets =>
          rw [hmeets, except_ok_bind] at hrun
          cases meets with
          | false =>
              rw [bind_of_ok hrun]
              exact ⟨rfl, hleft⟩
          | true =>
              rw [bind_of_ok hrun]
              refine ⟨?_, hleft⟩
              have hissPath :
                  (((first :: rest).map (·.payload)).map (·.iss)).reverse = e :: route := by
                rw [← hchain]
                exact h.issPath he hcycle hconfig hroute
              have hmade : trustChainAlong env e config route = {
                  anchor := first.payload.iss
                  chain := (first :: rest).map .jws
                  exp := trustChainExpiresAt ((first :: rest).map (·.payload))
                  issPath := (((first :: rest).map (·.payload)).map (·.iss)).reverse
                  verifiedChain := (first :: rest).map (·.payload) } := by
                rw [trustChainAlong, hchain, hend, hfirst, hissPath]
              rw [hmade]
              rfl

end Route

end Fedservice.Entity.Function
