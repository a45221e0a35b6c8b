/-
  Fedservice.Entity.Function.TrustAnchoring

  The configured trust anchors over runs of the verifier.  `trusted_anchor` asks
  for an issuer that is in the key jar, and the key jar also holds what was
  learnt about everybody below an anchor; and the subject that keys are learnt
  for is chosen by the issuer of the statement.  Both results are about any
  sequence of calls on any lists of tokens, from any key jar.
-/

import Fedservice.Entity.Function.KeyAdditions

namespace Fedservice.Entity.Function

open Fedservice.Lib Fedservice.Py Fedservice.EntityStatement Fedservice.Crypto

variable {Jar Key : Type} [KeyStore Jar Key] [DecidableEq Key]

/-! ## The anchor of a trust chain -/

/-- The first statement is issued by a configured trust anchor, or was not signed
    with a key that the key jar holds for its issuer. -/
def StartsAtAnchor (anchors : List EntityId) (jar : Jar) (ts : List (Token Key)) : Prop :=
  ∀ s rest, ts = .jws s :: rest →
    s.payload.iss ∈ anchors ∨ s.signer ∉ keysOf jar s.payload.iss

/-- An outcome that is no trust chain, or one with a configured anchor. -/
def Anchored (anchors : List EntityId)
    (r : EStateM.Result Exc Jar (Option (TrustChain Key))) : Prop :=
  ∀ tc, returned? r = some (some tc) → tc.anchor ∈ anchors

/-- Step: the issuer of the first statement is the anchor of what is returned. -/
theorem anchored_of_startsAtAnchor {anchors : List EntityId} {jar : Jar} {ts : List (Token Key)}
    (h : StartsAtAnchor anchors jar ts) : Anchored anchors (TrustChainVerifier.call ts jar) := by
  intro tc htc
  obtain ⟨jar', hcall⟩ := returned?_eq_some.mp htc
  obtain ⟨hverified, ⟨first, rest, hchain, hanchor⟩, -⟩ := call_eq_some hcall
  -- the first token is a JWS, so the first verified statement is its payload
  obtain ⟨s, ts', rfl⟩ := hverified.head
  have hpayloads := hverified.payloads
  rw [List.filterMap_cons_some (factory_jws s), hchain, List.map_cons] at hpayloads
  obtain ⟨rfl, -⟩ := List.cons.inj hpayloads
  have hsigned := hverified.signed
  rw [List.filterMap_cons_some (factory_jws s), signedFromAbove_cons] at hsigned
  rw [hanchor]
  exact (h s ts' rfl).resolve_right (fun hnot => hnot hsigned.1)

/-- One statement, signed with a key held for its issuer, is a trust chain. -/
theorem call_singleton {jar : Jar} {s : SignedStatement Key}
    (h : s.signer ∈ keysOf jar s.payload.iss) :
    ∃ tc, returned? (TrustChainVerifier.call [.jws s] jar) = some (some tc) ∧
      tc.anchor = s.payload.iss := by
  have hanchor : trustedAnchor jar (.jws s) = .ok true := by
    simp only [trustedAnchor, factory_jws, contains_of_mem_keysOf h]
  have hstep : verifyStatement 0 [] (.jws s) jar = .ok [s.payload] (learn jar s.payload) := by
    rw [verifyStatement_apply (factory_jws s), if_pos h, if_neg (by simp)]
    rfl
  have hloop : verifyLoop 0 [] [.jws s] jar = .ok [s.payload] (learn jar s.payload) := by
    rw [verifyLoop, bind_of_ok hstep, verifyLoop, pure_apply]
  have hmeets : acceptVerified [s.payload] = .ok [s.payload] := rfl
  have hverify : verifyTrustChain [.jws s] jar = .ok [s.payload] (learn jar s.payload) := by
    simp only [verifyTrustChain, List.length_singleton, Nat.sub_self]
    rw [bind_of_ok (get_apply jar), hanchor, bind_of_ok (lift_ok true jar)]
    simp only [Bool.not_true, Bool.false_eq_true, if_false]
    rw [bind_of_ok hloop, hmeets, lift_ok]
  rw [TrustChainVerifier.call, bind_of_ok hverify]
  exact ⟨_, rfl, rfl⟩

/-- Where every call starts at an anchor all trust chains are anchored; and a
    first statement can start a chain that is not exactly when it does not
    start at an anchor. -/
theorem anchored_run (anchors : List EntityId) :
    (∀ (jar : Jar) (calls : List (List (Token Key))),
      RunMeets TrustChainVerifier.call (StartsAtAnchor anchors) jar calls →
        ∀ r ∈ runOutcomes TrustChainVerifier.call jar calls, Anchored anchors r) ∧
      ∀ (jar : Jar) (s : SignedStatement Key),
        (∀ rest, Anchored anchors (TrustChainVerifier.call (.jws s :: rest) jar)) ↔
          s.payload.iss ∈ anchors ∨ s.signer ∉ keysOf jar s.payload.iss := by
  constructor
  · -- the condition speaks of the key jar as each call finds it, so no invariant of
    -- the key jar is needed
    intro jar calls hmeets
    have hrun := run_invariant (Q := fun jar ts => Anchored anchors (TrustChainVerifier.call ts jar))
      (fun _ => True) (fun jar ts _ h => ⟨trivial, anchored_of_startsAtAnchor h⟩) calls trivial hmeets
    exact hrun.2.outcomes
  · intro jar s
    constructor
    · -- of the continuations of `s` the empty one decides
      intro h
      by_cases hsigner : s.signer ∈ keysOf jar s.payload.iss
      · obtain ⟨tc, htc, hanchor⟩ := call_singleton hsigner
        exact Or.inl (hanchor ▸ h [] tc htc)
      · exact Or.inr hsigner
    · intro h rest
      refine anchored_of_startsAtAnchor (fun s' rest' hts => ?_)
      obtain ⟨hs, -⟩ := List.cons.inj hts
      obtain rfl := Token.jws.inj hs
      exact h

/-- An intermediate met in one call is the anchor of a chain in the next. -/
theorem intermediate_becomes_anchor :
    ¬ ∀ (anchors : List EntityId) (own : EntityId) (jar : AssocJar Nat)
      (calls : List (List (Token Nat))),
      (∀ id k, k ∈ keysOf jar id → id = own ∨ id ∈ anchors) →
        ∀ r ∈ runOutcomes TrustChainVerifier.call jar calls, Anchored anchors r := by
  intro h
  -- the first call leaves key 2 under the intermediate, which issues the second chain
  have hrun := h ["https://ta.org"] "https://op.org"
    ⟨[("https://op.org", [7]), ("https://ta.org", [1])]⟩
    [[.jws ⟨{ iss := "https://ta.org", sub := "https://im.org", jwks := some [2] }, 1⟩,
      .jws ⟨{ iss := "https://im.org", sub := "https://im.org", jwks := some [2] }, 2⟩],
     [.jws ⟨{ iss := "https://im.org", sub := "https://rp.org", jwks := some [3] }, 2⟩,
      .jws ⟨{ iss := "https://rp.org", sub := "https://rp.org", jwks := some [3] }, 3⟩]]
    (fun id k hk => by
      obtain ⟨b, hb, rfl, -⟩ := AssocJar.mem_keys.mp hk
      simp only [List.mem_cons, List.not_mem_nil, or_false] at hb
      rcases hb with rfl | rfl
      · exact Or.inl rfl
      · exact Or.inr (List.mem_singleton.mpr rfl))
    _ (List.mem_cons_of_mem _ (List.mem_cons_self ..)) _ rfl
  exact absurd hrun (by decide)

/-! ## The keys of the anchors -/

/-- A key added under a configured trust anchor comes from a statement that the
    anchor issued. -/
def FromAnchor (anchors : List EntityId) (a : Addition Key) : Prop :=
  a.under ∈ anchors → a.source.iss = a.under

/-- No statement that the loop gets to gives a configured anchor a new key, save
    one that the anchor issued. -/
def NoInjection (anchors : List EntityId) (jar : Jar) (ts : List (Token Key)) : Prop :=
  (∃ first rest, ts = .jws first :: rest) →
    ∀ upto s rest, ts.filterMap factory = upto ++ s :: rest → Reached jar upto s →
      s.payload.sub ∈ anchors → s.payload.iss = s.payload.sub ∨
        ∀ k ∈ s.payload.keys, HeldOrListed jar upto s.payload.sub k

/-- Step: one call. -/
theorem fromAnchor_call_iff {anchors : List EntityId} {jar : Jar} {ts : List (Token Key)} :
    (∀ a ∈ callAdditions jar ts, FromAnchor anchors a) ↔ NoInjection anchors jar ts := by
  constructor
  · intro h hhead upto s rest hsplit hreached hsub
    by_cases hiss : s.payload.iss = s.payload.sub
    · exact Or.inl hiss
    · refine Or.inr (fun k hk => ?_)
      by_contra hnew
      have hadd : (⟨s.payload.sub, k, s.payload⟩ : Addition Key) ∈ callAdditions jar ts :=
        mem_callAdditions.mpr ⟨hhead, upto, s, rest, hsplit, hreached, rfl, rfl, hk, hnew⟩
      exact hiss (h _ hadd hsub)
  · -- an addition comes from a statement reached whose key was not there by then
    intro h a ha hunder
    obtain ⟨hhead, upto, s, rest, hsplit, hreached, hu, hsource, hk, hnew⟩ :=
      mem_callAdditions.mp ha
    rw [hu, hsource]
    rcases h hhead upto s rest hsplit hreached (hu ▸ hunder) with hiss | hheld
    · exact hiss
    · exact absurd (hheld a.key hk) hnew

/-- The record of a run accounts for the key jar, and all that it has under the
    configured anchors comes from themselves exactly when no call injects. -/
theorem anchor_keys_run_iff (anchors : List EntityId) (jar : Jar)
    (calls : List (List (Token Key))) :
    (∀ id k, k ∈ keysOf (runState verifyTrustChain jar calls) id ↔
      k ∈ keysOf jar id ∨ ∃ a ∈ runAdditions jar calls, a.under = id ∧ a.key = k) ∧
      ((∀ a ∈ runAdditions jar calls, FromAnchor anchors a) ↔
        RunMeets verifyTrustChain (NoInjection anchors) jar calls) := by
  refine ⟨fun id k => mem_keysOf_runState, ?_⟩
  rw [runAdditions, forall_mem_runLog]
  exact runMeets_congr (fun ts _ jar => fromAnchor_call_iff)

/-- An intermediate names the trust anchor as its subject and lists a key. -/
theorem anchor_key_injected :
    ¬ ∀ (anchors : List EntityId) (jar : AssocJar Nat) (calls : List (List (Token Nat))),
      (∀ id k, k ∈ keysOf jar id → id ∈ anchors) →
        ∀ a ∈ runAdditions jar calls, FromAnchor anchors a := by
  intro h
  have hrun := h ["https://ta.org"] ⟨[("https://ta.org", [1])]⟩
    [[.jws ⟨{ iss := "https://ta.org", sub := "https://im.org", jwks := some [2] }, 1⟩,
      .jws ⟨{ iss := "https://im.org", sub := "https://ta.org", jwks := some [9] }, 2⟩]]
    (fun id k hk => by
      obtain ⟨b, hb, rfl, -⟩ := AssocJar.mem_keys.mp hk
      simpa using congrArg Prod.fst (List.mem_singleton.mp hb))
    ⟨"https://ta.org", 9, { iss := "https://im.org", sub := "https://ta.org", jwks := some [9] }⟩
    (List.mem_cons_of_mem _ (List.mem_cons_self ..)) (List.mem_cons_self ..)
  exact absurd hrun (by decide)

end Fedservice.Entity.Function
