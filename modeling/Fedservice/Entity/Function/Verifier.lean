/-
  Fedservice.Entity.Function.Verifier

  `TrustChainVerifier` (entity/function/verifier.py).  A list of signed
  statements is verified from the trust anchor's down, each with the keys that
  the key jar holds for its issuer; every verified statement adds the keys it
  lists for its subject to that same key jar, which is the state here.
-/

import Fedservice.Crypto.KeyJar
import Fedservice.EntityStatement.Constraints

namespace Fedservice.Entity.Function

open Fedservice.Lib Fedservice.Py Fedservice.EntityStatement Fedservice.Crypto

variable {Jar Key : Type} [KeyStore Jar Key] [DecidableEq Key]

/-! ## verify_trust_chain -/

omit [DecidableEq Key] in
/-- `trusted_anchor`: the issuer of the statement is in the key jar. -/
def trustedAnchor (jar : Jar) (entityStatement : Token Key) : Except Exc Bool :=
  match factory entityStatement with
  | none => .error (.attributeError "jwt")
  | some jwt => .ok (KeyStore.contains jar jwt.payload.iss)

/-- Adding the keys of a verified statement: only those that are not there yet. -/
def addKeys (jar : Jar) (sub : EntityId) (keys : List Key) : Jar :=
  match KeyStore.getIssuerKeys jar sub with
  | none => KeyStore.addKb jar sub keys
  | some old =>
      let new := keys.filter (fun k => decide (k ∉ old))
      if new.isEmpty then jar else KeyStore.addKb jar sub new

/-- The body of the loop of `verify_trust_chain`. -/
def verifyStatement (n : Nat) (ves : List (Statement Key)) (entityStatement : Token Key) :
    EStateM Exc Jar (List (Statement Key)) :=
  match factory entityStatement with
  | none => pure ves  -- what is no JWS is passed over
  | some jwt => do
      let keyjar ← get
      let keys := getJwtVerifyKeys keyjar jwt
      if keys.isEmpty then throw .missingKey
      else do
        let res ← lift (verifyCompact keys jwt)
        match res.jwks with
        | none =>
            -- only the last statement of the list may do without
            if ves.length ≠ n then throw (.valueError [.lit "Missing signing JWKS"])
            else return ves ++ [res]
        | some jwks => do
            set (addKeys keyjar res.sub jwks)
            return ves ++ [res]

/-- The loop of `verify_trust_chain`. -/
def verifyLoop (n : Nat) : List (Statement Key) → List (Token Key) →
    EStateM Exc Jar (List (Statement Key))
  | ves, [] => pure ves
  | ves, entityStatement :: rest => do
      let ves ← verifyStatement n ves entityStatement
      verifyLoop n ves rest

omit [KeyStore Jar Key] [DecidableEq Key] in
/-- The end of `verify_trust_chain`: the verified statements, if there are any
    and they meet the restrictions. -/
def acceptVerified (ves : List (Statement Key)) : Except Exc (List (Statement Key)) := do
  if ves.isEmpty then return []
  else if ← meetsRestrictions ves then return ves
  else return []

/-- `verify_trust_chain`. -/
def verifyTrustChain (entityStatementList : List (Token Key)) :
    EStateM Exc Jar (List (Statement Key)) :=
  match entityStatementList with
  | [] => throw .indexError
  | first :: _ => do
      let keyjar ← get
      if !(← lift (trustedAnchor keyjar first)) then return []
      else do
        let ves ← verifyLoop (entityStatementList.length - 1) [] entityStatementList
        lift (acceptVerified ves)

/-! ## The trust chain -/

omit [KeyStore Jar Key] [DecidableEq Key] in
/-- `trust_chain_expires_at`. -/
def trustChainExpiresAt (trustChain : List (Statement Key)) : Int :=
  trustChain.foldl
    (fun exp s => if exp ≥ 0 then (if s.exp < exp then s.exp else exp) else s.exp) (-1)

/-- `TrustChainVerifier.__call__`. -/
def TrustChainVerifier.call (chain : List (Token Key)) :
    EStateM Exc Jar (Option (TrustChain Key)) := do
  let verifiedTrustChain ← verifyTrustChain chain
  match verifiedTrustChain with
  | [] => return none
  | first :: _ =>
      return some {
        anchor := first.iss
        chain := chain
        exp := trustChainExpiresAt verifiedTrustChain
        issPath := (verifiedTrustChain.map (·.iss)).reverse
        verifiedChain := verifiedTrustChain }

/-- `verify_trust_chains`, with the statements that are appended to each chain. -/
def verifyTrustChains (entityStatements : List (Token Key)) : List (List (Token Key)) →
    EStateM Exc Jar (List (TrustChain Key))
  | [] => return []
  | c :: chains => do
      let trustChain ← TrustChainVerifier.call (c ++ entityStatements)
      let res ← verifyTrustChains entityStatements chains
      return trustChain.toList ++ res

/-! ## What a verified statement teaches the key jar -/

/-- The key jar after a statement has been verified. -/
def learn (jar : Jar) (s : Statement Key) : Jar :=
  match s.jwks with
  | none => jar
  | some jwks => addKeys jar s.sub jwks

theorem mem_keysOf_addKeys {jar : Jar} {sub id : EntityId} {keys : List Key} {k : Key} :
    k ∈ keysOf (addKeys jar sub keys) id ↔ k ∈ keysOf jar id ∨ (id = sub ∧ k ∈ keys) := by
  unfold addKeys
  cases hold : KeyStore.getIssuerKeys jar sub with
  | none => exact mem_keysOf_addKb
  | some old =>
      have hsub : keysOf jar sub = old := by rw [keysOf, hold, Option.getD_some]
      have hnew : k ∈ keys.filter (fun k => decide (k ∉ old)) ↔ k ∈ keys ∧ k ∉ keysOf jar sub := by
        rw [List.mem_filter, decide_eq_true_eq, hsub]
      by_cases hempty : (keys.filter (fun k => decide (k ∉ old))).isEmpty = true
      · -- no new key, the key jar is left alone
        simp only [if_pos hempty]
        refine ⟨Or.inl, fun h => h.elim (fun hin => hin) (fun ⟨hid, hk⟩ => ?_)⟩
        by_contra hnot
        have hin := hnew.mpr ⟨hk, hid ▸ hnot⟩
        rw [List.isEmpty_iff.mp hempty] at hin
        exact List.not_mem_nil hin
      · -- the new keys are added, and the old ones of the list were there already
        simp only [if_neg hempty, mem_keysOf_addKb, hnew]
        constructor
        · rintro (h | ⟨hid, hk, -⟩)
          · exact Or.inl h
          · exact Or.inr ⟨hid, hk⟩
        · rintro (h | ⟨rfl, hk⟩)
          · exact Or.inl h
          · by_cases hin : k ∈ keysOf jar id
            · exact Or.inl hin
            · exact Or.inr ⟨rfl, hk, hin⟩

/-- What is learnt: the keys listed, for the subject. -/
theorem mem_keysOf_learn {jar : Jar} {s : Statement Key} {id : EntityId} {k : Key} :
    k ∈ keysOf (learn jar s) id ↔ k ∈ keysOf jar id ∨ (id = s.sub ∧ k ∈ s.keys) := by
  unfold learn Statement.keys
  cases s.jwks with
  | none => simp
  | some jwks => exact mem_keysOf_addKeys

/-! ## Step and run of the loop -/

/-- All that the body of the loop can do with a JWS: raise and leave the key jar
    alone, or accept it for a key held for its issuer and learn from it. -/
theorem verifyStatement_apply {n : Nat} {ves : List (Statement Key)} {t : Token Key}
    {s : SignedStatement Key} {jar : Jar} (hf : factory t = some s) :
    verifyStatement n ves t jar =
      if s.signer ∈ keysOf jar s.payload.iss then
        if s.payload.jwks = none ∧ ves.length ≠ n then
          .error (.valueError [.lit "Missing signing JWKS"]) jar
        else .ok (ves ++ [s.payload]) (learn jar s.payload)
      else .error (if (keysOf jar s.payload.iss).isEmpty then .missingKey else .badSignature) jar := by
  unfold verifyStatement getJwtVerifyKeys
  simp only [hf]
  rw [bind_of_ok (get_apply jar)]
  -- no key for the issuer, the signer's key among them, or only other keys
  by_cases hempty : (keysOf jar s.payload.iss).isEmpty = true
  · have hnot : s.signer ∉ keysOf jar s.payload.iss := by
      rw [List.isEmpty_iff.mp hempty]
      exact List.not_mem_nil
    rw [if_pos hempty, if_neg hnot, if_pos hempty, throw_apply]
  · rw [if_neg hempty, if_neg hempty]
    by_cases hsigner : s.signer ∈ keysOf jar s.payload.iss
    · have hverify : verifyCompact (keysOf jar s.payload.iss) s = .ok s.payload :=
        verifyCompact_eq_ok.mpr ⟨hsigner, rfl⟩
      rw [if_pos hsigner, hverify, bind_of_ok (lift_ok s.payload jar), learn]
      cases hjwks : s.payload.jwks with
      | none =>
          -- nothing to learn; an error unless this is the last statement
          by_cases hlen : ves.length ≠ n
          · simp only [true_and, if_pos hlen, throw_apply]
          · simp only [true_and, if_neg hlen, pure_apply]
      | some jwks =>
          simp only [reduceCtorEq, false_and, if_false]
          rw [bind_of_ok (set_apply jar _), pure_apply]
    · rw [if_neg hsigner, verifyCompact, if_neg hsigner, bind_of_error (lift_error _ jar)]

/-- The inversion of `verifyStatement_apply` for a body that does not raise. -/
theorem verifyStatement_eq_ok {n : Nat} {ves ves' : List (Statement Key)} {t : Token Key}
    {jar jar' : Jar} (h : verifyStatement n ves t jar = .ok ves' jar') :
    (factory t = none ∧ ves' = ves ∧ jar' = jar) ∨
      ∃ s, factory t = some s ∧ s.signer ∈ keysOf jar s.payload.iss ∧
        ves' = ves ++ [s.payload] ∧ jar' = learn jar s.payload := by
  cases hf : factory t with
  | none =>
      simp only [verifyStatement, hf, pure_apply, EStateM.Result.ok.injEq] at h
      exact Or.inl ⟨rfl, h.1.symm, h.2.symm⟩
  | some s =>
      rw [verifyStatement_apply hf] at h
      by_cases hsigner : s.signer ∈ keysOf jar s.payload.iss
      · rw [if_pos hsigner] at h
        by_cases hmissing : s.payload.jwks = none ∧ ves.length ≠ n
        · simp [if_pos hmissing] at h
        · rw [if_neg hmissing, EStateM.Result.ok.injEq] at h
          exact Or.inr ⟨s, rfl, hsigner, h.1.symm, h.2.symm⟩
      · simp [if_neg hsigner] at h

/-- A body that raises leaves the key jar as it was. -/
theorem verifyStatement_error {n : Nat} {ves : List (Statement Key)} {t : Token Key}
    {jar jar' : Jar} {e : Exc} (h : verifyStatement n ves t jar = .error e jar') : jar' = jar := by
  cases hf : factory t with
  | none => simp [verifyStatement, hf] at h
  | some s =>
      rw [verifyStatement_apply hf] at h
      split at h
      · split at h
        · exact (EStateM.Result.error.inj h).2.symm
        · exact absurd h (by simp)
      · exact (EStateM.Result.error.inj h).2.symm

/-- `k` is held for an issuer by the key jar, or listed for it by one of the
    statements. -/
def HeldOrListed (jar : Jar) (listed : List (SignedStatement Key)) (id : EntityId) (k : Key) :
    Prop :=
  k ∈ keysOf jar id ∨ ∃ s ∈ listed, s.payload.sub = id ∧ k ∈ s.payload.keys

omit [DecidableEq Key] in
@[simp] theorem heldOrListed_nil {jar : Jar} {id : EntityId} {k : Key} :
    HeldOrListed jar [] id k ↔ k ∈ keysOf jar id := by
  simp [HeldOrListed]

theorem heldOrListed_learn {jar : Jar} {s : SignedStatement Key}
    {listed : List (SignedStatement Key)} {id : EntityId} {k : Key} :
    HeldOrListed (learn jar s.payload) listed id k ↔ HeldOrListed jar (s :: listed) id k := by
  simp only [HeldOrListed, mem_keysOf_learn, List.exists_mem_cons_iff, or_assoc, eq_comm]

/-- Each of the statements was signed with a key held for its issuer, or listed
    for it further up. -/
def SignedFromAbove (jar : Jar) (stmts : List (SignedStatement Key)) : Prop :=
  ∀ upto s rest, stmts = upto ++ s :: rest → HeldOrListed jar upto s.payload.iss s.signer

omit [DecidableEq Key] in
theorem signedFromAbove_nil {jar : Jar} : SignedFromAbove jar ([] : List (SignedStatement Key)) :=
  fun upto s rest hsplit => by simp at hsplit

/-- Taking the first statement off moves what it lists into the key jar. -/
theorem signedFromAbove_cons {jar : Jar} {s : SignedStatement Key}
    {stmts : List (SignedStatement Key)} :
    SignedFromAbove jar (s :: stmts) ↔
      s.signer ∈ keysOf jar s.payload.iss ∧ SignedFromAbove (learn jar s.payload) stmts := by
  constructor
  · intro h
    refine ⟨heldOrListed_nil.mp (h [] s stmts rfl), fun upto u rest hsplit => ?_⟩
    exact heldOrListed_learn.mpr (h (s :: upto) u rest (by rw [hsplit]; rfl))
  · rintro ⟨hsigner, hrest⟩ upto u rest hsplit
    cases upto with
    | nil =>
        obtain ⟨rfl, -⟩ := List.cons.inj hsplit
        exact heldOrListed_nil.mpr hsigner
    | cons v upto =>
        obtain ⟨rfl, htail⟩ := List.cons.inj hsplit
        exact heldOrListed_learn.mp (hrest upto u rest htail)

/-- Run of the loop: the statements verified are the JWSs of the list, each was
    signed from above, and the key jar has learnt from all of them. -/
theorem verifyLoop_eq_ok {n : Nat} {ves ves' : List (Statement Key)} {ts : List (Token Key)}
    {jar jar' : Jar} (h : verifyLoop n ves ts jar = .ok ves' jar') :
    ves' = ves ++ (ts.filterMap factory).map (·.payload) ∧
      SignedFromAbove jar (ts.filterMap factory) ∧
      ∀ id k, k ∈ keysOf jar' id ↔ HeldOrListed jar (ts.filterMap factory) id k := by
  -- on the tokens still to come, from the key jar as it is by then: what the first
  -- one teaches it counts as listed above the rest
  induction ts generalizing ves jar with
  | nil =>
      simp only [verifyLoop, pure_apply, EStateM.Result.ok.injEq] at h
      obtain ⟨rfl, rfl⟩ := h
      exact ⟨by simp, signedFromAbove_nil, fun id k => by simp⟩
  | cons t ts ih =>
      rw [verifyLoop] at h
      obtain ⟨ves₁, jar₁, hstep, h⟩ := bind_eq_ok.mp h
      obtain ⟨hves, hsigned, hkeys⟩ := ih h
      rcases verifyStatement_eq_ok hstep with ⟨hf, rfl, rfl⟩ | ⟨s, hf, hsigner, rfl, rfl⟩
      · rw [List.filterMap_cons_none hf]
        exact ⟨hves, hsigned, hkeys⟩
      · rw [List.filterMap_cons_some hf]
        have hall : SignedFromAbove jar (s :: ts.filterMap factory) :=
          signedFromAbove_cons.mpr ⟨hsigner, hsigned⟩
        refine ⟨by simpa using hves, hall, fun id k => ?_⟩
        rw [hkeys id k, heldOrListed_learn]

/-! ## verify_trust_chain and the trust chain -/

/-- What is known of a list that `verify_trust_chain` accepts. -/
structure Verified (jar : Jar) (ts : List (Token Key)) (ves : List (Statement Key)) (jar' : Jar) :
    Prop where
  nonempty : ves ≠ []
  head : ∃ s rest, ts = .jws s :: rest
  payloads : ves = (ts.filterMap factory).map (·.payload)
  signed : SignedFromAbove jar (ts.filterMap factory)
  restrictions : meetsRestrictions ves = .ok true
  keys : ∀ id k, k ∈ keysOf jar' id ↔ HeldOrListed jar (ts.filterMap factory) id k

omit [DecidableEq Key] in
theorem trustedAnchor_eq_ok {jar : Jar} {t : Token Key} {b : Bool}
    (h : trustedAnchor jar t = .ok b) :
    ∃ s, t = .jws s ∧ KeyStore.contains jar s.payload.iss = b := by
  cases t with
  | text raw => exact absurd h (by simp [trustedAnchor])
  | jws s => exact ⟨s, rfl, Except.ok.inj h⟩

omit [KeyStore Jar Key] [DecidableEq Key] in
theorem acceptVerified_eq_ok {ves ves' : List (Statement Key)}
    (h : acceptVerified ves = .ok ves') (hne : ves' ≠ []) :
    ves' = ves ∧ meetsRestrictions ves = .ok true := by
  unfold acceptVerified at h
  by_cases hempty : ves.isEmpty = true
  · rw [if_pos hempty] at h
    exact absurd (except_pure_eq_ok.mp h).symm hne
  · rw [if_neg hempty] at h
    obtain ⟨b, hb, h⟩ := except_bind_eq_ok.mp h
    cases b with
    | false => exact absurd (except_pure_eq_ok.mp h).symm hne
    | true => exact ⟨(except_pure_eq_ok.mp h).symm, hb⟩

theorem verifyTrustChain_eq_ok {ts : List (Token Key)} {ves : List (Statement Key)}
    {jar jar' : Jar} (h : verifyTrustChain ts jar = .ok ves jar') (hne : ves ≠ []) :
    Verified jar ts ves jar' := by
  cases ts with
  | nil => exact absurd h (by simp [verifyTrustChain])
  | cons first rest =>
      simp only [verifyTrustChain] at h
      rw [bind_of_ok (get_apply jar)] at h
      obtain ⟨b, jar₁, hb, h⟩ := bind_eq_ok.mp h
      obtain ⟨hb, rfl⟩ := lift_eq_ok.mp hb
      obtain ⟨s, rfl, -⟩ := trustedAnchor_eq_ok hb
      cases b with
      | false =>
          -- an unknown trust anchor: the empty list is returned
          simp only [Bool.not_false, if_true, pure_apply, EStateM.Result.ok.injEq] at h
          exact absurd h.1.symm hne
      | true =>
          simp only [Bool.not_true, Bool.false_eq_true, if_false] at h
          obtain ⟨ves₁, jar₂, hloop, h⟩ := bind_eq_ok.mp h
          obtain ⟨haccept, rfl⟩ := lift_eq_ok.mp h
          obtain ⟨rfl, hmeets⟩ := acceptVerified_eq_ok haccept hne
          obtain ⟨hves, hsigned, hkeys⟩ := verifyLoop_eq_ok hloop
          exact ⟨hne, ⟨s, rest, rfl⟩, by simpa using hves, hsigned, hmeets, hkeys⟩

/-- A trust chain that is returned: the statements were verified, and its anchor
    is the issuer of the first one. -/
theorem call_eq_some {ts : List (Token Key)} {tc : TrustChain Key} {jar jar' : Jar}
    (h : TrustChainVerifier.call ts jar = .ok (some tc) jar') :
    Verified jar ts tc.verifiedChain jar' ∧
      (∃ first rest, tc.verifiedChain = first :: rest ∧ tc.anchor = first.iss) ∧
      tc.chain = ts ∧ tc.exp = trustChainExpiresAt tc.verifiedChain ∧
      tc.issPath = (tc.verifiedChain.map (·.iss)).reverse ∧ tc.metadata = .byType ∅ := by
  unfold TrustChainVerifier.call at h
  obtain ⟨ves, jar₁, hves, h⟩ := bind_eq_ok.mp h
  cases ves with
  | nil => simp at h
  | cons first rest =>
      simp only [pure_apply, EStateM.Result.ok.injEq, Option.some.injEq] at h
      obtain ⟨rfl, rfl⟩ := h
      exact ⟨verifyTrustChain_eq_ok hves (by simp), ⟨first, rest, rfl, rfl⟩, rfl, rfl, rfl, rfl⟩

end Fedservice.Entity.Function
