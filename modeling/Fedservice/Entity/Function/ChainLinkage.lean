/-
  Fedservice.Entity.Function.ChainLinkage

  Whether neighbouring statements of a verified chain fit together.  The loop
  of `verify_trust_chain` checks every signature against whatever the key jar
  holds for the issuer by then and compares no two statements, so a chain is
  linked exactly when no statement owes its acceptance to a key from elsewhere.
-/

import Fedservice.Entity.Function.Verifier

namespace Fedservice.Entity.Function

open Fedservice.Lib Fedservice.Py Fedservice.EntityStatement Fedservice.Crypto

variable {Jar Key : Type} [KeyStore Jar Key] [DecidableEq Key]

/-! ## Linked chains -/

/-- The last statement is about its own issuer. -/
def EndsSelfIssued (stmts : List (SignedStatement Key)) : Prop :=
  ∀ last, stmts.getLast? = some last → last.payload.iss = last.payload.sub

/-- Each statement is about the issuer of the next one and lists the key that
    signed it, and the last one is self-issued. -/
structure Linked (stmts : List (SignedStatement Key)) : Prop where
  next : ∀ upto s t rest, stmts = upto ++ s :: t :: rest →
    s.payload.sub = t.payload.iss ∧ t.signer ∈ s.payload.keys
  last : EndsSelfIssued stmts

/-- A statement whose signing key was held for its issuer beforehand, or listed
    for it further up than its predecessor, has the key from its predecessor
    as well. -/
def NoStrayKey (jar : Jar) (stmts : List (SignedStatement Key)) : Prop :=
  ∀ upto s t rest, stmts = upto ++ s :: t :: rest →
    HeldOrListed jar upto t.payload.iss t.signer →
    s.payload.sub = t.payload.iss ∧ t.signer ∈ s.payload.keys

omit [DecidableEq Key] in
theorem heldOrListed_concat {jar : Jar} {upto : List (SignedStatement Key)}
    {s : SignedStatement Key} {id : EntityId} {k : Key} :
    HeldOrListed jar (upto ++ [s]) id k ↔
      HeldOrListed jar upto id k ∨ (s.payload.sub = id ∧ k ∈ s.payload.keys) := by
  simp only [HeldOrListed, List.mem_append, List.mem_singleton, or_and_right, exists_or,
    exists_eq_left, or_assoc]

/-- What `verify_trust_chain` returns is linked exactly when the last statement
    is self-issued and no statement was accepted for a stray key. -/
theorem linked_iff_of_verified {ts : List (Token Key)} {ves : List (Statement Key)}
    {jar jar' : Jar} (h : verifyTrustChain ts jar = .ok ves jar') (hne : ves ≠ []) :
    ves = (ts.filterMap factory).map (·.payload) ∧
      (Linked (ts.filterMap factory) ↔
        EndsSelfIssued (ts.filterMap factory) ∧ NoStrayKey jar (ts.filterMap factory)) := by
  have hv := verifyTrustChain_eq_ok h hne
  refine ⟨hv.payloads, ?_⟩
  constructor
  · intro hlinked
    exact ⟨hlinked.last, fun upto s t rest hsplit _ => hlinked.next upto s t rest hsplit⟩
  · rintro ⟨hself, hstray⟩
    refine ⟨fun upto s t rest hsplit => ?_, hself⟩
    -- verification only says that the key of `t` came from somewhere above it
    have hsigned : HeldOrListed jar (upto ++ [s]) t.payload.iss t.signer :=
      hv.signed (upto ++ [s]) t rest (by simpa using hsplit)
    rcases heldOrListed_concat.mp hsigned with hstrayKey | hlisted
    · exact hstray upto s t rest hsplit hstrayKey
    · exact hlisted

/-! ## Runs on the chains of a small federation -/

/-- A trust anchor's key jar. -/
def anchorJar : AssocJar Nat := ⟨[("https://ta.org", [1])]⟩

/-- A statement and the key that signed it. -/
def signedBy (signer : Nat) (iss sub : EntityId) (keys : List Nat) : Token Nat :=
  .jws { payload := { iss := iss, sub := sub, jwks := some keys }, signer := signer }

/-- The trust anchor's statement about a leaf, and the leaf's own. -/
def twoStatements : List (Token Nat) :=
  [signedBy 1 "https://ta.org" "https://rp.org" [2],
   signedBy 2 "https://rp.org" "https://rp.org" [2]]

theorem linked_iff_of_verified_witness :
    [({ iss := "https://ta.org", sub := "https://rp.org", jwks := some [2] } : Statement Nat),
      { iss := "https://rp.org", sub := "https://rp.org", jwks := some [2] }] =
        (twoStatements.filterMap factory).map (·.payload) ∧
      (Linked (twoStatements.filterMap factory) ↔
        EndsSelfIssued (twoStatements.filterMap factory) ∧
          NoStrayKey anchorJar (twoStatements.filterMap factory)) :=
  linked_iff_of_verified (show verifyTrustChain twoStatements anchorJar =
    .ok _ ⟨[("https://ta.org", [1]), ("https://rp.org", [2])]⟩ from rfl) (by simp)

/-- The trust anchor's statement about somebody else stands before the one about
    the leaf, and the list is accepted. -/
theorem unrelated_statement_accepted :
    ¬ ∀ (jar jar' : AssocJar Nat) (stmts : List (SignedStatement Nat)) (ves : List (Statement Nat)),
      verifyTrustChain (stmts.map .jws) jar = .ok ves jar' → ves ≠ [] → Linked stmts := by
  intro h
  -- the second statement verifies with the anchor's own key, which was there before
  have hlinked := h anchorJar
    ⟨[("https://ta.org", [1]), ("https://op.org", [3]), ("https://rp.org", [2])]⟩
    [⟨{ iss := "https://ta.org", sub := "https://op.org", jwks := some [3] }, 1⟩,
     ⟨{ iss := "https://ta.org", sub := "https://rp.org", jwks := some [2] }, 1⟩,
     ⟨{ iss := "https://rp.org", sub := "https://rp.org", jwks := some [2] }, 2⟩]
    _ rfl (by simp)
  have hnext := (hlinked.next [] _ _ _ rfl).1
  exact absurd hnext (by decide)

end Fedservice.Entity.Function
