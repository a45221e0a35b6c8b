/-
  Fedservice.Entity.Function.RejectedChain

  What a list of statements that is not accepted leaves behind.  The loop of
  `verify_trust_chain` adds keys statement by statement, before it looks at the
  statements to come and before the restrictions of the whole chain are checked,
  and nothing takes them out again.
-/

import Fedservice.Entity.Function.KeyAdditions

namespace Fedservice.Entity.Function

open Fedservice.Lib Fedservice.Py Fedservice.EntityStatement Fedservice.Crypto

variable {Jar Key : Type} [KeyStore Jar Key] [DecidableEq Key]

/-- A call that returns no statements, or raises. -/
def Rejected (result : EStateM.Result Exc Jar (List (Statement Key))) : Prop :=
  outcome result = .ok [] ∨ ∃ e, outcome result = .error e

/-- The same keys are held, for every issuer. -/
def SameKeys (jar jar' : Jar) : Prop := ∀ id k, k ∈ keysOf jar' id ↔ k ∈ keysOf jar id

/-- Every statement that the loop gets to and accepts lists only keys that are held for its
    subject. -/
def NothingToLearn (jar : Jar) (stmts : List (SignedStatement Key)) : Prop :=
  ∀ upto s rest, stmts = upto ++ s :: rest → Reached jar upto s →
    ∀ k ∈ s.payload.keys, k ∈ keysOf jar s.payload.sub

/-- A key that is listed down to a statement the loop gets to, and is not held, leads to an
    addition: by that statement or by one further up. -/
theorem leadsTo_of_reached {jar : Jar} {upto rest : List (SignedStatement Key)}
    {s : SignedStatement Key} {id : EntityId} {k : Key} (hreached : Reached jar upto s)
    (hlisted : HeldOrListed jar (upto ++ [s]) id k) (hnew : k ∉ keysOf jar id) :
    ∃ a, LeadsTo jar (upto ++ s :: rest) a := by
  -- on the statements above `s`, from what the key jar has learnt by then
  induction upto generalizing jar with
  | nil =>
      have hsigner := (signedFromAbove_cons.mp hreached.signed).1
      rw [List.nil_append, ← heldOrListed_learn, heldOrListed_nil, mem_keysOf_learn_iff] at hlisted
      obtain ⟨a, ha, -⟩ := hlisted.resolve_left hnew
      exact ⟨a, leadsTo_cons.mpr ⟨hsigner, Or.inl ha⟩⟩
  | cons u upto ih =>
      obtain ⟨hsigner, hjwks, hrest⟩ := reached_cons.mp hreached
      by_cases hlearnt : k ∈ keysOf (learn jar u.payload) id
      · rw [mem_keysOf_learn_iff] at hlearnt
        obtain ⟨a, ha, -⟩ := hlearnt.resolve_left hnew
        exact ⟨a, leadsTo_cons.mpr ⟨hsigner, Or.inl ha⟩⟩
      · have hlisted' : HeldOrListed (learn jar u.payload) (upto ++ [s]) id k :=
          heldOrListed_learn.mpr hlisted
        obtain ⟨a, ha⟩ := ih hrest hlisted' hlearnt
        exact ⟨a, leadsTo_cons.mpr ⟨hsigner, Or.inr ⟨hjwks, ha⟩⟩⟩

/-- Nothing is added exactly if there is nothing to learn. -/
theorem nothingToLearn_iff {jar : Jar} {stmts : List (SignedStatement Key)} :
    NothingToLearn jar stmts ↔ ∀ a, ¬ LeadsTo jar stmts a := by
  constructor
  · rintro h a ⟨upto, s, rest, hsplit, hreached, -, -, hk, hnew⟩
    have hheld := h upto s rest hsplit hreached a.key hk
    exact hnew (Or.inl hheld)
  · rintro h upto s rest rfl hreached k hk
    by_contra hnew
    have hlisted : HeldOrListed jar (upto ++ [s]) s.payload.sub k :=
      Or.inr ⟨s, List.mem_append_right upto (List.mem_singleton.mpr rfl), rfl, hk⟩
    obtain ⟨a, ha⟩ := @leadsTo_of_reached _ _ _ _ _ _ rest _ _ _ hreached hlisted hnew
    exact h a ha

/-- A call leaves the keys as they are exactly if it makes no addition. -/
theorem sameKeys_call_iff {jar : Jar} {ts : List (Token Key)} :
    SameKeys jar (finalState (verifyTrustChain ts jar)) ↔ ∀ a, a ∉ callAdditions jar ts := by
  unfold SameKeys
  simp only [mem_keysOf_call]
  constructor
  · intro h a ha
    -- what is added was not there by then, nor at the start
    have hheld := (h a.under a.key).mp (Or.inr ⟨a, ha, rfl, rfl⟩)
    obtain ⟨-, upto, s, rest, -, -, hunder, -, -, hnew⟩ := mem_callAdditions.mp ha
    rw [hunder] at hheld
    exact hnew (Or.inl hheld)
  · intro h id k
    refine ⟨fun hin => ?_, Or.inl⟩
    rcases hin with hin | ⟨a, ha, -⟩
    · exact hin
    · exact absurd ha (h a)

/-- A call, rejected or not, leaves the key jar as it was exactly if the statements accepted
    on the way list only keys that were held before. -/
theorem rejected_changes_nothing_iff (jar : Jar) (ts : List (Token Key)) :
    SameKeys jar (finalState (verifyTrustChain ts jar)) ↔
      ((∃ first rest, ts = .jws first :: rest) → NothingToLearn jar (ts.filterMap factory)) := by
  rw [sameKeys_call_iff, nothingToLearn_iff]
  simp only [mem_callAdditions, not_and]
  exact ⟨fun h hhead a => h a hhead, fun h a hhead => h hhead a⟩

/-- The signature of the second statement is not the intermediate's; the key that the first
    one lists for the intermediate is there to stay. -/
theorem rejected_chain_leaves_key :
    ¬ ∀ (jar : AssocJar Nat) (ts : List (Token Nat)), Rejected (verifyTrustChain ts jar) →
      SameKeys jar (finalState (verifyTrustChain ts jar)) := by
  intro h
  have hsame := h ⟨[("https://ta.example", [1])]⟩
    [.jws ⟨{ iss := "https://ta.example", sub := "https://im.example", jwks := some [2] }, 1⟩,
      .jws ⟨{ iss := "https://im.example", sub := "https://rp.example", jwks := some [3] }, 9⟩]
    (Or.inr ⟨.badSignature, rfl⟩) "https://im.example" 2
  exact absurd hsame (by decide)

end Fedservice.Entity.Function
