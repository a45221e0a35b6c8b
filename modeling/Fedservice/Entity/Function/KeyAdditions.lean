/-
  Fedservice.Entity.Function.KeyAdditions

  Where the keys of the key jar come from.  `callAdditions` follows a call of
  `verify_trust_chain` and records every key it adds, under which issuer and
  from which statement; the record of a run accounts for all that the key jar
  holds (`mem_keysOf_runState`), and `mem_callAdditions` says which additions a
  list of statements leads to, in terms of the list and the key jar alone.
-/

import Fedservice.Entity.Function.Verifier

namespace Fedservice.Entity.Function

open Fedservice.Lib Fedservice.Py Fedservice.EntityStatement Fedservice.Crypto

variable {Jar Key : Type} [KeyStore Jar Key] [DecidableEq Key]

/-! ## The record of additions -/

/-- A key added to the key jar: under which issuer, and from which statement. -/
structure Addition (Key : Type) where
  under : EntityId
  key : Key
  source : Statement Key

/-- The additions made for a verified statement. -/
def additionsOf (jar : Jar) (s : Statement Key) : List (Addition Key) :=
  (s.keys.filter (fun k => decide (k ∉ keysOf jar s.sub))).map (fun k => ⟨s.sub, k, s⟩)

/-- The additions made by the loop, as far as it gets. -/
def loopAdditions (n : Nat) : List (Statement Key) → List (Token Key) → Jar →
    List (Addition Key)
  | _, [], _ => []
  | ves, t :: ts, jar =>
      match verifyStatement n ves t jar with
      | .ok ves' jar' =>
          (factory t).elim [] (fun s => additionsOf jar s.payload) ++ loopAdditions n ves' ts jar'
      | .error _ _ => []

/-- The additions made by a call of `verify_trust_chain`. -/
def callAdditions (jar : Jar) (ts : List (Token Key)) : List (Addition Key) :=
  match ts with
  | [] => []
  | first :: _ =>
      match trustedAnchor jar first with
      | .ok true => loopAdditions (ts.length - 1) [] ts jar
      | _ => []

/-- The additions made by a sequence of calls. -/
def runAdditions (jar : Jar) (calls : List (List (Token Key))) : List (Addition Key) :=
  runLog verifyTrustChain callAdditions jar calls

theorem mem_additionsOf {jar : Jar} {s : Statement Key} {a : Addition Key} :
    a ∈ additionsOf jar s ↔
      a.under = s.sub ∧ a.source = s ∧ a.key ∈ s.keys ∧ a.key ∉ keysOf jar s.sub := by
  simp only [additionsOf, List.mem_map, List.mem_filter, decide_eq_true_eq]
  constructor
  · rintro ⟨k, ⟨hk, hnew⟩, rfl⟩
    exact ⟨rfl, rfl, hk, hnew⟩
  · rintro ⟨hunder, hsource, hk, hnew⟩
    obtain ⟨under, key, source⟩ := a
    exact ⟨key, ⟨hk, hnew⟩, by simp_all⟩

/-! ## The record accounts for the key jar -/

theorem mem_keysOf_learn_iff {jar : Jar} {s : Statement Key} {id : EntityId} {k : Key} :
    k ∈ keysOf (learn jar s) id ↔
      k ∈ keysOf jar id ∨ ∃ a ∈ additionsOf jar s, a.under = id ∧ a.key = k := by
  rw [mem_keysOf_learn]
  constructor
  · rintro (h | ⟨rfl, hk⟩)
    · exact Or.inl h
    · by_cases hin : k ∈ keysOf jar s.sub
      · exact Or.inl hin
      · exact Or.inr ⟨⟨s.sub, k, s⟩, mem_additionsOf.mpr ⟨rfl, rfl, hk, hin⟩, rfl, rfl⟩
  · rintro (h | ⟨a, ha, rfl, rfl⟩)
    · exact Or.inl h
    · obtain ⟨hunder, -, hk, -⟩ := mem_additionsOf.mp ha
      exact Or.inr ⟨hunder, hk⟩

theorem mem_keysOf_loop {n : Nat} {ves : List (Statement Key)} {ts : List (Token Key)}
    {jar : Jar} {id : EntityId} {k : Key} :
    k ∈ keysOf (finalState (verifyLoop n ves ts jar)) id ↔
      k ∈ keysOf jar id ∨ ∃ a ∈ loopAdditions n ves ts jar, a.under = id ∧ a.key = k := by
  -- also for a loop that raises: what the statements before have added stays
  induction ts generalizing ves jar with
  | nil => simp [verifyLoop, loopAdditions]
  | cons t ts ih =>
      rw [verifyLoop, loopAdditions]
      cases hstep : verifyStatement n ves t jar with
      | error e jar' =>
          rw [bind_of_error hstep, finalState_error, verifyStatement_error hstep]
          simp
      | ok ves' jar' =>
          rw [bind_of_ok hstep, ih]
          rcases verifyStatement_eq_ok hstep with ⟨hf, -, rfl⟩ | ⟨s, hf, -, -, rfl⟩
          · simp [hf]
          · simp only [hf, Option.elim_some, mem_keysOf_learn_iff, List.mem_append, or_and_right,
              exists_or, or_assoc]

/-- The key jar after a call: what it held before, and what the call added. -/
theorem mem_keysOf_call {ts : List (Token Key)} {jar : Jar} {id : EntityId} {k : Key} :
    k ∈ keysOf (finalState (verifyTrustChain ts jar)) id ↔
      k ∈ keysOf jar id ∨ ∃ a ∈ callAdditions jar ts, a.under = id ∧ a.key = k := by
  cases ts with
  | nil => simp [verifyTrustChain, callAdditions]
  | cons first rest =>
      simp only [verifyTrustChain, callAdditions]
      rw [bind_of_ok (get_apply jar)]
      cases hanchor : trustedAnchor jar first with
      | error e =>
          rw [bind_of_error (lift_error e jar)]
          simp
      | ok b =>
          rw [bind_of_ok (lift_ok b jar)]
          cases b with
          | false => simp
          | true =>
              -- whether the statements are then accepted does not matter to the key jar
              simp only [Bool.not_true, Bool.false_eq_true, if_false]
              rw [← mem_keysOf_loop]
              cases hloop : verifyLoop ((first :: rest).length - 1) [] (first :: rest) jar with
              | error e jar' => rw [bind_of_error hloop]
              | ok ves jar' => rw [bind_of_ok hloop, finalState_lift, finalState_ok]

/-- The key jar after a run: what it held before, and what the run added. -/
theorem mem_keysOf_runState {calls : List (List (Token Key))} {jar : Jar} {id : EntityId}
    {k : Key} :
    k ∈ keysOf (runState verifyTrustChain jar calls) id ↔
      k ∈ keysOf jar id ∨ ∃ a ∈ runAdditions jar calls, a.under = id ∧ a.key = k := by
  induction calls generalizing jar with
  | nil => simp [runAdditions, runLog]
  | cons ts calls ih =>
      rw [runState_cons, ih, mem_keysOf_call]
      simp only [runAdditions, runLog, List.mem_append, or_and_right, exists_or, or_assoc]

/-! ## Which additions a list of statements leads to -/

/-- The loop gets to `s` and accepts it: everything down to it is signed from
    above, and what comes before it lists keys. -/
structure Reached (jar : Jar) (upto : List (SignedStatement Key)) (s : SignedStatement Key) :
    Prop where
  signed : SignedFromAbove jar (upto ++ [s])
  listing : ∀ u ∈ upto, u.payload.jwks ≠ none

theorem reached_cons {jar : Jar} {u s : SignedStatement Key} {upto : List (SignedStatement Key)} :
    Reached jar (u :: upto) s ↔
      u.signer ∈ keysOf jar u.payload.iss ∧ u.payload.jwks ≠ none ∧
        Reached (learn jar u.payload) upto s := by
  constructor
  · rintro ⟨hsigned, hlisting⟩
    obtain ⟨hsigner, hrest⟩ := signedFromAbove_cons.mp hsigned
    exact ⟨hsigner, hlisting u (List.mem_cons_self ..), hrest,
      fun v hv => hlisting v (List.mem_cons_of_mem _ hv)⟩
  · rintro ⟨hsigner, hjwks, hsigned, hlisting⟩
    refine ⟨signedFromAbove_cons.mpr ⟨hsigner, hsigned⟩, fun v hv => ?_⟩
    rcases List.mem_cons.mp hv with rfl | hv
    · exact hjwks
    · exact hlisting v hv

/-- A statement that the loop gets to leads to the addition `a`. -/
def LeadsTo (jar : Jar) (stmts : List (SignedStatement Key)) (a : Addition Key) : Prop :=
  ∃ upto s rest, stmts = upto ++ s :: rest ∧ Reached jar upto s ∧
    a.under = s.payload.sub ∧ a.source = s.payload ∧ a.key ∈ s.payload.keys ∧
    ¬ HeldOrListed jar upto s.payload.sub a.key

theorem leadsTo_cons {jar : Jar} {s : SignedStatement Key} {stmts : List (SignedStatement Key)}
    {a : Addition Key} :
    LeadsTo jar (s :: stmts) a ↔ s.signer ∈ keysOf jar s.payload.iss ∧
      (a ∈ additionsOf jar s.payload ∨
        (s.payload.jwks ≠ none ∧ LeadsTo (learn jar s.payload) stmts a)) := by
  constructor
  · rintro ⟨upto, u, rest, hsplit, hreached, hunder, hsource, hk, hnew⟩
    cases upto with
    | nil =>
        -- the first statement itself: nothing is listed above it
        obtain ⟨rfl, -⟩ := List.cons.inj hsplit
        have hsigner := (signedFromAbove_cons.mp hreached.signed).1
        refine ⟨hsigner, Or.inl (mem_additionsOf.mpr ⟨hunder, hsource, hk, ?_⟩)⟩
        exact fun hin => hnew (heldOrListed_nil.mpr hin)
    | cons v upto =>
        obtain ⟨rfl, htail⟩ := List.cons.inj hsplit
        obtain ⟨hsigner, hjwks, hrest⟩ := reached_cons.mp hreached
        exact ⟨hsigner, Or.inr ⟨hjwks, upto, u, rest, htail, hrest, hunder, hsource, hk,
          fun hin => hnew (heldOrListed_learn.mp hin)⟩⟩
  · rintro ⟨hsigner, ha | ⟨hjwks, upto, u, rest, rfl, hreached, hunder, hsource, hk, hnew⟩⟩
    · obtain ⟨hunder, hsource, hk, hnew⟩ := mem_additionsOf.mp ha
      exact ⟨[], s, stmts, rfl, ⟨signedFromAbove_cons.mpr ⟨hsigner, signedFromAbove_nil⟩,
        fun u hu => absurd hu List.not_mem_nil⟩, hunder, hsource, hk,
        fun hin => hnew (heldOrListed_nil.mp hin)⟩
    · exact ⟨s :: upto, u, rest, rfl, reached_cons.mpr ⟨hsigner, hjwks, hreached⟩, hunder,
        hsource, hk, fun hin => hnew (heldOrListed_learn.mpr hin)⟩

omit [DecidableEq Key] in
theorem not_leadsTo_nil {jar : Jar} {a : Addition Key} : ¬ LeadsTo jar [] a := by
  rintro ⟨upto, s, rest, hsplit, -⟩
  simp at hsplit

/-- The additions of the loop.  Only the last place of the list may be taken by a
    statement that lists no keys. -/
theorem mem_loopAdditions {n : Nat} (ves : List (Statement Key)) {ts : List (Token Key)}
    (jar : Jar) {a : Addition Key} (hlen : ves.length + ts.length ≤ n + 1) :
    a ∈ loopAdditions n ves ts jar ↔ LeadsTo jar (ts.filterMap factory) a := by
  -- `hlen` says that there are no more places than statements, so a statement
  -- without keys that is not the last one ends the loop
  induction ts generalizing ves jar with
  | nil =>
      exact ⟨fun h => absurd h List.not_mem_nil, fun h => absurd h not_leadsTo_nil⟩
  | cons t ts ih =>
      rw [List.length_cons] at hlen
      rw [loopAdditions]
      cases hf : factory t with
      | none =>
          rw [List.filterMap_cons_none hf, ← ih ves jar (by omega)]
          simp [verifyStatement, hf]
      | some s =>
          rw [List.filterMap_cons_some hf, leadsTo_cons, verifyStatement_apply hf]
          by_cases hsigner : s.signer ∈ keysOf jar s.payload.iss
          · by_cases hjwks : s.payload.jwks = none
            · -- nothing is listed: the loop raises, or this was the last place
              have hnone : a ∉ additionsOf jar s.payload := fun ha => by
                have hk := (mem_additionsOf.mp ha).2.2.1
                simp [Statement.keys, hjwks] at hk
              by_cases hlast : ves.length = n
              · obtain rfl : ts = [] := List.eq_nil_of_length_eq_zero (by omega)
                simp [hsigner, hjwks, hlast, hnone, loopAdditions]
              · simp [hsigner, hjwks, hlast, hnone]
            · rw [if_pos hsigner, if_neg (fun h => hjwks h.1)]
              have hlen' : (ves ++ [s.payload]).length + ts.length ≤ n + 1 := by
                rw [List.length_append, List.length_singleton]
                omega
              have hrest := ih (ves ++ [s.payload]) (learn jar s.payload) hlen'
              simp only [Option.elim_some, List.mem_append, hrest, hsigner, ne_eq, hjwks,
                not_false_eq_true, true_and]
          · rw [if_neg hsigner]
            simp [hsigner]

/-- The additions of a call. -/
theorem mem_callAdditions {ts : List (Token Key)} {jar : Jar} {a : Addition Key} :
    a ∈ callAdditions jar ts ↔
      (∃ first rest, ts = .jws first :: rest) ∧ LeadsTo jar (ts.filterMap factory) a := by
  cases ts with
  | nil => simp [callAdditions]
  | cons t ts =>
      cases t with
      | text raw => simp [callAdditions, trustedAnchor]
      | jws first =>
          simp only [callAdditions, trustedAnchor, factory_jws]
          have hloop : a ∈ loopAdditions ((.jws first :: ts : List (Token Key)).length - 1) []
              (.jws first :: ts) jar ↔ LeadsTo jar ((.jws first :: ts).filterMap factory) a :=
            mem_loopAdditions [] jar (by simp)
          cases hin : KeyStore.contains jar first.payload.iss with
          | true => simp only [hloop, List.cons.injEq, Token.jws.injEq, exists_and_left,
              exists_eq', and_true, true_and]
          | false =>
              -- with the issuer not in the key jar the first statement does not verify
              refine ⟨fun h => absurd h List.not_mem_nil, ?_⟩
              rintro ⟨-, hleads⟩
              rw [List.filterMap_cons_some (factory_jws first), leadsTo_cons] at hleads
              have hcontains := contains_of_mem_keysOf hleads.1
              rw [hin] at hcontains
              exact absurd hcontains (by simp)

end Fedservice.Entity.Function
