/-
  Fedservice.EntityStatement.TrustChainStore

  `get_trust_chain` (__init__.py), and what a history of `save_trust_chains`
  leaves in the store for it.

  `chains2dict` selects by anchor what `shortestTo` says: the first chain with
  the least number of statements (`lookup_chains2dict`).  One call writes those
  to the slots of its leaf and leaves every other slot as it is
  (`saveTrustChains_ofLeaf`), so that after a run a slot holds what the latest
  call that had something for it selected (`saveCalls_slot`).
-/

import Mathlib.Data.List.MinMax
import Fedservice.Lib.ExState
import Fedservice.EntityStatement.SaveTrustChains

namespace Fedservice.EntityStatement

open Fedservice.Lib Fedservice.Py

variable {Key : Type}

/-- `federation_context.trust_chain`: by leaf and by trust anchor. -/
abbrev TrustChainStore (Key : Type) := Dict (Dict (TrustChain Key))

/-- What `get_trust_chain` returns, if anything. -/
inductive TrustInfo (Key : Type) where
  | chain (trustChain : TrustChain Key)
  /-- All chains of an entity, by trust anchor. -/
  | byAnchor (trustChains : Dict (TrustChain Key))

/-- `get_trust_chain`. -/
def getTrustChain (kept : TrustChainStore Key) (entityId : EntityId)
    (trustAnchor : Option EntityId := some "") : Option (TrustInfo Key) :=
  match kept.lookup entityId with
  | none => none
  | some trustInfo =>
      if trustInfo.isEmpty then none
      else match trustAnchor with
        | none | some "" => some (.byAnchor trustInfo)
        | some anchor => (trustInfo.lookup anchor).map .chain

/-! ## Slots -/

/-- The chain kept for a leaf and a trust anchor. -/
def slot (kept : TrustChainStore Key) (leaf anchor : EntityId) : Option (TrustChain Key) :=
  (kept.lookup leaf).bind (·.lookup anchor)

/-- Asked for a trust anchor, `get_trust_chain` reads one slot. -/
theorem getTrustChain_eq_slot (kept : TrustChainStore Key) (leaf : EntityId) {anchor : EntityId}
    (h : anchor ≠ "") :
    getTrustChain kept leaf (some anchor) = (slot kept leaf anchor).map .chain := by
  unfold getTrustChain slot
  cases kept.lookup leaf with
  | none => rfl
  | some trustInfo =>
      by_cases hempty : trustInfo.isEmpty = true
      · simp [hempty, Dict.lookup_of_isEmpty hempty]
      · simp [hempty]

/-- What the body of the loop of `save_trust_chains` does to the slots of the leaf. -/
theorem slot_insert (kept : TrustChainStore Key) (leaf ta anchor : EntityId)
    (tc : TrustChain Key) :
    slot (kept.insert leaf (((kept.lookup leaf).getD ∅).insert ta tc)) leaf anchor =
      if anchor = ta then some tc else slot kept leaf anchor := by
  unfold slot
  rw [AList.lookup_insert, Option.bind_some, Dict.lookup_insert']
  by_cases hanchor : anchor = ta
  · rw [if_pos hanchor, if_pos hanchor]
  · rw [if_neg hanchor, if_neg hanchor]
    cases kept.lookup leaf <;> rfl

/-! ## chains2dict -/

/-- The chains of a list that end at a trust anchor. -/
def chainsTo (anchor : EntityId) (trustChains : List (TrustChain Key)) : List (TrustChain Key) :=
  trustChains.filter (·.anchor = anchor)

/-- Of these the first with the least number of statements. -/
def shortestTo (anchor : EntityId) (trustChains : List (TrustChain Key)) :
    Option (TrustChain Key) :=
  (chainsTo anchor trustChains).argmin (·.verifiedChain.length)

theorem chainsTo_concat (anchor : EntityId) (trustChains : List (TrustChain Key))
    (tc : TrustChain Key) :
    chainsTo anchor (trustChains ++ [tc]) =
      if tc.anchor = anchor then chainsTo anchor trustChains ++ [tc]
      else chainsTo anchor trustChains := by
  unfold chainsTo
  rw [List.filter_append]
  by_cases h : tc.anchor = anchor <;> simp [h]

/-- Step: what one more chain does to the choice for an anchor is what the body of the loop
    does to the entry. -/
theorem shortestTo_concat (anchor : EntityId) (trustChains : List (TrustChain Key))
    (tc : TrustChain Key) :
    shortestTo anchor (trustChains ++ [tc]) =
      if tc.anchor = anchor then
        match shortestTo anchor trustChains with
        | none => some tc
        | some kept =>
            if tc.verifiedChain.length < kept.verifiedChain.length then some tc else some kept
      else shortestTo anchor trustChains := by
  unfold shortestTo
  rw [chainsTo_concat]
  by_cases h : tc.anchor = anchor
  · rw [if_pos h, if_pos h, List.argmin_concat]
    cases (chainsTo anchor trustChains).argmin (·.verifiedChain.length) <;> rfl
  · rw [if_neg h, if_neg h]

theorem lookup_addChain (res : Dict (TrustChain Key)) (tc : TrustChain Key) (anchor : EntityId) :
    (addChain res tc).lookup anchor =
      if tc.anchor = anchor then
        match res.lookup anchor with
        | none => some tc
        | some kept =>
            if tc.verifiedChain.length < kept.verifiedChain.length then some tc else some kept
      else res.lookup anchor := by
  unfold addChain
  by_cases h : tc.anchor = anchor
  · subst h
    rw [if_pos rfl]
    cases hkept : res.lookup tc.anchor with
    | none => simp
    | some kept =>
        by_cases hlt : tc.verifiedChain.length < kept.verifiedChain.length
        · simp [hlt]
        · simp [hlt, hkept]
  · rw [if_neg h]
    cases res.lookup tc.anchor with
    | none => simp [Ne.symm h]
    | some kept =>
        by_cases hlt : tc.verifiedChain.length < kept.verifiedChain.length
        · simp [hlt, Ne.symm h]
        · simp [hlt]

/-- Run: `chains2dict` keeps the first shortest chain of each anchor. -/
theorem lookup_chains2dict (trustChains : List (TrustChain Key)) (anchor : EntityId) :
    (chains2dict trustChains).lookup anchor = shortestTo anchor trustChains := by
  induction trustChains using List.reverseRecOn with
  | nil => rfl
  | append_singleton trustChains tc ih =>
      rw [shortestTo_concat, ← ih, ← lookup_addChain, chains2dict, List.foldl_concat]
      rfl

theorem shortestTo_eq_none {anchor : EntityId} {trustChains : List (TrustChain Key)} :
    shortestTo anchor trustChains = none ↔ ∀ tc ∈ trustChains, tc.anchor ≠ anchor := by
  unfold shortestTo chainsTo
  rw [List.argmin_eq_none, List.filter_eq_nil_iff]
  simp

theorem mem_of_shortestTo {anchor : EntityId} {trustChains : List (TrustChain Key)}
    {tc : TrustChain Key} (h : shortestTo anchor trustChains = some tc) :
    tc ∈ trustChains ∧ tc.anchor = anchor := by
  have hmem := List.argmin_mem h
  rw [chainsTo, List.mem_filter, decide_eq_true_eq] at hmem
  exact hmem

/-! ## save_trust_chains -/

/-- Run: the loop writes the entries it is given, no key twice, to the slots of the leaf. -/
theorem saveEach_ofLeaf {leaf : EntityId} {entries : List (Sigma fun _ : String => TrustChain Key)}
    (hkeys : entries.NodupKeys) (hleaf : ∀ e ∈ entries, e.2.issPath.head? = some leaf)
    (kept : TrustChainStore Key) :
    ∃ kept', saveEach kept (entries.map fun e => (e.1, e.2)) = .ok kept' ∧
      (∀ other, other ≠ leaf → kept'.lookup other = kept.lookup other) ∧
      ∀ anchor, slot kept' leaf anchor = (entries.dlookup anchor).or (slot kept leaf anchor) := by
  induction entries generalizing kept with
  | nil => exact ⟨kept, rfl, fun other _ => rfl, fun anchor => rfl⟩
  | cons e rest ih =>
      obtain ⟨ta, tc⟩ := e
      rw [List.nodupKeys_cons] at hkeys
      rw [List.forall_mem_cons] at hleaf
      obtain ⟨path, hpath⟩ := List.head?_eq_some_iff.mp hleaf.1
      obtain ⟨kept', hrest, hothers, hslots⟩ :=
        ih hkeys.2 hleaf.2 (kept.insert leaf (((kept.lookup leaf).getD ∅).insert ta tc))
      refine ⟨kept', ?_, fun other hne => ?_, fun anchor => ?_⟩
      · have hent : tc.issPath = leaf :: path := hpath
        simp only [List.map_cons, saveEach, hent]
        exact hrest
      · rw [hothers other hne, AList.lookup_insert_ne hne]
      · rw [hslots, slot_insert]
        by_cases ha : anchor = ta
        · subst ha
          -- the key does not come again
          have hnone : rest.dlookup anchor = none := List.dlookup_eq_none.mpr hkeys.1
          simp [hnone]
        · have hother : List.dlookup anchor (⟨ta, tc⟩ :: rest) = rest.dlookup anchor :=
            List.dlookup_cons_ne rest ⟨ta, tc⟩ ha
          rw [if_neg ha, hother]

/-- A call of `save_trust_chains` with chains of one entity. -/
structure SaveCall (Key : Type) where
  leaf : EntityId
  trustChains : List (TrustChain Key)
  of_leaf : ∀ tc ∈ trustChains, tc.issPath.head? = some leaf

/-- Step: a call writes the chains it selects to the slots of its leaf, and nothing else. -/
theorem saveTrustChains_ofLeaf (call : SaveCall Key) (kept : TrustChainStore Key) :
    ∃ kept', saveTrustChains call.trustChains kept = .ok kept' ∧
      (∀ other, other ≠ call.leaf → kept'.lookup other = kept.lookup other) ∧
      ∀ anchor, slot kept' call.leaf anchor =
        (shortestTo anchor call.trustChains).or (slot kept call.leaf anchor) := by
  have hleaf : ∀ e ∈ (chains2dict call.trustChains).entries,
      e.2.issPath.head? = some call.leaf := by
    intro e he
    have hlookup := AList.mem_lookup_iff.mpr he
    rw [lookup_chains2dict, Option.mem_def] at hlookup
    exact call.of_leaf e.2 (mem_of_shortestTo hlookup).1
  obtain ⟨kept', hsave, hothers, hslots⟩ :=
    saveEach_ofLeaf (chains2dict call.trustChains).nodupKeys hleaf kept
  refine ⟨kept', hsave, hothers, fun anchor => ?_⟩
  rw [hslots, ← lookup_chains2dict]
  rfl

/-- Calls one after the other. -/
def saveCalls (calls : List (SaveCall Key)) (kept : TrustChainStore Key) :
    Except Exc (TrustChainStore Key) :=
  calls.foldlM (fun kept call => saveTrustChains call.trustChains kept) kept

/-- What the latest of the calls for a leaf that had a chain to an anchor selected for it. -/
def latestSaved (calls : List (SaveCall Key)) (leaf anchor : EntityId) :
    Option (TrustChain Key) :=
  calls.reverse.findSome? fun call =>
    if call.leaf = leaf then shortestTo anchor call.trustChains else none

theorem latestSaved_concat (calls : List (SaveCall Key)) (call : SaveCall Key)
    (leaf anchor : EntityId) :
    latestSaved (calls ++ [call]) leaf anchor =
      if leaf = call.leaf then
        (shortestTo anchor call.trustChains).or (latestSaved calls leaf anchor)
      else latestSaved calls leaf anchor := by
  unfold latestSaved
  rw [List.reverse_concat, List.findSome?_cons]
  by_cases h : leaf = call.leaf
  · subst h
    rw [if_pos rfl, if_pos rfl]
    cases shortestTo anchor call.trustChains <;> rfl
  · rw [if_neg (Ne.symm h), if_neg h]

/-- Run: no sequence of calls raises, and a slot holds afterwards what the latest call that
    had something for it selected, or what it held before. -/
theorem saveCalls_slot (calls : List (SaveCall Key)) (kept : TrustChainStore Key) :
    ∃ kept', saveCalls calls kept = .ok kept' ∧
      ∀ leaf anchor, slot kept' leaf anchor =
        (latestSaved calls leaf anchor).or (slot kept leaf anchor) := by
  induction calls using List.reverseRecOn with
  | nil => exact ⟨kept, rfl, fun leaf anchor => rfl⟩
  | append_singleton calls call ih =>
      obtain ⟨mid, hmid, hbefore⟩ := ih
      obtain ⟨kept', hcall, hothers, hafter⟩ := saveTrustChains_ofLeaf call mid
      refine ⟨kept', ?_, fun leaf anchor => ?_⟩
      · unfold saveCalls at hmid ⊢
        rw [List.foldlM_append, hmid]
        simp [hcall]
      · rw [latestSaved_concat]
        by_cases h : leaf = call.leaf
        · subst h
          rw [if_pos rfl, hafter, hbefore, Option.or_assoc]
        · rw [if_neg h, slot, hothers leaf h]
          exact hbefore leaf anchor

/-! ## What get_trust_chain finds -/

/-- `chains2dict` has the anchors that occur, each with the first of its shortest chains; after
    any sequence of calls `get_trust_chain` finds, for a trust anchor that is not the empty
    string, what the latest call that had a chain to it selected; and one call changes nothing
    for other leaves, nor for anchors that it has no chain to. -/
theorem save_keeps_shortest :
    (∀ (trustChains : List (TrustChain Key)) (anchor : EntityId),
      (anchor ∈ chains2dict trustChains ↔ ∃ tc ∈ trustChains, tc.anchor = anchor) ∧
        (chains2dict trustChains).lookup anchor = shortestTo anchor trustChains) ∧
    (∀ calls : List (SaveCall Key), ∃ kept, saveCalls calls ∅ = .ok kept ∧
      ∀ leaf anchor, anchor ≠ "" →
        getTrustChain kept leaf (some anchor) = (latestSaved calls leaf anchor).map .chain) ∧
    ∀ (call : SaveCall Key) (kept : TrustChainStore Key),
      ∃ kept', saveTrustChains call.trustChains kept = .ok kept' ∧
        (∀ other anchor, other ≠ call.leaf →
          getTrustChain kept' other anchor = getTrustChain kept other anchor) ∧
        ∀ anchor, anchor ≠ "" → (∀ tc ∈ call.trustChains, tc.anchor ≠ anchor) →
          getTrustChain kept' call.leaf (some anchor) =
            getTrustChain kept call.leaf (some anchor) := by
  refine ⟨fun trustChains anchor => ⟨?_, lookup_chains2dict trustChains anchor⟩, ?_, ?_⟩
  · rw [← AList.lookup_isSome, lookup_chains2dict, Option.isSome_iff_ne_none, ne_eq,
      shortestTo_eq_none]
    simp
  · intro calls
    obtain ⟨kept, hrun, hslots⟩ := saveCalls_slot calls ∅
    refine ⟨kept, hrun, fun leaf anchor hne => ?_⟩
    rw [getTrustChain_eq_slot kept leaf hne, hslots]
    -- nothing was kept before
    cases latestSaved calls leaf anchor <;> rfl
  · intro call kept
    obtain ⟨kept', hsave, hothers, hslots⟩ := saveTrustChains_ofLeaf call kept
    refine ⟨kept', hsave, fun other anchor hne => ?_, fun anchor hne hnone => ?_⟩
    · unfold getTrustChain
      rw [hothers other hne]
    · rw [getTrustChain_eq_slot kept' _ hne, getTrustChain_eq_slot kept _ hne, hslots,
        shortestTo_eq_none.mpr hnone, Option.none_or]

/-- A trust chain from an anchor down to a leaf. -/
def chainDown (path : List EntityId) : TrustChain Nat where
  anchor := path.headD ""
  issPath := path.reverse
  verifiedChain := List.zipWith (fun iss sub => { iss := iss, sub := sub }) path
    (path.tail ++ path.getLast?.toList)

/-- A call with a chain to each of two anchors. -/
def twoAnchorsSaved : SaveCall Nat where
  leaf := "https://rp.org"
  trustChains :=
    [chainDown ["https://ta.org", "https://rp.org"], chainDown ["https://ta.net", "https://rp.org"]]
  of_leaf := by simp [chainDown]

/-- A later call with a longer and a shorter way from the first of them. -/
def twoWaysSaved : SaveCall Nat where
  leaf := "https://rp.org"
  trustChains :=
    [chainDown ["https://ta.org", "https://im.net", "https://im.org", "https://rp.org"],
     chainDown ["https://ta.org", "https://im.org", "https://rp.org"]]
  of_leaf := by simp [chainDown]

theorem twoCallsSaved_found :
    ∃ kept, saveCalls [twoAnchorsSaved, twoWaysSaved] ∅ = .ok kept ∧
      getTrustChain kept "https://rp.org" (some "https://ta.org") =
        some (.chain (chainDown ["https://ta.org", "https://im.org", "https://rp.org"])) ∧
      getTrustChain kept "https://rp.org" (some "https://ta.net") =
        some (.chain (chainDown ["https://ta.net", "https://rp.org"])) := by
  obtain ⟨kept, hrun, hfound⟩ := (@save_keeps_shortest Nat).2.1 [twoAnchorsSaved, twoWaysSaved]
  exact ⟨kept, hrun, hfound "https://rp.org" "https://ta.org" (by decide),
    hfound "https://rp.org" "https://ta.net" (by decide)⟩

/-- Without a trust anchor, and that is what the empty string is, `get_trust_chain` returns the
    dictionary with all chains of an entity: no chain to an anchor of that name was saved. -/
theorem empty_anchor_gets_all :
    ¬ ∀ (calls : List (SaveCall Nat)) (kept : TrustChainStore Nat),
      saveCalls calls ∅ = .ok kept → ∀ leaf anchor,
        getTrustChain kept leaf (some anchor) = (latestSaved calls leaf anchor).map .chain := by
  intro hall
  have hnone := hall [twoAnchorsSaved] _ rfl "https://rp.org" ""
  exact Option.some_ne_none _ hnone

end Fedservice.EntityStatement
