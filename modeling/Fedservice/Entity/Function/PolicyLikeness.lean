/-
  Fedservice.Entity.Function.PolicyLikeness

  Claim policies that are the same but for the order and the repetitions of the
  values in their lists.  Combining does not tell them apart: `combine_claim_policy`
  and `gather_policies` go the same way on both, and what they return is alike
  again.
-/

import Fedservice.Entity.Function.PolicyConflicts
import Fedservice.Entity.Function.GatheringVerdict
import Mathlib.Data.Option.Basic

namespace Fedservice.Entity.Function

open Fedservice.Lib Fedservice.Py Fedservice.EntityStatement

variable {Key : Type} {ho : HashOrder} {p q r : ClaimPolicy}

/-! ## Values and policies that are alike -/

/-- The operators whose values are sets. -/
def isSetOperator : OperatorKind → Bool
  | .subsetOf | .supersetOf | .oneOf | .add => true
  | _ => false

/-- Two lists that `set()` reads as the same set. -/
structure SameList (v w : Json) : Prop where
  left : v.isList = true
  right : w.isList = true
  same : ∃ s t, v.toSet = .ok s ∧ w.toSet = .ok t ∧ ∀ x, x ∈ s ↔ x ∈ t

theorem SameList.symm {v w : Json} (h : SameList v w) : SameList w v := by
  obtain ⟨hv, hw, s, t, hs, ht, hsame⟩ := h
  exact ⟨hw, hv, t, s, ht, hs, fun x => (hsame x).symm⟩

theorem SameList.trans {u v w : Json} (h₁ : SameList u v) (h₂ : SameList v w) : SameList u w := by
  obtain ⟨hu, hv, s, t, hs, ht, hsame⟩ := h₁
  obtain ⟨-, hw, t', z, ht', hz, hsame'⟩ := h₂
  obtain rfl : t = t' := Except.ok.inj (ht.symm.trans ht')
  exact ⟨hu, hw, s, z, hs, hz, fun x => (hsame x).trans (hsame' x)⟩

/-- A list counts as true if it holds something. -/
theorem truthy_iff_of_toSet {v : Json} {s : JsonSet} (hlist : v.isList = true)
    (hs : v.toSet = .ok s) : v.truthy = true ↔ ∃ x, x ∈ s := by
  obtain ⟨xs, rfl⟩ := Json.isList_iff.mp hlist
  simp only [Json.mem_toSet hs, Json.lists_arr]
  cases xs with
  | nil => simp [Json.truthy, Json.Holds, Json.held]
  | cons x xs =>
      refine ⟨fun _ => ⟨x, x, by simp [Json.held], rfl⟩, fun _ => ?_⟩
      simp [Json.truthy]

theorem SameList.truthy_iff {v w : Json} (h : SameList v w) :
    v.truthy = true ↔ w.truthy = true := by
  obtain ⟨hv, hw, s, t, hs, ht, hsame⟩ := h
  rw [truthy_iff_of_toSet hv hs, truthy_iff_of_toSet hw ht]
  simp only [hsame]

/-- Equal values; for an operator on sets it is enough that they are the same list. -/
def Like (k : OperatorKind) (v w : Json) : Prop :=
  v = w ∨ (isSetOperator k = true ∧ SameList v w)

theorem Like.refl (k : OperatorKind) (v : Json) : Like k v v := Or.inl rfl

theorem Like.symm {k : OperatorKind} {v w : Json} (h : Like k v w) : Like k w v := by
  rcases h with rfl | ⟨hset, hsame⟩
  · exact Like.refl k v
  · exact Or.inr ⟨hset, hsame.symm⟩

theorem Like.trans {k : OperatorKind} {u v w : Json} (h₁ : Like k u v) (h₂ : Like k v w) :
    Like k u w := by
  rcases h₁ with rfl | ⟨hset, hsame₁⟩
  · exact h₂
  · rcases h₂ with rfl | ⟨-, hsame₂⟩
    · exact Or.inr ⟨hset, hsame₁⟩
    · exact Or.inr ⟨hset, hsame₁.trans hsame₂⟩

/-- The same operators, with values that are alike. -/
def Alike (p q : ClaimPolicy) : Prop :=
  ∀ k : OperatorKind, Option.Rel (Like k) (p.lookup k.name) (q.lookup k.name)

theorem Alike.refl (p : ClaimPolicy) : Alike p p :=
  fun k => Dict.rel_refl (Like.refl k) _

theorem Alike.symm (h : Alike p q) : Alike q p :=
  fun k => Dict.rel_symm (fun _ _ hlike => hlike.symm) (h k)

theorem Alike.trans (h₁ : Alike p q) (h₂ : Alike q r) : Alike p r :=
  fun k => Dict.rel_trans (fun _ _ _ hlike₁ hlike₂ => hlike₁.trans hlike₂) (h₁ k) (h₂ k)

/-- The other operators have the same value. -/
theorem Alike.lookup_eq (h : Alike p q) {k : OperatorKind} (hk : isSetOperator k = false) :
    p.lookup k.name = q.lookup k.name := by
  rcases Dict.rel_cases (h k) with ⟨hp, hq⟩ | ⟨v, w, hp, hq, hlike⟩
  · rw [hp, hq]
  · rcases hlike with rfl | ⟨hset, -⟩
    · rw [hp, hq]
    · rw [hk] at hset
      exact absurd hset (by simp)

theorem Alike.mem_iff (h : Alike p q) {k : OperatorKind} : k.name ∈ p ↔ k.name ∈ q := by
  rw [Dict.mem_iff_lookup, Dict.mem_iff_lookup]
  rcases Dict.rel_cases (h k) with ⟨hp, hq⟩ | ⟨v, w, hp, hq, -⟩
  · simp [hp, hq]
  · simp [hp, hq]

theorem Alike.knownOperators_eq (h : Alike p q) : knownOperators p = knownOperators q := by
  refine List.filter_congr (fun k _ => ?_)
  rw [Bool.eq_iff_iff, decide_eq_true_eq, decide_eq_true_eq, h.mem_iff]

theorem item_congr {d d' : Dict Json} {k : String} (h : d.lookup k = d'.lookup k) :
    item d k = item d' k := by
  rw [item, item, h]

/-! ## Merging what is alike -/

/-- A set written as a list, and another one with the same members. -/
theorem sameList_listOf {s t : JsonSet} (hs : ∀ y ∈ s.elems, y.hashable = true)
    (ht : ∀ y ∈ t.elems, y.hashable = true) (hsame : ∀ x, x ∈ s ↔ x ∈ t) :
    SameList (listOf ho s) (listOf ho t) := by
  obtain ⟨s', hs', hmem⟩ := toSet_listOf ho hs
  obtain ⟨t', ht', hmem'⟩ := toSet_listOf ho ht
  exact ⟨rfl, rfl, s', t', hs', ht', fun x => by rw [hmem, hmem', hsame]⟩

theorem hashable_of_asSet {a : Json} {s : JsonSet} (h : a.asSet = .ok s) :
    ∀ y ∈ s.elems, y.hashable = true := by
  unfold Json.asSet at h
  split at h
  · exact Json.hashable_of_toSet h
  · unfold Json.singletonSet at h
    split at h
    · rename_i hh
      obtain rfl := Except.ok.inj h
      intro y hy
      rw [List.mem_singleton.mp (KeyedSet.mem_elems_ofList hy)]
      exact hh
    · exact absurd h (by simp)

/-- The merged lists of two lists that are the same. -/
theorem lockstep_op2func {k : OperatorKind} {v w c : Json} (hk : isSetOperator k = true)
    (h : SameList v w) : Lockstep SameList (op2func ho k v c) (op2func ho k w c) := by
  obtain ⟨hv, hw, s, t, hs, ht, hsame⟩ := h
  -- three of the operators take the intersection, and `add` the union
  have hinter : Lockstep SameList
      (do return listOf ho ((← v.toSet).inter (← c.toSet)) : Except Exc Json)
      (do return listOf ho ((← w.toSet).inter (← c.toSet))) := by
    rw [hs, ht]
    simp only [except_ok_bind]
    cases c.toSet with
    | error e => exact .error e e
    | ok u =>
        refine .ok (sameList_listOf
          (fun y hy => Json.hashable_of_toSet hs y (KeyedSet.mem_elems_inter hy))
          (fun y hy => Json.hashable_of_toSet ht y (KeyedSet.mem_elems_inter hy)) (fun x => ?_))
        rw [KeyedSet.mem_inter, KeyedSet.mem_inter, hsame]
  have hunion : Lockstep SameList
      (do return listOf ho ((← v.asSet).union (← c.asSet)) : Except Exc Json)
      (do return listOf ho ((← w.asSet).union (← c.asSet))) := by
    rw [Json.asSet_of_isList hv, Json.asSet_of_isList hw, hs, ht]
    simp only [except_ok_bind]
    cases hc : c.asSet with
    | error e => exact .error e e
    | ok u =>
        have hread := hashable_of_asSet hc
        refine .ok (sameList_listOf
          (fun y hy => (KeyedSet.mem_elems_union hy).elim (Json.hashable_of_toSet hs y) (hread y))
          (fun y hy => (KeyedSet.mem_elems_union hy).elim (Json.hashable_of_toSet ht y) (hread y))
          (fun x => ?_))
        rw [KeyedSet.mem_union, KeyedSet.mem_union, hsame]
  cases k with
  | subsetOf | supersetOf | oneOf => exact hinter
  | add => exact hunion
  | value | default | essential => exact absurd hk (by decide)

theorem doPolicy_of_isSetOperator {k : OperatorKind} (hk : isSetOperator k = true)
    (superior child : ClaimPolicy) :
    doPolicy ho k superior child k = doSubOneSuperAdd ho superior child k := by
  cases k with
  | subsetOf | supersetOf | oneOf | add => rfl
  | value | default | essential => exact absurd hk (by decide)

/-- So are the values of one operator. -/
theorem lockstep_doPolicy (h : Alike p q) (child : ClaimPolicy) (k : OperatorKind) :
    Lockstep (Like k) (doPolicy ho k p child k) (doPolicy ho k q child k) := by
  have hsame : p.lookup k.name = q.lookup k.name →
      doPolicy ho k p child k = doPolicy ho k q child k := by
    intro heq
    cases k <;> simp only [doPolicy, doSubOneSuperAdd, doValue, doDefault, doEssential, heq]
  rcases Dict.rel_cases (h k) with ⟨hp, hq⟩ | ⟨v, w, hp, hq, hlike⟩
  · rw [hsame (hp.trans hq.symm)]
    exact Lockstep.refl (Like.refl k) _
  · rcases hlike with rfl | ⟨hset, hlist⟩
    · rw [hsame (hp.trans hq.symm)]
      exact Lockstep.refl (Like.refl k) _
    · -- the same list in both, next to what the child has
      rw [doPolicy_of_isSetOperator hset, doPolicy_of_isSetOperator hset]
      unfold doSubOneSuperAdd
      rw [hp, hq]
      cases child.lookup k.name with
      | none => exact .ok (Or.inr ⟨hset, hlist⟩)
      | some c =>
          refine (lockstep_op2func hset hlist).bind (fun v' w' hlist' => ?_)
          simp only [hlist'.truthy_iff]
          exact Lockstep.ite (fun _ => .ok (Or.inr ⟨hset, hlist'⟩)) (fun _ => .error _ _)

/-- And the merged policies. -/
theorem lockstep_mergeOperators (h : Alike p q) (child : ClaimPolicy) (ops : List OperatorKind) :
    Lockstep Alike (mergeOperators ho p child ops) (mergeOperators ho q child ops) := by
  refine Lockstep.of_exists_iff ?_ (fun rule rule' hrule hrule' k => ?_)
  · unfold mergeOperators
    rw [Dict.exists_insertEach_iff, Dict.exists_insertEach_iff]
    exact forall₂_congr (fun k _ => (lockstep_doPolicy h child k).exists_iff)
  · obtain ⟨hall, hframe⟩ := Dict.insertEach_eq_ok OperatorKind.name_injective hrule
    obtain ⟨hall', hframe'⟩ := Dict.insertEach_eq_ok OperatorKind.name_injective hrule'
    by_cases hk : k ∈ ops
    · obtain ⟨v, hv, hlookup⟩ := hall k hk
      obtain ⟨w, hw, hlookup'⟩ := hall' k hk
      obtain ⟨w', hw', hlike⟩ := (lockstep_doPolicy h child k).exists_of_ok hv
      rw [hw, Except.ok.injEq] at hw'
      rw [hlookup, hlookup', hw']
      exact .some hlike
    · have hother : ∀ k' ∈ ops, k.name ≠ k'.name :=
        fun k' hk' hname => hk (OperatorKind.name_injective hname ▸ hk')
      rw [hframe k.name hother, hframe' k.name hother]
      exact .none

/-! ## The checks on what is alike -/

/-- Sets with the same members. -/
def SameMembers (s t : JsonSet) : Prop := ∀ x, x ∈ s ↔ x ∈ t

/-- The same sets are read. -/
theorem lockstep_ruleSet (h : Alike p q) (k : OperatorKind) :
    Lockstep SameMembers (ruleSet p k) (ruleSet q k) := by
  unfold ruleSet item
  rcases Dict.rel_cases (h k) with ⟨hp, hq⟩ | ⟨v, w, hp, hq, hlike⟩
  · rw [hp, hq]
    exact .error _ _
  · rw [hp, hq]
    simp only [except_ok_bind]
    rcases hlike with rfl | ⟨-, hlist⟩
    · exact Lockstep.refl (fun s x => Iff.rfl) _
    · obtain ⟨-, -, s, t, hs, ht, hsame⟩ := hlist
      rw [hs, ht]
      exact .ok hsame

theorem lockstep_requireWithin {a a' b b' : Except Exc JsonSet} {message : String}
    (ha : Lockstep SameMembers a a') (hb : Lockstep SameMembers b b') :
    Lockstep (fun _ _ : Unit => True) (requireWithin a b message) (requireWithin a' b' message) := by
  unfold requireWithin
  refine ha.bind (fun s s' hs => hb.bind (fun t t' ht => ?_))
  have hempty : (s.sdiff t).isEmpty = true ↔ (s'.sdiff t').isEmpty = true := by
    rw [KeyedSet.sdiff_isEmpty_iff, KeyedSet.sdiff_isEmpty_iff]
    exact forall_congr' (fun x => by rw [hs x, ht x])
  simp only [hempty]
  exact Lockstep.ite (fun _ => .ok trivial) (fun _ => .error _ _)

/-- So the checks come to the same. -/
theorem lockstep_checkRule (h : Alike p q) (ops : List OperatorKind) :
    Lockstep (fun _ _ : Unit => True) (checkRule ops p) (checkRule ops q) := by
  have hread : ∀ (rule : ClaimPolicy) (k : OperatorKind),
      (do (← item rule k.name).toSet) = ruleSet rule k := fun _ _ => rfl
  have hwithin : ∀ (k k' : OperatorKind) (message : String),
      Lockstep (fun _ _ : Unit => True) (requireWithin (ruleSet p k) (ruleSet p k') message)
        (requireWithin (ruleSet q k) (ruleSet q k') message) :=
    fun k k' _ => lockstep_requireWithin (lockstep_ruleSet h k) (lockstep_ruleSet h k')
  have hdflt : item p OperatorKind.default.name = item q OperatorKind.default.name :=
    item_congr (h.lookup_eq (k := .default) rfl)
  unfold checkRule
  simp only [hread]
  refine Lockstep.ite (fun _ => hwithin _ _ _) (fun _ => ?_)
  refine Lockstep.ite (fun _ => ?_) (fun _ => ?_)
  · exact (hwithin _ _ _).bind (fun _ _ _ => (hwithin _ _ _).bind (fun _ _ _ => hwithin _ _ _))
  refine Lockstep.ite (fun _ => hwithin _ _ _) (fun _ => ?_)
  refine Lockstep.ite (fun _ => hwithin _ _ _) (fun _ => ?_)
  refine Lockstep.ite (fun _ => ?_) (fun _ => ?_)
  · rw [hdflt]
    cases item q OperatorKind.default.name with
    | error e => exact .error e e
    | ok dflt =>
        exact lockstep_requireWithin (Lockstep.refl (fun _ _ => Iff.rfl) _)
          (lockstep_ruleSet h .oneOf)
  refine Lockstep.ite (fun _ => hwithin _ _ _) (fun _ => ?_)
  exact Lockstep.ite (fun _ => hwithin _ _ _) (fun _ => .ok trivial)

/-! ## combine_claim_policy on what is alike -/

theorem checkEssential_congr (h : Alike p q) (child : ClaimPolicy) :
    checkEssential p child = checkEssential q child := by
  have hmem : "essential" ∈ p ↔ "essential" ∈ q := h.mem_iff (k := .essential)
  have hitem : item p "essential" = item q "essential" :=
    item_congr (h.lookup_eq (k := .essential) rfl)
  unfold checkEssential
  simp only [hmem, hitem]

theorem lockstep_combineUnderValue (h : Alike p q) (child : ClaimPolicy)
    (childSet : List OperatorKind) :
    Lockstep Alike (combineUnderValue p child childSet) (combineUnderValue q child childSet) := by
  have hitem : item p "value" = item q "value" := item_congr (h.lookup_eq (k := .value) rfl)
  unfold combineUnderValue
  simp only [hitem]
  refine Lockstep.ite (fun _ => .ok h) (fun _ => ?_)
  refine Lockstep.ite (fun _ => ?_) (fun _ => ?_)
  · exact Lockstep.ite (fun _ => Lockstep.refl Alike.refl _) (fun _ => .error _ _)
  refine Lockstep.ite (fun _ => ?_) (fun _ => .error _ _)
  cases item child "value" with
  | error e => exact .error e e
  | ok w =>
      cases item q "value" with
      | error e => exact .error e e
      | ok v => exact Lockstep.ite (fun _ => .error _ _) (fun _ => .ok h)

/-- Two superiors that are alike combine with the same children, to what is alike. -/
theorem lockstep_combineClaimPolicy (h : Alike p q) (child : ClaimPolicy) :
    Lockstep Alike (combineClaimPolicy ho p child) (combineClaimPolicy ho q child) := by
  unfold combineClaimPolicy
  simp only [h.knownOperators_eq, checkEssential_congr h child]
  -- under a superior's value, or through the checks and the merge
  refine Lockstep.ite (fun _ => lockstep_combineUnderValue h child _) (fun _ => ?_)
  refine (Lockstep.refl (R := fun _ _ => True) (fun _ => trivial) (checkEssential q child)).bind
    (fun _ _ _ => ?_)
  refine (Lockstep.refl (R := fun _ _ => True) (fun _ => trivial) (checkOneOf _)).bind
    (fun _ _ _ => ?_)
  refine (lockstep_mergeOperators h child _).bind (fun rule rule' hrule => ?_)
  exact (lockstep_checkRule hrule _).bind (fun _ _ _ => .ok hrule)

/-! ## Gathering what is alike -/

/-- Rules with the same metadata, and policies that are alike. -/
structure RuleAlike (rule rule' : Rule) : Prop where
  metadata : ∀ claim, rule.metadata.lookup claim = rule'.metadata.lookup claim
  policy : ∀ claim,
    Option.Rel Alike (rule.metadataPolicy.lookup claim) (rule'.metadataPolicy.lookup claim)

theorem RuleAlike.symm {rule rule' : Rule} (h : RuleAlike rule rule') : RuleAlike rule' rule := by
  refine ⟨fun claim => (h.metadata claim).symm, fun claim => ?_⟩
  exact Dict.rel_symm (fun _ _ halike => halike.symm) (h.policy claim)

/-- What combines with a rule combines with one that is alike. -/
theorem RuleAlike.exists_combine {rule rule' sub mid : Rule} (h : RuleAlike rule rule')
    (hmid : combine ho rule sub = .ok mid) : ∃ mid', combine ho rule' sub = .ok mid' := by
  obtain ⟨hagree, hclaims⟩ := exists_combine_iff.mp ⟨mid, hmid⟩
  refine exists_combine_iff.mpr ⟨fun claim v w hv hw => ?_, fun claim p' q hp' hq => ?_⟩
  · rw [← h.metadata claim] at hv
    exact hagree claim v w hv hw
  · rcases Dict.rel_cases (h.policy claim) with ⟨-, hno⟩ | ⟨p, p'', hp, hp'', halike⟩
    · rw [hp'] at hno
      exact absurd hno (by simp)
    · obtain rfl := Option.some.inj (hp'.symm.trans hp'')
      exact (lockstep_combineClaimPolicy halike q).exists_iff.mp (hclaims claim p q hp hq)

/-- Step: one statement. -/
theorem lockstep_combine {rule rule' : Rule} (h : RuleAlike rule rule') (sub : Rule) :
    Lockstep RuleAlike (combine ho rule sub) (combine ho rule' sub) := by
  refine Lockstep.of_exists_iff ?_ (fun mid mid' hmid hmid' => ⟨fun claim => ?_, fun claim => ?_⟩)
  · exact ⟨fun ⟨_, hmid⟩ => h.exists_combine hmid, fun ⟨_, hmid⟩ => h.symm.exists_combine hmid⟩
  · rw [combine_metadata hmid, combine_metadata hmid', h.metadata]
  · obtain ⟨hboth, hsup, hsub⟩ := combine_claimPolicy claim hmid
    obtain ⟨hboth', hsup', hsub'⟩ := combine_claimPolicy claim hmid'
    -- only a claim that both have a policy for is combined
    cases hq : sub.metadataPolicy.lookup claim with
    | none =>
        rw [hsup hq, hsup' hq]
        exact h.policy claim
    | some q =>
        rcases Dict.rel_cases (h.policy claim) with ⟨hp, hp'⟩ | ⟨p, p', hp, hp', halike⟩
        · rw [hsub hp, hsub' hp', hq]
          exact .some (Alike.refl q)
        · obtain ⟨r, hr, hlookup⟩ := hboth p q hp hq
          obtain ⟨r', hr', hlookup'⟩ := hboth' p' q hp' hq
          obtain ⟨r'', hr'', halike'⟩ := (lockstep_combineClaimPolicy halike q).exists_of_ok hr
          rw [hr', Except.ok.injEq] at hr''
          rw [hlookup, hlookup', hr'']
          exact .some halike'

/-- Run: the statements below. -/
theorem lockstep_gatherLoop {entityType : String} {rule rule' : Rule} (h : RuleAlike rule rule')
    (rest : List (Statement Key)) :
    Lockstep RuleAlike (gatherLoop ho entityType rule rest)
      (gatherLoop ho entityType rule' rest) := by
  induction rest generalizing rule rule' with
  | nil => exact .ok h
  | cons es rest ih =>
      simp only [gatherLoop]
      refine Lockstep.ite (fun _ => ih h) (fun _ => ?_)
      refine Lockstep.ite (fun _ => .error _ _) (fun _ => ?_)
      exact (lockstep_combine h (ruleOf es entityType)).bind (fun mid mid' hmid => ih hmid)

end Fedservice.Entity.Function
