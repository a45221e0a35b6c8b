/-
  Fedservice.Entity.Function.PolicyHashOrder

  The policy code walks sets, of operators, of claims and of values, and the order
  of such a walk is another one in every process.  Here the same policies are
  gathered and applied in two orders: either both raise, or both give the same but
  for the order and the repetitions in lists.

  One operator at a time in two orders, then `lockstep_combineClaimPolicy` for what
  is alike; the two come together by transitivity.
-/

import Fedservice.Entity.Function.PolicyReapplication
import Fedservice.Entity.Function.PolicyApplication
import Fedservice.Lib.Tandem

namespace Fedservice.Entity.Function

open Fedservice.Lib Fedservice.Py Fedservice.EntityStatement

variable {Key : Type} {ho ho' : HashOrder} {p q r : ClaimPolicy}

/-! ## Combining in two orders -/

/-- A set as a list, walked in two orders. -/
theorem sameList_listOf_orders {s : JsonSet} (hs : ∀ y ∈ s.elems, y.hashable = true) :
    SameList (listOf ho s) (listOf ho' s) := by
  obtain ⟨t, ht, hmem⟩ := toSet_listOf ho hs
  obtain ⟨t', ht', hmem'⟩ := toSet_listOf ho' hs
  exact ⟨rfl, rfl, t, t', ht, ht', fun x => by rw [hmem, hmem']⟩

theorem lockstep_op2func_orders (k : OperatorKind) (v c : Json) :
    Lockstep SameList (op2func ho k v c) (op2func ho' k v c) := by
  have hinter : Lockstep SameList
      (do return listOf ho ((← v.toSet).inter (← c.toSet)) : Except Exc Json)
      (do return listOf ho' ((← v.toSet).inter (← c.toSet))) := by
    cases hv : v.toSet with
    | error e => exact .error e e
    | ok s =>
        cases c.toSet with
        | error e => exact .error e e
        | ok t =>
            refine .ok (sameList_listOf_orders fun y hy => ?_)
            exact Json.hashable_of_toSet hv y (KeyedSet.mem_elems_inter hy)
  have hunion : Lockstep SameList
      (do return listOf ho ((← v.asSet).union (← c.asSet)) : Except Exc Json)
      (do return listOf ho' ((← v.asSet).union (← c.asSet))) := by
    cases hv : v.asSet with
    | error e => exact .error e e
    | ok s =>
        cases hc : c.asSet with
        | error e => exact .error e e
        | ok t =>
            refine .ok (sameList_listOf_orders fun y hy => ?_)
            rcases KeyedSet.mem_elems_union hy with hy | hy
            · exact hashable_of_asSet hv y hy
            · exact hashable_of_asSet hc y hy
  cases k with
  | subsetOf | supersetOf | oneOf => exact hinter
  | add => exact hunion
  | value | default | essential => exact .error _ _

theorem lockstep_doPolicy_orders (p child : ClaimPolicy) (k : OperatorKind) :
    Lockstep (Like k) (doPolicy ho k p child k) (doPolicy ho' k p child k) := by
  by_cases hk : isSetOperator k = true
  · rw [doPolicy_of_isSetOperator hk, doPolicy_of_isSetOperator hk]
    unfold doSubOneSuperAdd
    cases p.lookup k.name with
    | none => exact Lockstep.refl (Like.refl k) _
    | some s =>
        cases child.lookup k.name with
        | none => exact Lockstep.refl (Like.refl k) _
        | some c =>
            refine (lockstep_op2func_orders k s c).bind (fun v w hlist => ?_)
            simp only [hlist.truthy_iff]
            exact Lockstep.ite (fun _ => .ok (Or.inr ⟨hk, hlist⟩)) (fun _ => .error _ _)
  · -- the others walk nothing
    have hsame : doPolicy ho k p child k = doPolicy ho' k p child k := by
      cases k with
      | subsetOf | supersetOf | oneOf | add => exact absurd rfl hk
      | value | default | essential => rfl
    rw [hsame]
    exact Lockstep.refl (Like.refl k) _

/-- The same operators, walked in two orders, and values that are alike. -/
theorem lockstep_mergeOperators_orders (p child : ClaimPolicy) {ops ops' : List OperatorKind}
    (hops : ∀ k, k ∈ ops ↔ k ∈ ops') :
    Lockstep Alike (mergeOperators ho p child ops) (mergeOperators ho' p child ops') := by
  refine Lockstep.of_exists_iff ?_ (fun rule rule' hrule hrule' k => ?_)
  · unfold mergeOperators
    rw [Dict.exists_insertEach_iff, Dict.exists_insertEach_iff]
    refine forall_congr' fun k => ?_
    rw [hops k, (lockstep_doPolicy_orders p child k).exists_iff]
  · obtain ⟨hall, hframe⟩ := Dict.insertEach_eq_ok OperatorKind.name_injective hrule
    obtain ⟨hall', hframe'⟩ := Dict.insertEach_eq_ok OperatorKind.name_injective hrule'
    by_cases hk : k ∈ ops
    · obtain ⟨v, hv, hlookup⟩ := hall k hk
      obtain ⟨w, hw, hlookup'⟩ := hall' k ((hops k).mp hk)
      obtain ⟨w', hw', hlike⟩ := (lockstep_doPolicy_orders p child k).exists_of_ok hv
      rw [hw, Except.ok.injEq] at hw'
      rw [hlookup, hlookup', hw']
      exact .some hlike
    · have hother : ∀ k' ∈ ops, k.name ≠ k'.name :=
        fun k' hk' hname => hk (OperatorKind.name_injective hname ▸ hk')
      rw [hframe k.name hother, hframe' k.name fun k' hk' => hother k' ((hops k').mpr hk')]
      exact .none

theorem lockstep_combineClaimPolicy_orders (p child : ClaimPolicy) :
    Lockstep Alike (combineClaimPolicy ho p child) (combineClaimPolicy ho' p child) := by
  unfold combineClaimPolicy
  refine Lockstep.ite (fun _ => Lockstep.refl Alike.refl _) (fun _ => ?_)
  refine (Lockstep.refl (R := fun _ _ => True) (fun _ => trivial) (checkEssential p child)).bind
    (fun _ _ _ => ?_)
  refine (Lockstep.refl (R := fun _ _ => True) (fun _ => trivial) (checkOneOf _)).bind
    (fun _ _ _ => ?_)
  have hops : ∀ k, k ∈ ho.arrange (operatorsOf p child) ↔ k ∈ ho'.arrange (operatorsOf p child) :=
    fun k => by rw [ho.mem_arrange, ho'.mem_arrange]
  refine (lockstep_mergeOperators_orders p child hops).bind (fun rule rule' hrule => ?_)
  exact (lockstep_checkRule hrule _).bind (fun _ _ _ => .ok hrule)

/-! ## Names -/

/-- Policies that are alike, also in the names that are no operators. -/
structure SamePolicy (p q : ClaimPolicy) : Prop where
  alike : Alike p q
  names : ∀ name, name ∈ p ↔ name ∈ q

theorem SamePolicy.refl (p : ClaimPolicy) : SamePolicy p p := ⟨Alike.refl p, fun _ => Iff.rfl⟩

/-- A name that is no operator stays where the superior's policy stays as it is. -/
theorem mem_combineClaimPolicy_iff {child : ClaimPolicy}
    (h : combineClaimPolicy ho p child = .ok r) {name : String}
    (hname : ∀ k : OperatorKind, name ≠ k.name) :
    name ∈ r ↔ "value" ∈ p ∧ "essential" ∉ child ∧ name ∈ p := by
  rcases combineClaimPolicy_eq_ok h with ⟨hvalue, h⟩ | ⟨hvalue, h⟩
  · rcases combineUnderValue_eq_ok h with ⟨hnone, rfl⟩ | ⟨hess, -, -, hother⟩ | ⟨hess, -, rfl⟩
    · exact ⟨fun hmem => ⟨hvalue, hnone .essential, hmem⟩, fun hmem => hmem.2.2⟩
    · have hgone := hother name (hname .value) (hname .essential)
      refine iff_of_false (AList.lookup_eq_none.mp hgone) fun hmem => ?_
      exact hmem.2.1 ((hess .essential).mpr rfl)
    · exact ⟨fun hmem => ⟨hvalue, hess, hmem⟩, fun hmem => hmem.2.2⟩
  · have hgone := h.only name fun k _ => hname k
    exact iff_of_false (AList.lookup_eq_none.mp hgone) fun hmem => hvalue hmem.1

/-- Superiors that are alike, combined with one child in two orders. -/
theorem lockstep_combineClaimPolicy_same (h : SamePolicy p q) (child : ClaimPolicy) :
    Lockstep SamePolicy (combineClaimPolicy ho p child) (combineClaimPolicy ho' q child) := by
  have halike : Lockstep Alike (combineClaimPolicy ho p child) (combineClaimPolicy ho' q child) :=
    (lockstep_combineClaimPolicy h.alike child).trans (lockstep_combineClaimPolicy_orders q child)
      fun _ _ _ hpq hqr => hpq.trans hqr
  refine Lockstep.of_exists_iff halike.exists_iff fun s t hs ht => ?_
  obtain ⟨t', ht', hst⟩ := halike.exists_of_ok hs
  obtain rfl : t = t' := Except.ok.inj (ht.symm.trans ht')
  refine ⟨hst, fun name => ?_⟩
  by_cases hname : ∀ k : OperatorKind, name ≠ k.name
  · rw [mem_combineClaimPolicy_iff hs hname, mem_combineClaimPolicy_iff ht hname, h.names, h.names]
  · obtain ⟨k, hk⟩ := not_forall.mp hname
    rw [Classical.not_not.mp hk]
    exact hst.mem_iff

/-! ## Gathering in two orders -/

/-- Rules with the same metadata, and policies that are the same up to lists. -/
structure SameRule (rule rule' : Rule) : Prop where
  metadata : ∀ claim, rule.metadata.lookup claim = rule'.metadata.lookup claim
  policy : ∀ claim,
    Option.Rel SamePolicy (rule.metadataPolicy.lookup claim) (rule'.metadataPolicy.lookup claim)

theorem SameRule.refl (rule : Rule) : SameRule rule rule :=
  ⟨fun _ => rfl, fun _ => Dict.rel_refl SamePolicy.refl _⟩

theorem SamePolicy.symm (h : SamePolicy p q) : SamePolicy q p :=
  ⟨h.alike.symm, fun name => (h.names name).symm⟩

theorem SameRule.symm {rule rule' : Rule} (h : SameRule rule rule') : SameRule rule' rule :=
  ⟨fun claim => (h.metadata claim).symm,
    fun claim => Dict.rel_symm (fun _ _ hsame => hsame.symm) (h.policy claim)⟩

theorem SameRule.exists_combine {rule rule' sub mid : Rule} (h : SameRule rule rule')
    (hmid : combine ho rule sub = .ok mid) : ∃ mid', combine ho' rule' sub = .ok mid' := by
  obtain ⟨hagree, hclaims⟩ := exists_combine_iff.mp ⟨mid, hmid⟩
  refine exists_combine_iff.mpr ⟨fun claim v w hv hw => ?_, fun claim p' q hp' hq => ?_⟩
  · rw [← h.metadata claim] at hv
    exact hagree claim v w hv hw
  · rcases Dict.rel_cases (h.policy claim) with ⟨-, hno⟩ | ⟨p, p'', hp, hp'', hsame⟩
    · rw [hp'] at hno
      exact absurd hno (by simp)
    · obtain rfl := Option.some.inj (hp'.symm.trans hp'')
      exact (lockstep_combineClaimPolicy_same hsame q).exists_iff.mp (hclaims claim p q hp hq)

/-- Step: one statement. -/
theorem lockstep_combine_same {rule rule' : Rule} (h : SameRule rule rule') (sub : Rule) :
    Lockstep SameRule (combine ho rule sub) (combine ho' rule' sub) := by
  refine Lockstep.of_exists_iff ?_ (fun mid mid' hmid hmid' => ⟨fun claim => ?_, fun claim => ?_⟩)
  · exact ⟨fun ⟨_, hmid⟩ => h.exists_combine hmid, fun ⟨_, hmid⟩ => h.symm.exists_combine hmid⟩
  · rw [combine_metadata hmid, combine_metadata hmid', h.metadata]
  · obtain ⟨hboth, hsup, hsub⟩ := combine_claimPolicy claim hmid
    obtain ⟨hboth', hsup', hsub'⟩ := combine_claimPolicy claim hmid'
    cases hq : sub.metadataPolicy.lookup claim with
    | none =>
        rw [hsup hq, hsup' hq]
        exact h.policy claim
    | some q =>
        rcases Dict.rel_cases (h.policy claim) with ⟨hp, hp'⟩ | ⟨p, p', hp, hp', hsame⟩
        · rw [hsub hp, hsub' hp', hq]
          exact .some (SamePolicy.refl q)
        · obtain ⟨r, hr, hlookup⟩ := hboth p q hp hq
          obtain ⟨r', hr', hlookup'⟩ := hboth' p' q hp' hq
          have hcombine : Lockstep SamePolicy (combineClaimPolicy ho p q)
              (combineClaimPolicy ho' p' q) := lockstep_combineClaimPolicy_same hsame q
          obtain ⟨r'', hr'', hsame'⟩ := hcombine.exists_of_ok hr
          rw [hr', Except.ok.injEq] at hr''
          rw [hlookup, hlookup', hr'']
          exact .some hsame'

/-- Run: the statements below. -/
theorem lockstep_gatherLoop_same {entityType : String} {rule rule' : Rule} (h : SameRule rule rule')
    (rest : List (Statement Key)) :
    Lockstep SameRule (gatherLoop ho entityType rule rest)
      (gatherLoop ho' entityType rule' rest) := by
  induction rest generalizing rule rule' with
  | nil => exact .ok h
  | cons es rest ih =>
      simp only [gatherLoop]
      refine Lockstep.ite (fun _ => ih h) (fun _ => ?_)
      refine Lockstep.ite (fun _ => .error _ _) (fun _ => ?_)
      exact (lockstep_combine_same h (ruleOf es entityType)).bind (fun mid mid' hmid => ih hmid)

theorem lockstep_gatherPolicies (chain : List (Statement Key)) (entityType : String) :
    Lockstep SameRule (gatherPolicies ho chain entityType) (gatherPolicies ho' chain entityType) := by
  unfold gatherPolicies
  cases chain with
  | nil => exact .error _ _
  | cons es rest => exact lockstep_gatherLoop_same (SameRule.refl _) rest

/-! ## Applying in two orders -/

/-- What is alike is the same as a set. -/
theorem Like.sameAsSets {k : OperatorKind} {v w : Json} (h : Like k v w) : SameAsSets v w := by
  rcases h with rfl | ⟨-, hlist⟩
  · exact Or.inl rfl
  · exact Or.inr hlist

theorem SameAsSets.isList_eq {v w : Json} (h : SameAsSets v w) : v.isList = w.isList := by
  rcases h with rfl | hlist
  · rfl
  · rw [hlist.left, hlist.right]

theorem SameAsSets.eq_of_not_isList {v w : Json} (h : SameAsSets v w) (hv : v.isList = false) :
    v = w := by
  rcases h with rfl | hlist
  · rfl
  · rw [hlist.left] at hv
    exact absurd hv (by simp)

/-- Sets with the same members, all of them with a hash. -/
structure SameSet (s t : JsonSet) : Prop where
  members : SameMembers s t
  left : ∀ y ∈ s.elems, y.hashable = true
  right : ∀ y ∈ t.elems, y.hashable = true

theorem SameSet.inter {s t s' t' : JsonSet} (h : SameSet s t) (h' : SameSet s' t') :
    SameSet (s.inter s') (t.inter t') where
  members x := by rw [KeyedSet.mem_inter, KeyedSet.mem_inter, h.members x, h'.members x]
  left y hy := h.left y (KeyedSet.mem_elems_inter hy)
  right y hy := h.right y (KeyedSet.mem_elems_inter hy)

theorem SameSet.union {s t s' t' : JsonSet} (h : SameSet s t) (h' : SameSet s' t') :
    SameSet (s.union s') (t.union t') where
  members x := by rw [KeyedSet.mem_union, KeyedSet.mem_union, h.members x, h'.members x]
  left y hy := (KeyedSet.mem_elems_union hy).elim (h.left y) (h'.left y)
  right y hy := (KeyedSet.mem_elems_union hy).elim (h.right y) (h'.right y)

theorem SameSet.sdiff_isEmpty {s t s' t' : JsonSet} (h : SameSet s t) (h' : SameSet s' t') :
    (s.sdiff s').isEmpty = true ↔ (t.sdiff t').isEmpty = true := by
  rw [KeyedSet.sdiff_isEmpty_iff, KeyedSet.sdiff_isEmpty_iff]
  exact forall_congr' fun x => by rw [h.members x, h'.members x]

theorem SameSet.isEmpty {s t : JsonSet} (h : SameSet s t) :
    s.isEmpty = true ↔ t.isEmpty = true := by
  rw [KeyedSet.isEmpty_iff, KeyedSet.isEmpty_iff]
  exact forall_congr' fun x => not_congr (h.members x)

/-- As lists, each in an order of its own. -/
theorem SameSet.sameAsSets_listOf {s t : JsonSet} (h : SameSet s t) :
    SameAsSets (listOf ho s) (listOf ho' t) := by
  have hlisted : SameList (listOf ho s) (listOf ho t) := sameList_listOf h.left h.right h.members
  exact Or.inr (hlisted.trans (sameList_listOf_orders h.right))

theorem lockstep_toSet {v w : Json} (h : SameAsSets v w) : Lockstep SameSet v.toSet w.toSet := by
  rcases h with rfl | ⟨-, -, s, t, hs, ht, hsame⟩
  · cases hs : v.toSet with
    | error e => exact .error e e
    | ok s =>
        have hread := Json.hashable_of_toSet hs
        exact .ok ⟨fun _ => Iff.rfl, hread, hread⟩
  · rw [hs, ht]
    exact .ok ⟨hsame, Json.hashable_of_toSet hs, Json.hashable_of_toSet ht⟩

theorem lockstep_asSet {v w : Json} (h : SameAsSets v w) : Lockstep SameSet v.asSet w.asSet := by
  rcases h with rfl | hlist
  · cases hs : v.asSet with
    | error e => exact .error e e
    | ok s =>
        have hread := hashable_of_asSet hs
        exact .ok ⟨fun _ => Iff.rfl, hread, hread⟩
  · rw [Json.asSet_of_isList hlist.left, Json.asSet_of_isList hlist.right]
    exact lockstep_toSet (Or.inr hlist)

/-- What an operator does to the slot. -/
def SameResult (r r' : OpResult) : Prop :=
  r.next = r'.next ∧ Option.Rel SameAsSets r.assign r'.assign

theorem SameResult.refl (r : OpResult) : SameResult r r :=
  ⟨rfl, Dict.rel_refl SameAsSets.refl _⟩

variable {claim next : String} {slot slot' : Option Json} {v w : Json}

theorem lockstep_add (hparam : SameAsSets v w) (hslot : Option.Rel SameAsSets slot slot') :
    Lockstep SameResult (Add.call ho v slot) (Add.call ho' w slot') := by
  rcases Dict.rel_cases hslot with ⟨rfl, rfl⟩ | ⟨x, y, rfl, rfl, hxy⟩
  · exact .ok ⟨rfl, .some hparam⟩
  · have hunion : Lockstep SameSet (union x v) (union y w) :=
      (lockstep_asSet hxy).bind fun _ _ hbase =>
        (lockstep_asSet hparam).bind fun _ _ hext => .ok (hbase.union hext)
    exact hunion.bind fun _ _ hset => .ok ⟨rfl, .some hset.sameAsSets_listOf⟩

theorem lockstep_supersetOf (hparam : SameAsSets v w) (hslot : Option.Rel SameAsSets slot slot') :
    Lockstep SameResult (SupersetOf.call v slot) (SupersetOf.call w slot') := by
  rcases Dict.rel_cases hslot with ⟨rfl, rfl⟩ | ⟨x, y, rfl, rfl, hxy⟩
  · exact .ok (SameResult.refl _)
  · refine (lockstep_toSet hparam).bind fun s t hset => ?_
    refine (lockstep_toSet hxy).bind fun s' t' hset' => ?_
    simp only [hset.sdiff_isEmpty hset']
    exact Lockstep.ite (fun _ => .ok (SameResult.refl _)) (fun _ => .error _ _)

/-- A value that is looked up in a list is looked up in a set. -/
theorem isIn_congr (h : SameAsSets v w) (x : Json) : x.isIn v = x.isIn w := by
  rcases h with rfl | ⟨hv, hw, s, t, hs, ht, hsame⟩
  · rfl
  · obtain ⟨xs, rfl⟩ := Json.isList_iff.mp hv
    obtain ⟨ys, rfl⟩ := Json.isList_iff.mp hw
    have hin : ∀ {zs : List Json} {u : JsonSet}, (Json.arr zs).toSet = .ok u →
        (zs.any (fun z => z.eqv x) = true ↔ x ∈ u) := by
      intro zs u hu
      rw [Json.mem_toSet hu, Json.lists_arr]
      simp [Json.Holds, Json.held, Json.eqv_iff]
    refine congrArg Except.ok ?_
    rw [Bool.eq_iff_iff, hin hs, hin ht, hsame x]

theorem lockstep_oneOf (hparam : SameAsSets v w) (hslot : Option.Rel SameAsSets slot slot') :
    Lockstep SameResult (OneOf.call next v slot) (OneOf.call next w slot') := by
  rcases Dict.rel_cases hslot with ⟨rfl, rfl⟩ | ⟨x, y, rfl, rfl, hxy⟩
  · exact .ok (SameResult.refl _)
  · unfold OneOf.call
    simp only [← hxy.isList_eq]
    by_cases hlist : x.isList = true
    · rw [if_pos hlist, if_pos hlist]
      exact .ok (SameResult.refl _)
    · -- a single value is the same on both sides, and what is allowed are the same values
      obtain rfl := hxy.eq_of_not_isList (Bool.eq_false_iff.mpr hlist)
      rw [if_neg hlist, if_neg hlist, isIn_congr hparam]
      cases x.isIn w with
      | error e => exact .error e e
      | ok found =>
          exact Lockstep.ite (fun _ => .ok (SameResult.refl _)) (fun _ => .error _ _)

theorem isIn_toJson_congr (h : SamePolicy p q) (x : Json) :
    x.isIn p.toJson = x.isIn q.toJson := by
  have hany : ∀ policy : ClaimPolicy,
      ((policy.entries.map fun e => (e.1, e.2)).any fun e => (Json.str e.1).eqv x) = true ↔
        ∃ name ∈ policy, (Json.str name).eqv x = true := by
    intro policy
    simp only [List.any_map, List.any_eq_true, Function.comp_apply, AList.mem_keys, AList.keys,
      List.keys, List.mem_map]
    exact ⟨fun ⟨e, he, heqv⟩ => ⟨e.1, ⟨e, he, rfl⟩, heqv⟩,
      fun ⟨_, ⟨e, he, hname⟩, heqv⟩ => ⟨e, he, hname ▸ heqv⟩⟩
  unfold ClaimPolicy.toJson Json.isIn
  simp only [Bool.eq_iff_iff.mpr ((hany p).trans ((exists_congr fun name =>
    and_congr_left fun _ => h.names name).trans (hany q).symm))]

theorem lockstep_subsetOf (h : SamePolicy p q) (hparam : SameAsSets v w)
    (hslot : Option.Rel SameAsSets slot slot') :
    Lockstep SameResult (SubsetOf.call ho p v slot) (SubsetOf.call ho' q w slot') := by
  rcases Dict.rel_cases hslot with ⟨rfl, rfl⟩ | ⟨x, y, rfl, rfl, hxy⟩
  · exact .ok (SameResult.refl _)
  · unfold SubsetOf.call
    simp only [← hxy.isList_eq]
    by_cases hlist : x.isList = true
    · rw [if_pos hlist, if_pos hlist]
      refine (lockstep_toSet hparam).bind fun s t hset => ?_
      refine (lockstep_toSet hxy).bind fun s' t' hset' => ?_
      have hboth := hset.inter hset'
      simp only [hboth.isEmpty]
      exact Lockstep.ite (fun _ => .error _ _)
        (fun _ => .ok ⟨rfl, .some hboth.sameAsSets_listOf⟩)
    · obtain rfl := hxy.eq_of_not_isList (Bool.eq_false_iff.mpr hlist)
      rw [if_neg hlist, if_neg hlist, isIn_toJson_congr h]
      cases x.isIn q.toJson with
      | error e => exact .error e e
      | ok found =>
          refine Lockstep.ite (fun _ => ?_) (fun _ => .error _ _)
          refine Lockstep.ite (fun _ => ?_) (fun _ => .error _ _)
          exact Lockstep.refl SameResult.refl _

theorem lockstep_onSlot (h : SamePolicy p q) (hslot : Option.Rel SameAsSets slot slot')
    (o : PolicyOperator) :
    Lockstep SameResult (o.onSlot ho claim p slot) (o.onSlot ho' claim q slot') := by
  have hitem : Lockstep (Like o.kind) (item p o.name) (item q o.name) := by
    unfold item
    rcases Dict.rel_cases (h.alike o.kind) with ⟨hp, hq⟩ | ⟨a, b, hp, hq, hlike⟩
    · rw [PolicyOperator.name, hp, hq]
      exact .error _ _
    · rw [PolicyOperator.name, hp, hq]
      exact .ok hlike
  refine hitem.bind fun a b hlike => ?_
  have hparam := hlike.sameAsSets
  have hequal : isSetOperator o.kind = false → a = b := by
    intro hk
    rcases hlike with rfl | ⟨hset, -⟩
    · rfl
    · rw [hk] at hset
      exact absurd hset (by simp)
  cases hkind : o.kind with
  | value => exact .ok ⟨rfl, .some hparam⟩
  | add => exact lockstep_add hparam hslot
  | default =>
      rcases Dict.rel_cases hslot with ⟨rfl, rfl⟩ | ⟨x, y, rfl, rfl, -⟩
      · exact .ok ⟨rfl, .some hparam⟩
      · exact .ok (SameResult.refl _)
  | oneOf => exact lockstep_oneOf hparam hslot
  | subsetOf => exact lockstep_subsetOf h hparam hslot
  | supersetOf => exact lockstep_supersetOf hparam hslot
  | essential =>
      rw [hkind] at hequal
      obtain rfl := hequal rfl
      rcases Dict.rel_cases hslot with ⟨rfl, rfl⟩ | ⟨x, y, rfl, rfl, -⟩
      · exact Lockstep.refl SameResult.refl _
      · exact .ok (SameResult.refl _)

theorem lockstep_runOperator (h : SamePolicy p q) (hslot : Option.Rel SameAsSets slot slot')
    (kind : OperatorKind) :
    Lockstep (Option.Rel SameAsSets) (runOperator ho claim p kind slot)
      (runOperator ho' claim q kind slot') := by
  unfold runOperator
  simp only [h.names]
  refine Lockstep.ite (fun _ => ?_) (fun _ => .ok hslot)
  refine (lockstep_onSlot h hslot _).bind fun r r' hr => .ok ?_
  rcases Dict.rel_cases hr.2 with ⟨ha, hb⟩ | ⟨x, y, ha, hb, hxy⟩
  · rw [ha, hb]
    exact hslot
  · rw [ha, hb]
    exact .some hxy

theorem decidedByOneOf_congr (h : SamePolicy p q) (hslot : Option.Rel SameAsSets slot slot') :
    decidedByOneOf p slot = decidedByOneOf q slot' := by
  unfold decidedByOneOf
  simp only [h.names]
  rcases Dict.rel_cases hslot with ⟨rfl, rfl⟩ | ⟨x, y, rfl, rfl, hxy⟩
  · rfl
  · rw [Option.any_some, Option.any_some, hxy.isList_eq]

/-- The operators of one claim, in order. -/
theorem lockstep_evalClaim (h : SamePolicy p q) (hslot : Option.Rel SameAsSets slot slot') :
    Lockstep (Option.Rel SameAsSets) (evalClaim ho claim p slot) (evalClaim ho' claim q slot') := by
  have hrun : ∀ (kind : OperatorKind) {s t : Option Json}, Option.Rel SameAsSets s t →
      Lockstep (Option.Rel SameAsSets) (runOperator ho claim p kind s)
        (runOperator ho' claim q kind t) := fun kind _ _ hst => lockstep_runOperator h hst kind
  unfold evalClaim
  simp only [h.names]
  refine Lockstep.ite (fun _ => ?_) (fun _ => ?_)
  · exact (hrun .value hslot).bind fun _ _ hst => hrun .essential hst
  · refine (hrun .add hslot).bind fun _ _ hst => ?_
    refine (hrun .default hst).bind fun _ _ hst => ?_
    refine (hrun .oneOf hst).bind fun _ _ hst' => ?_
    rw [decidedByOneOf_congr h hst]
    refine Lockstep.ite (fun _ => hrun .essential hst') (fun _ => ?_)
    refine (hrun .subsetOf hst').bind fun _ _ hst => ?_
    exact (hrun .supersetOf hst).bind fun _ _ hst => hrun .essential hst

/-! ## Metadata in two orders -/

/-- The policies of the claims are the same up to lists. -/
def SamePolicies (d d' : MetadataPolicy) : Prop :=
  ∀ claim, Option.Rel SamePolicy (d.lookup claim) (d'.lookup claim)

theorem lockstep_settle {d d' : MetadataPolicy} (h : SamePolicies d d')
    (hslot : Option.Rel SameAsSets slot slot') :
    Lockstep (Option.Rel SameAsSets) (settle ho d claim slot) (settle ho' d' claim slot') := by
  unfold settle
  rcases Dict.rel_cases (h claim) with ⟨hd, hd'⟩ | ⟨p, q, hd, hd', hpq⟩
  · rw [hd, hd']
    exact .ok hslot
  · rw [hd, hd']
    exact lockstep_evalClaim hpq hslot

/-- What is left behind by a raise depends on the order: some claims have been settled
    before, others have not. -/
theorem tandem_applyMetadataPolicy {d d' : MetadataPolicy} (h : SamePolicies d d') :
    Tandem SameMetadata (fun _ _ => True) (fun _ _ => True)
      (applyMetadataPolicy ho d constructEvaluationSequence)
      (applyMetadataPolicy ho' d' constructEvaluationSequence) := by
  intro m n hmn
  have hsettle : ∀ claim, Lockstep (Option.Rel SameAsSets) (settle ho d claim (m.lookup claim))
      (settle ho' d' claim (n.lookup claim)) := fun claim => lockstep_settle h (hmn claim)
  refine OutcomesRelated.of_exists_iff ?_ fun a m' b n' hm' hn' => ⟨trivial, fun claim => ?_⟩
  · have hleft := @exists_applyMetadataPolicy_iff ho d m
    have hright := @exists_applyMetadataPolicy_iff ho' d' n
    have hboth : (∀ claim, ∃ slot, settle ho d claim (m.lookup claim) = .ok slot) ↔
        ∀ claim, ∃ slot, settle ho' d' claim (n.lookup claim) = .ok slot :=
      forall_congr' fun claim => (hsettle claim).exists_iff
    exact ⟨fun ⟨_, m', hm'⟩ => ⟨(), hright.mpr (hboth.mp (hleft.mp ⟨m', hm'⟩))⟩,
      fun ⟨_, n', hn'⟩ => ⟨(), hleft.mpr (hboth.mpr (hright.mp ⟨n', hn'⟩))⟩⟩
  · obtain ⟨slot, hslot, hrel⟩ :=
      (hsettle claim).exists_of_ok (settle_of_applyMetadataPolicy hm' claim)
    rw [settle_of_applyMetadataPolicy hn' claim] at hslot
    exact Except.ok.inj hslot ▸ hrel

theorem tandem_applyRulePolicy {d d' : MetadataPolicy} (h : SamePolicies d d') :
    Tandem SameMetadata (fun _ _ => True) SameMetadata (applyRulePolicy ho d)
      (applyRulePolicy ho' d') := by
  have hempty : d.isEmpty = true ↔ d'.isEmpty = true := by
    rw [Dict.isEmpty_iff_lookup, Dict.isEmpty_iff_lookup]
    refine forall_congr' fun claim => ?_
    rcases Dict.rel_cases (h claim) with ⟨hd, hd'⟩ | ⟨p, q, hd, hd', -⟩
    · rw [hd, hd']
    · simp [hd, hd']
  refine Tandem.ite hempty (fun _ => tandem_get) (fun _ => ?_)
  exact (tandem_applyMetadataPolicy h).bind fun _ _ _ => tandem_get

theorem SameMetadata.update {m m' n n' : Metadata} (h : SameMetadata m m')
    (h' : SameMetadata n n') : SameMetadata (m.update n) (m'.update n') := by
  intro claim
  rw [Dict.lookup_update, Dict.lookup_update]
  rcases Dict.rel_cases (h' claim) with ⟨hn, hn'⟩ | ⟨v, w, hn, hn', hvw⟩
  · rw [hn, hn']
    exact h claim
  · rw [hn, hn']
    exact .some hvw

theorem SameMetadata.of_lookup_eq {m m' : Metadata}
    (h : ∀ claim, m.lookup claim = m'.lookup claim) : SameMetadata m m' := by
  intro claim
  rw [h claim]
  exact Dict.rel_refl SameAsSets.refl _

theorem tandem_applyPolicy {rule rule' : Rule} (h : SameRule rule rule') :
    Tandem SameMetadata (fun _ _ => True) SameMetadata (applyPolicy ho rule)
      (applyPolicy ho' rule') := by
  have hempty : rule.metadata.isEmpty = true ↔ rule'.metadata.isEmpty = true := by
    rw [Dict.isEmpty_iff_lookup, Dict.isEmpty_iff_lookup]
    simp only [h.metadata]
  refine Tandem.ite hempty (fun _ => tandem_applyRulePolicy h.policy) (fun _ => ?_)
  -- a copy is made on both sides
  intro m n hmn
  have hcopy := (SameMetadata.of_lookup_eq h.metadata).update hmn
  have hpolicy : Tandem SameMetadata (fun _ _ => True) SameMetadata
      (applyRulePolicy ho rule.metadataPolicy) (applyRulePolicy ho' rule'.metadataPolicy) :=
    tandem_applyRulePolicy h.policy
  rcases (hpolicy _ _ hcopy).cases with
    ⟨a, s, b, t, hm, hn, hab, -⟩ | ⟨e, s, e', t, hm, hn, -⟩
  · simp only [hm, hn]
    exact .ok hab hmn
  · simp only [hm, hn]
    exact .error e e' trivial

end Fedservice.Entity.Function
