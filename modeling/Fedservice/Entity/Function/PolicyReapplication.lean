/-
  Fedservice.Entity.Function.PolicyReapplication

  A policy applied to what it has made of the metadata before.  What a claim
  policy with lists leaves of a list is `Settled` for it: the added values are
  in, only listed values are left and the required ones are there, so the
  operators find nothing more to do, unless they can not read the added values
  as a set.
-/

import Fedservice.Entity.Function.PolicyOnTop
import Fedservice.Entity.Function.PolicyEnforcement
import Fedservice.Entity.Function.PolicyLikeness
import Fedservice.Entity.Function.SingleValue

namespace Fedservice.Entity.Function

open Fedservice.Lib Fedservice.Py Fedservice.EntityStatement

variable {ho : HashOrder} {claim : String} {policy : ClaimPolicy} {slot slot' : Option Json}

/-! ## Claims are never taken away -/

theorem runOperator_isSome {kind : OperatorKind} (hslot : slot.isSome = true)
    (h : runOperator ho claim policy kind slot = .ok slot') : slot'.isSome = true := by
  rcases runOperator_eq_ok h with ⟨-, rfl⟩ | ⟨r, -, rfl⟩
  · exact hslot
  · rw [Option.isSome_or, hslot, Bool.or_true]

theorem evalClaim_isSome (hslot : slot.isSome = true)
    (h : evalClaim ho claim policy slot = .ok slot') : slot'.isSome = true := by
  rw [evalClaim] at h
  split at h
  · obtain ⟨s₁, h₁, h⟩ := except_bind_eq_ok.mp h
    exact runOperator_isSome (runOperator_isSome hslot h₁) h
  · obtain ⟨s₁, h₁, h⟩ := except_bind_eq_ok.mp h
    obtain ⟨s₂, h₂, h⟩ := except_bind_eq_ok.mp h
    obtain ⟨s₃, h₃, h⟩ := except_bind_eq_ok.mp h
    have hs₃ := runOperator_isSome (runOperator_isSome (runOperator_isSome hslot h₁) h₂) h₃
    split at h
    · exact runOperator_isSome hs₃ h
    · obtain ⟨s₄, h₄, h⟩ := except_bind_eq_ok.mp h
      obtain ⟨s₅, h₅, h⟩ := except_bind_eq_ok.mp h
      exact runOperator_isSome (runOperator_isSome (runOperator_isSome hs₃ h₄) h₅) h

/-! ## Operators with lists on a list -/

/-- What `add`, `default`, `subset_of` and `superset_of` are given are lists. -/
def OnLists (policy : ClaimPolicy) : Prop :=
  ∀ kind ∈ [OperatorKind.add, .default, .subsetOf, .supersetOf], ∀ param,
    policy.lookup kind.name = some param → param.isList = true

/-- All values of a list have a hash. -/
def Hashable (v : Json) : Prop := ∀ x ∈ v.held, x.hashable = true

theorem hashable_iff_toSet {xs : List Json} :
    Hashable (.arr xs) ↔ ∃ s, (Json.arr xs).toSet = .ok s :=
  Json.exists_toSet_arr.symm

theorem holds_iff_mem_toSet {xs : List Json} {s : JsonSet} (hs : (Json.arr xs).toSet = .ok s)
    (x : Json) : (Json.arr xs).Holds x ↔ x ∈ s :=
  Json.lists_arr.symm.trans (Json.mem_toSet hs).symm

theorem hashable_listOf {s : JsonSet} (h : ∀ y ∈ s.elems, y.hashable = true) :
    Hashable (listOf ho s) := fun y hy => h y (ho.mem_arrange.mp hy)

/-- `add` can extend a list exactly if both lists can be read as sets. -/
theorem run_add_list {xs added : List Json}
    (hadd : policy.lookup OperatorKind.add.name = some (.arr added)) :
    ((∃ slot', runOperator ho claim policy .add (some (.arr xs)) = .ok slot') ↔
        Hashable (.arr xs) ∧ Hashable (.arr added)) ∧
      ∀ slot', runOperator ho claim policy .add (some (.arr xs)) = .ok slot' →
        ∃ ys, slot' = some (.arr ys) ∧ Hashable (.arr ys) ∧
          ∀ x, (Json.arr ys).Holds x ↔ (Json.arr xs).Holds x ∨ (Json.arr added).Holds x := by
  -- the union of the two sets, as a list
  have hrun : ∀ slot', runOperator ho claim policy .add (some (.arr xs)) = .ok slot' ↔
      ∃ s t, (Json.arr xs).toSet = .ok s ∧ (Json.arr added).toSet = .ok t ∧
        slot' = some (listOf ho (s.union t)) := by
    intro slot'
    rw [runOperator_of_lookup hadd]
    simp only [Add.call, union, Json.asSet_of_isList (Json.isList_iff.mpr ⟨_, rfl⟩)]
    constructor
    · intro h
      obtain ⟨r, hr, hslot⟩ := except_bind_eq_ok.mp h
      obtain ⟨u, hu, hr⟩ := except_bind_eq_ok.mp hr
      obtain ⟨s, hs, hu⟩ := except_bind_eq_ok.mp hu
      obtain ⟨t, ht, hu⟩ := except_bind_eq_ok.mp hu
      obtain rfl := except_pure_eq_ok.mp hu
      obtain rfl := except_pure_eq_ok.mp hr
      exact ⟨s, t, hs, ht, (except_pure_eq_ok.mp hslot).symm⟩
    · rintro ⟨s, t, hs, ht, rfl⟩
      rw [hs, ht]
      rfl
  constructor
  · simp only [hrun, hashable_iff_toSet]
    constructor
    · rintro ⟨slot', s, t, hs, ht, -⟩
      exact ⟨⟨s, hs⟩, ⟨t, ht⟩⟩
    · rintro ⟨⟨s, hs⟩, ⟨t, ht⟩⟩
      exact ⟨_, s, t, hs, ht, rfl⟩
  · intro slot' h
    obtain ⟨s, t, hs, ht, rfl⟩ := (hrun slot').mp h
    refine ⟨_, rfl, hashable_listOf (fun y hy => ?_), fun x => ?_⟩
    · rcases KeyedSet.mem_elems_union hy with hy | hy
      · exact Json.hashable_of_toSet hs y hy
      · exact Json.hashable_of_toSet ht y hy
    · rw [holds_iff_mem_toSet hs, holds_iff_mem_toSet ht, ← KeyedSet.mem_union]
      exact holds_listOf ho

/-- `subset_of` cuts a list down to what both lists have, if that is something. -/
theorem run_subsetOf_eq_ok {xs listed : List Json}
    (hsub : policy.lookup OperatorKind.subsetOf.name = some (.arr listed)) {slot' : Option Json} :
    runOperator ho claim policy .subsetOf (some (.arr xs)) = .ok slot' ↔
      ∃ s t, (Json.arr listed).toSet = .ok s ∧ (Json.arr xs).toSet = .ok t ∧
        (s.inter t).isEmpty = false ∧ slot' = some (listOf ho (s.inter t)) := by
  constructor
  · intro h
    have hcall := h
    rw [runOperator_of_lookup hsub] at hcall
    simp only [SubsetOf.call] at hcall
    rw [if_pos (Json.isList_iff.mpr ⟨_, rfl⟩)] at hcall
    obtain ⟨r, hr, -⟩ := except_bind_eq_ok.mp hcall
    obtain ⟨s, hs, hr⟩ := except_bind_eq_ok.mp hr
    obtain ⟨t, ht, -⟩ := except_bind_eq_ok.mp hr
    rw [run_subsetOf_of_toSet hsub hs ht] at h
    cases hempty : (s.inter t).isEmpty with
    | true => simp [hempty] at h
    | false =>
        rw [if_neg (by simp [hempty])] at h
        exact ⟨s, t, hs, ht, hempty, (Except.ok.inj h).symm⟩
  · rintro ⟨s, t, hs, ht, hempty, rfl⟩
    rw [run_subsetOf_of_toSet hsub hs ht, if_neg (by simp [hempty])]

/-- `subset_of` can cut down a list exactly if both lists can be read as sets that have
    something in common. -/
theorem run_subsetOf_list {xs listed : List Json}
    (hsub : policy.lookup OperatorKind.subsetOf.name = some (.arr listed)) :
    ((∃ slot', runOperator ho claim policy .subsetOf (some (.arr xs)) = .ok slot') ↔
        Hashable (.arr xs) ∧ Hashable (.arr listed) ∧
          ∃ x, (Json.arr xs).Holds x ∧ (Json.arr listed).Holds x) ∧
      ∀ slot', runOperator ho claim policy .subsetOf (some (.arr xs)) = .ok slot' →
        ∃ ys, slot' = some (.arr ys) ∧ Hashable (.arr ys) ∧
          ∀ x, (Json.arr ys).Holds x ↔ (Json.arr xs).Holds x ∧ (Json.arr listed).Holds x := by
  have hmem : ∀ {s t : JsonSet}, (Json.arr listed).toSet = .ok s → (Json.arr xs).toSet = .ok t →
      ∀ x, x ∈ s.inter t ↔ (Json.arr xs).Holds x ∧ (Json.arr listed).Holds x := by
    intro s t hs ht x
    rw [KeyedSet.mem_inter, holds_iff_mem_toSet hs, holds_iff_mem_toSet ht, and_comm]
  have hnonempty : ∀ {s : JsonSet}, s.isEmpty = false ↔ ∃ x, x ∈ s := by
    intro s
    rw [← Bool.not_eq_true, KeyedSet.isEmpty_iff]
    simp
  constructor
  · simp only [run_subsetOf_eq_ok hsub, hashable_iff_toSet]
    constructor
    · rintro ⟨slot', s, t, hs, ht, hempty, -⟩
      obtain ⟨x, hx⟩ := hnonempty.mp hempty
      exact ⟨⟨t, ht⟩, ⟨s, hs⟩, x, (hmem hs ht x).mp hx⟩
    · rintro ⟨⟨t, ht⟩, ⟨s, hs⟩, x, hx⟩
      exact ⟨_, s, t, hs, ht, hnonempty.mpr ⟨x, (hmem hs ht x).mpr hx⟩, rfl⟩
  · intro slot' h
    obtain ⟨s, t, hs, ht, -, rfl⟩ := (run_subsetOf_eq_ok hsub).mp h
    refine ⟨_, rfl, hashable_listOf (fun y hy => ?_), fun x => ?_⟩
    · exact Json.hashable_of_toSet hs y (KeyedSet.mem_elems_inter hy)
    · rw [← hmem hs ht]
      exact holds_listOf ho

/-- `superset_of` lets a list through exactly if both lists can be read as sets and it has
    what is asked for. -/
theorem run_supersetOf_list {xs asked : List Json}
    (hsup : policy.lookup OperatorKind.supersetOf.name = some (.arr asked)) {slot' : Option Json} :
    runOperator ho claim policy .supersetOf (some (.arr xs)) = .ok slot' ↔
      slot' = some (.arr xs) ∧ Hashable (.arr xs) ∧ Hashable (.arr asked) ∧
        ∀ x, (Json.arr asked).Holds x → (Json.arr xs).Holds x := by
  have hsubset : ∀ {s t : JsonSet}, (Json.arr asked).toSet = .ok s → (Json.arr xs).toSet = .ok t →
      ((s.sdiff t).isEmpty = true ↔ ∀ x, (Json.arr asked).Holds x → (Json.arr xs).Holds x) := by
    intro s t hs ht
    simp only [KeyedSet.sdiff_isEmpty_iff, holds_iff_mem_toSet hs, holds_iff_mem_toSet ht]
  rw [runOperator_of_lookup hsup, hashable_iff_toSet, hashable_iff_toSet]
  simp only [SupersetOf.call]
  constructor
  · intro h
    obtain ⟨r, hr, hslot⟩ := except_bind_eq_ok.mp h
    obtain ⟨s, hs, hr⟩ := except_bind_eq_ok.mp hr
    obtain ⟨t, ht, hr⟩ := except_bind_eq_ok.mp hr
    cases hempty : (s.sdiff t).isEmpty with
    | false => simp [hempty] at hr
    | true =>
        rw [if_pos hempty] at hr
        obtain rfl := except_pure_eq_ok.mp hr
        exact ⟨(except_pure_eq_ok.mp hslot).symm, ⟨t, ht⟩, ⟨s, hs⟩, (hsubset hs ht).mp hempty⟩
  · rintro ⟨rfl, ⟨t, ht⟩, ⟨s, hs⟩, hall⟩
    rw [hs, ht, except_ok_bind, except_ok_bind, if_pos ((hsubset hs ht).mpr hall)]
    rfl

/-! ## What one pass leaves -/

/-- A list that a claim policy has nothing to add to and nothing against, except that it may
    not be able to read what it adds. -/
structure Settled (policy : ClaimPolicy) (ys : List Json) : Prop where
  /-- Added values are in the list, if they may be. -/
  added : ∀ a, policy.lookup OperatorKind.add.name = some a → ∀ x, a.Holds x →
    (∀ p, policy.lookup OperatorKind.subsetOf.name = some p → p.Holds x) → (Json.arr ys).Holds x
  addedHashable : ∀ a, policy.lookup OperatorKind.add.name = some a → Hashable a →
    Hashable (.arr ys)
  listed : ∀ p, policy.lookup OperatorKind.subsetOf.name = some p → Hashable p ∧
    Hashable (.arr ys) ∧ (∃ x, (Json.arr ys).Holds x) ∧ ∀ x, (Json.arr ys).Holds x → p.Holds x
  required : ∀ p, policy.lookup OperatorKind.supersetOf.name = some p → Hashable p ∧
    Hashable (.arr ys) ∧ ∀ x, p.Holds x → (Json.arr ys).Holds x

/-- A slot that is empty or a list. -/
def ListSlot (slot : Option Json) : Prop := ∀ v, slot = some v → v.isList = true

theorem listSlot_cases (h : ListSlot slot) : slot = none ∨ ∃ xs, slot = some (.arr xs) := by
  cases slot with
  | none => exact Or.inl rfl
  | some v =>
      obtain ⟨xs, rfl⟩ := Json.isList_iff.mp (h v rfl)
      exact Or.inr ⟨xs, rfl⟩

theorem lookup_list (hlists : OnLists policy) (kind : OperatorKind)
    (hkind : kind ∈ [OperatorKind.add, .default, .subsetOf, .supersetOf]) :
    policy.lookup kind.name = none ∨ ∃ xs, policy.lookup kind.name = some (.arr xs) :=
  listSlot_cases (fun v hv => hlists kind hkind v hv)

/-- After `add` and `default`: a list, to which the added values belong. -/
theorem run_add_default (hlists : OnLists policy) (hslot : ListSlot slot) {s₁ s₂ : Option Json}
    (h₁ : runOperator ho claim policy .add slot = .ok s₁)
    (h₂ : runOperator ho claim policy .default s₁ = .ok s₂) :
    (slot = none ∧ s₂ = none ∧ policy.lookup OperatorKind.add.name = none ∧
        policy.lookup OperatorKind.default.name = none) ∨
      ∃ ys, s₂ = some (.arr ys) ∧ ∀ a, policy.lookup OperatorKind.add.name = some a →
        (∀ x, a.Holds x → (Json.arr ys).Holds x) ∧ (Hashable (.arr ys) ↔ Hashable a) := by
  have h₂ := run_default h₂
  rcases lookup_list hlists .add (by decide) with hadd | ⟨added, hadd⟩
  · -- nothing is added: the list there is, or that of `default`
    rw [runOperator_of_not_mem (AList.lookup_eq_none.mp hadd)] at h₁
    obtain rfl := Except.ok.inj h₁
    have hnone : ∀ a, policy.lookup OperatorKind.add.name ≠ some a := by simp [hadd]
    rcases listSlot_cases hslot with rfl | ⟨xs, rfl⟩
    · rcases lookup_list hlists .default (by decide) with hdef | ⟨dflt, hdef⟩
      · refine Or.inl ⟨rfl, ?_, hadd, hdef⟩
        rw [h₂, Option.none_or]
        exact hdef
      · refine Or.inr ⟨dflt, ?_, fun a ha => absurd ha (hnone a)⟩
        rw [h₂, Option.none_or]
        exact hdef
    · exact Or.inr ⟨xs, h₂, fun a ha => absurd ha (hnone a)⟩
  · refine Or.inr ?_
    have hsame : ∀ a, policy.lookup OperatorKind.add.name = some a → a = .arr added := by
      intro a ha
      exact Option.some.inj (ha.symm.trans hadd)
    rcases listSlot_cases hslot with rfl | ⟨xs, rfl⟩
    · -- the claim was absent: it becomes what is added
      have hs₁ : s₁ = some (.arr added) := by
        rw [runOperator_of_lookup hadd] at h₁
        exact (Except.ok.inj h₁).symm
      refine ⟨added, by rw [h₂, hs₁]; rfl, fun a ha => ?_⟩
      rw [hsame a ha]
      exact ⟨fun x hx => hx, Iff.rfl⟩
    · -- it had a list, to which they are added
      obtain ⟨ys, hs₁, hys, hholds⟩ := (run_add_list hadd).2 s₁ h₁
      refine ⟨ys, by rw [h₂, hs₁]; rfl, fun a ha => ?_⟩
      rw [hsame a ha]
      exact ⟨fun x hx => (hholds x).mpr (Or.inr hx),
        iff_of_true hys ((run_add_list hadd).1.mp ⟨s₁, h₁⟩).2⟩

/-- Without `value` a slot that is empty or a list goes through all the other operators. -/
theorem evalClaim_listSlot (hvalue : OperatorKind.value.name ∉ policy) (hlists : OnLists policy)
    (hslot : ListSlot slot) (h : evalClaim ho claim policy slot = .ok slot') :
    ∃ s₁ s₂ s₃, runOperator ho claim policy .add slot = .ok s₁ ∧
      runOperator ho claim policy .default s₁ = .ok s₂ ∧
      runOperator ho claim policy .subsetOf s₂ = .ok s₃ ∧
      runOperator ho claim policy .supersetOf s₃ = .ok slot' := by
  rw [evalClaim, if_neg hvalue] at h
  obtain ⟨s₁, h₁, h⟩ := except_bind_eq_ok.mp h
  obtain ⟨s₂, h₂, h⟩ := except_bind_eq_ok.mp h
  obtain ⟨s₂', h₂', h⟩ := except_bind_eq_ok.mp h
  obtain ⟨rfl, -⟩ := run_oneOf h₂'
  have hdecided : decidedByOneOf policy s₂' = false := by
    rcases run_add_default hlists hslot h₁ h₂ with ⟨-, rfl, -⟩ | ⟨ys, rfl, -⟩ <;>
      simp [decidedByOneOf, Json.isList]
  simp only [hdecided, Bool.false_eq_true, if_false] at h
  obtain ⟨s₃, h₃, h⟩ := except_bind_eq_ok.mp h
  obtain ⟨s₄, h₄, h⟩ := except_bind_eq_ok.mp h
  obtain ⟨rfl, -⟩ := run_essential h
  exact ⟨s₁, s₂', s₃, h₁, h₂, h₃, h₄⟩

/-- What one pass leaves is settled, or the claim is as absent as before. -/
theorem settled_of_evalClaim (hvalue : OperatorKind.value.name ∉ policy)
    (hlists : OnLists policy) (hslot : ListSlot slot)
    (h : evalClaim ho claim policy slot = .ok slot') :
    (slot = none ∧ slot' = none ∧ policy.lookup OperatorKind.add.name = none) ∨
      ∃ ys, slot' = some (.arr ys) ∧ Settled policy ys := by
  obtain ⟨s₁, s₂, s₃, h₁, h₂, h₃, h₄⟩ := evalClaim_listSlot hvalue hlists hslot h
  obtain ⟨hslot', -⟩ := run_supersetOf h₄
  rcases run_add_default hlists hslot h₁ h₂ with ⟨hnone, rfl, hadd, -⟩ | ⟨ys, rfl, hadded⟩
  · exact Or.inl ⟨hnone, hslot'.trans ((run_subsetOf h₃).1 rfl), hadd⟩
  · refine Or.inr ?_
    -- `subset_of` leaves of the list what it lists
    obtain ⟨zs, rfl, hzs, hall⟩ : ∃ zs, s₃ = some (.arr zs) ∧
        (∀ x, (Json.arr zs).Holds x ↔ (Json.arr ys).Holds x ∧
          ∀ p, policy.lookup OperatorKind.subsetOf.name = some p → p.Holds x) ∧
        ((policy.lookup OperatorKind.subsetOf.name = none ∧ zs = ys) ∨
          ∃ listed, policy.lookup OperatorKind.subsetOf.name = some (.arr listed) ∧
            Hashable (.arr listed) ∧ Hashable (.arr zs) ∧ ∃ x, (Json.arr zs).Holds x) := by
      rcases lookup_list hlists .subsetOf (by decide) with hsub | ⟨listed, hsub⟩
      · rw [runOperator_of_not_mem (AList.lookup_eq_none.mp hsub)] at h₃
        refine ⟨ys, (Except.ok.inj h₃).symm, fun x => ?_, Or.inl ⟨hsub, rfl⟩⟩
        simp [hsub]
      · obtain ⟨zs, rfl, hhash, hholds⟩ := (run_subsetOf_list hsub).2 s₃ h₃
        obtain ⟨-, hlisted, x, hx⟩ := (run_subsetOf_list hsub).1.mp ⟨_, h₃⟩
        refine ⟨zs, rfl, fun x => ?_, Or.inr ⟨listed, hsub, hlisted, hhash, x, (hholds x).mpr hx⟩⟩
        simp [hsub, hholds]
    refine ⟨zs, hslot', ?_, ?_, ?_, ?_⟩
    · intro a ha x hx hlisted
      exact (hzs x).mpr ⟨(hadded a ha).1 x hx, hlisted⟩
    · intro a ha hhash
      rcases hall with ⟨-, rfl⟩ | ⟨listed, -, -, hhash', -⟩
      · exact (hadded a ha).2.mpr hhash
      · exact hhash'
    · intro p hp
      rcases hall with ⟨hnone, -⟩ | ⟨listed, hsub, hlisted, hhash, hex⟩
      · rw [hnone] at hp
        exact absurd hp (by simp)
      · obtain rfl := Option.some.inj (hsub.symm.trans hp)
        exact ⟨hlisted, hhash, hex, fun x hx => ((hzs x).mp hx).2 _ hsub⟩
    · intro p hp
      rcases lookup_list hlists .supersetOf (by decide) with hsup | ⟨asked, hsup⟩
      · rw [hsup] at hp
        exact absurd hp (by simp)
      · obtain rfl := Option.some.inj (hsup.symm.trans hp)
        obtain ⟨-, hhash, hasked, hrequired⟩ := (run_supersetOf_list hsup).mp h₄
        exact ⟨hasked, hhash, hrequired⟩

/-! ## A second pass -/

/-- On a list only `add`, `subset_of` and `superset_of` do something. -/
theorem evalClaim_list (hvalue : OperatorKind.value.name ∉ policy) (hlists : OnLists policy)
    {xs : List Json} :
    evalClaim ho claim policy (some (.arr xs)) = .ok slot' ↔
      ∃ ys s₃, runOperator ho claim policy .add (some (.arr xs)) = .ok (some (.arr ys)) ∧
        runOperator ho claim policy .subsetOf (some (.arr ys)) = .ok s₃ ∧
        runOperator ho claim policy .supersetOf s₃ = .ok slot' := by
  constructor
  · intro h
    have hslot : ListSlot (some (.arr xs)) := by
      intro v hv
      obtain rfl := Option.some.inj hv
      rfl
    obtain ⟨s₁, s₂, s₃, h₁, h₂, h₃, h₄⟩ := evalClaim_listSlot hvalue hlists hslot h
    rcases run_add_default hlists hslot h₁ h₂ with ⟨hnone, -⟩ | ⟨ys, rfl, -⟩
    · exact absurd hnone (by simp)
    · -- `default` leaves a claim that is present alone
      have hs₁ := runOperator_isSome rfl h₁
      obtain ⟨v, rfl⟩ := Option.isSome_iff_exists.mp hs₁
      rw [run_default_present] at h₂
      exact ⟨ys, s₃, h₁.trans h₂, h₃, h₄⟩
  · rintro ⟨ys, s₃, h₁, h₃, h₄⟩
    have hs₃ := runOperator_isSome (runOperator_isSome rfl h₃) h₄
    obtain ⟨v, rfl⟩ := Option.isSome_iff_exists.mp hs₃
    have hdecided : decidedByOneOf policy (some (.arr ys)) = false := by
      simp [decidedByOneOf, Json.isList]
    rw [evalClaim, if_neg hvalue, h₁, except_ok_bind, run_default_present, except_ok_bind,
      run_oneOf_list, except_ok_bind]
    simp only [hdecided, Bool.false_eq_true, if_false]
    rw [h₃, except_ok_bind, h₄, except_ok_bind, run_essential_present]

/-- Equal, or two lists that are the same set. -/
def SameAsSets (v w : Json) : Prop := v = w ∨ SameList v w

theorem sameList_of_holds {xs ys : List Json} (hxs : Hashable (.arr xs)) (hys : Hashable (.arr ys))
    (h : ∀ x, (Json.arr xs).Holds x ↔ (Json.arr ys).Holds x) :
    SameList (.arr xs) (.arr ys) := by
  obtain ⟨s, hs⟩ := hashable_iff_toSet.mp hxs
  obtain ⟨t, ht⟩ := hashable_iff_toSet.mp hys
  refine ⟨rfl, rfl, s, t, hs, ht, fun x => ?_⟩
  rw [← holds_iff_mem_toSet hs, ← holds_iff_mem_toSet ht, h]

/-- `add` on a settled list: what is listed by `subset_of` stays as it was. -/
theorem run_add_settled (hlists : OnLists policy) {ys : List Json} (h : Settled policy ys) :
    ((∃ slot', runOperator ho claim policy .add (some (.arr ys)) = .ok slot') ↔
        ∀ a, policy.lookup OperatorKind.add.name = some a → Hashable a) ∧
      ∀ slot', runOperator ho claim policy .add (some (.arr ys)) = .ok slot' →
        ∃ zs, slot' = some (.arr zs) ∧ (zs = ys ∨ (Hashable (.arr ys) ∧ Hashable (.arr zs))) ∧
          ∀ x, (∀ p, policy.lookup OperatorKind.subsetOf.name = some p → p.Holds x) →
            ((Json.arr zs).Holds x ↔ (Json.arr ys).Holds x) := by
  rcases lookup_list hlists .add (by decide) with hadd | ⟨added, hadd⟩
  · have hrun : runOperator ho claim policy .add (some (.arr ys)) = .ok (some (.arr ys)) :=
      runOperator_of_not_mem (AList.lookup_eq_none.mp hadd)
    refine ⟨iff_of_true ⟨_, hrun⟩ (fun a ha => absurd (hadd.symm.trans ha) (by simp)), ?_⟩
    intro slot' h'
    exact ⟨ys, (Except.ok.inj (hrun.symm.trans h')).symm, Or.inl rfl, fun x _ => Iff.rfl⟩
  · have hhash : (∀ a, policy.lookup OperatorKind.add.name = some a → Hashable a) ↔
        Hashable (.arr added) := by
      refine ⟨fun hall => hall _ hadd, fun hadded a ha => ?_⟩
      obtain rfl := Option.some.inj (hadd.symm.trans ha)
      exact hadded
    constructor
    · rw [hhash, (run_add_list hadd).1]
      exact and_iff_right_of_imp (h.addedHashable _ hadd)
    · intro slot' h'
      obtain ⟨hys, -⟩ := (run_add_list hadd).1.mp ⟨slot', h'⟩
      obtain ⟨zs, rfl, hzs, hholds⟩ := (run_add_list hadd).2 slot' h'
      refine ⟨zs, rfl, Or.inr ⟨hys, hzs⟩, fun x hx => ?_⟩
      rw [hholds]
      exact ⟨fun h' => h'.elim id (fun hadded => h.added _ hadd x hadded hx), Or.inl⟩

/-- `subset_of` on what `add` made of a settled list gets through and gives the settled set. -/
theorem run_subsetOf_settled (hlists : OnLists policy) {ys zs : List Json} (h : Settled policy ys)
    (hcase : zs = ys ∨ (Hashable (.arr ys) ∧ Hashable (.arr zs)))
    (hholds : ∀ x, (∀ p, policy.lookup OperatorKind.subsetOf.name = some p → p.Holds x) →
      ((Json.arr zs).Holds x ↔ (Json.arr ys).Holds x)) :
    ∃ us, runOperator ho claim policy .subsetOf (some (.arr zs)) = .ok (some (.arr us)) ∧
      (∀ x, (Json.arr us).Holds x ↔ (Json.arr ys).Holds x) ∧
      (us = ys ∨ (Hashable (.arr ys) ∧ Hashable (.arr us))) := by
  rcases lookup_list hlists .subsetOf (by decide) with hsub | ⟨listed, hsub⟩
  · refine ⟨zs, runOperator_of_not_mem (AList.lookup_eq_none.mp hsub), fun x => ?_, hcase⟩
    exact hholds x (fun p hp => absurd (hsub.symm.trans hp) (by simp))
  · obtain ⟨hlisted, hys, ⟨x, hx⟩, hin⟩ := h.listed _ hsub
    have hzs : Hashable (.arr zs) := by
      rcases hcase with rfl | ⟨-, hzs⟩
      · exact hys
      · exact hzs
    have honly : ∀ x, (Json.arr listed).Holds x →
        ((Json.arr zs).Holds x ↔ (Json.arr ys).Holds x) := by
      intro x hx
      refine hholds x (fun p hp => ?_)
      obtain rfl := Option.some.inj (hsub.symm.trans hp)
      exact hx
    obtain ⟨slot', hrun⟩ := (@run_subsetOf_list ho claim policy zs listed hsub).1.mpr
      ⟨hzs, hlisted, x, (honly x (hin x hx)).mpr hx, hin x hx⟩
    obtain ⟨us, rfl, hus, hmem⟩ := (run_subsetOf_list hsub).2 slot' hrun
    refine ⟨us, hrun, fun x => ?_, Or.inr ⟨hys, hus⟩⟩
    rw [hmem]
    exact ⟨fun hboth => (honly x hboth.2).mp hboth.1,
      fun hx => ⟨(honly x (hin x hx)).mpr hx, hin x hx⟩⟩

/-- `superset_of` on the settled set, in whatever list, goes through. -/
theorem run_supersetOf_settled (hlists : OnLists policy) {ys us : List Json}
    (h : Settled policy ys) (hsame : ∀ x, (Json.arr us).Holds x ↔ (Json.arr ys).Holds x)
    (hcase : us = ys ∨ (Hashable (.arr ys) ∧ Hashable (.arr us))) :
    runOperator ho claim policy .supersetOf (some (.arr us)) = .ok (some (.arr us)) := by
  rcases lookup_list hlists .supersetOf (by decide) with hsup | ⟨asked, hsup⟩
  · exact runOperator_of_not_mem (AList.lookup_eq_none.mp hsup)
  · obtain ⟨hasked, hys, hrequired⟩ := h.required _ hsup
    refine (run_supersetOf_list hsup).mpr ⟨rfl, ?_, hasked, fun x hx => ?_⟩
    · rcases hcase with rfl | ⟨-, hus⟩
      · exact hys
      · exact hus
    · exact (hsame x).mpr (hrequired x hx)

/-- From the result of `add` on, the operators get through and leave the set as it was. -/
theorem run_rest_settled (hlists : OnLists policy) {ys zs : List Json} (h : Settled policy ys)
    (hadd : runOperator ho claim policy .add (some (.arr ys)) = .ok (some (.arr zs))) :
    ∃ us, runOperator ho claim policy .subsetOf (some (.arr zs)) = .ok (some (.arr us)) ∧
      runOperator ho claim policy .supersetOf (some (.arr us)) = .ok (some (.arr us)) ∧
      SameAsSets (.arr ys) (.arr us) := by
  obtain ⟨zs', heq, hcase, hholds⟩ := (run_add_settled hlists h).2 _ hadd
  obtain rfl := Json.arr.inj (Option.some.inj heq)
  obtain ⟨us, hsub, hsame, hcase⟩ := run_subsetOf_settled hlists h hcase hholds
  refine ⟨us, hsub, run_supersetOf_settled hlists h hsame hcase, ?_⟩
  rcases hcase with rfl | ⟨hys, hus⟩
  · exact Or.inl rfl
  · exact Or.inr (sameList_of_holds hys hus (fun x => (hsame x).symm))

/-- A second pass over a settled list gets through exactly if the added values have a hash,
    and then leaves the same set. -/
theorem evalClaim_settled (hvalue : OperatorKind.value.name ∉ policy) (hlists : OnLists policy)
    {ys : List Json} (h : Settled policy ys) :
    ((∃ slot', evalClaim ho claim policy (some (.arr ys)) = .ok slot') ↔
        ∀ a, policy.lookup OperatorKind.add.name = some a → Hashable a) ∧
      ∀ slot', evalClaim ho claim policy (some (.arr ys)) = .ok slot' →
        ∃ v, slot' = some v ∧ SameAsSets (.arr ys) v := by
  have hadd := @run_add_settled ho claim policy hlists ys h
  constructor
  · rw [← hadd.1]
    constructor
    · rintro ⟨slot', heval⟩
      obtain ⟨zs, s₃, hzs, -⟩ := (evalClaim_list hvalue hlists).mp heval
      exact ⟨_, hzs⟩
    · rintro ⟨s₁, h₁⟩
      obtain ⟨zs, rfl, -⟩ := hadd.2 s₁ h₁
      obtain ⟨us, hsub, hsup, -⟩ := run_rest_settled hlists h h₁
      exact ⟨_, (evalClaim_list hvalue hlists).mpr ⟨zs, _, h₁, hsub, hsup⟩⟩
  · intro slot' heval
    obtain ⟨zs, s₃, h₁, h₃, h₄⟩ := (evalClaim_list hvalue hlists).mp heval
    obtain ⟨us, hsub, hsup, hsame⟩ := run_rest_settled hlists h h₁
    obtain rfl := Except.ok.inj (hsub.symm.trans h₃)
    exact ⟨_, (Except.ok.inj (hsup.symm.trans h₄)).symm, hsame⟩

theorem SameAsSets.refl (v : Json) : SameAsSets v v := Or.inl rfl

/-- With `value` the claim becomes that value, whatever it was. -/
theorem evalClaim_value {v : Json} (hv : policy.lookup OperatorKind.value.name = some v) :
    evalClaim ho claim policy slot = .ok (some v) := by
  have hrun : runOperator ho claim policy .value slot = .ok (some v) := by
    rw [runOperator_of_lookup hv]
    rfl
  rw [evalClaim, if_pos (Dict.mem_iff_lookup.mpr ⟨v, hv⟩), hrun, except_ok_bind,
    run_essential_present]

/-- One claim a second time. -/
theorem evalClaim_again (hlists : OnLists policy) (hslot : ListSlot slot)
    (h : evalClaim ho claim policy slot = .ok slot') :
    ((∃ s, evalClaim ho claim policy slot' = .ok s) ↔ (OperatorKind.value.name ∉ policy →
        ∀ a, policy.lookup OperatorKind.add.name = some a → Hashable a)) ∧
      ∀ s, evalClaim ho claim policy slot' = .ok s → Option.Rel SameAsSets slot' s := by
  by_cases hvalue : OperatorKind.value.name ∈ policy
  · obtain ⟨v, hv⟩ := Dict.mem_iff_lookup.mp hvalue
    rw [evalClaim_value hv] at h
    obtain rfl := Except.ok.inj h
    refine ⟨iff_of_true ⟨_, evalClaim_value hv⟩ (fun hno => absurd hvalue hno), fun s hs => ?_⟩
    rw [evalClaim_value hv] at hs
    obtain rfl := Except.ok.inj hs
    exact Option.Rel.some (SameAsSets.refl v)
  · rcases settled_of_evalClaim hvalue hlists hslot h with
      ⟨rfl, rfl, hadd⟩ | ⟨ys, rfl, hsettled⟩
    · -- still absent: the same pass again
      refine ⟨iff_of_true ⟨_, h⟩ (fun _ a ha => absurd (hadd.symm.trans ha) (by simp)), ?_⟩
      intro s hs
      obtain rfl := Except.ok.inj (h.symm.trans hs)
      exact Option.Rel.none
    · obtain ⟨hiff, hsame⟩ := @evalClaim_settled ho claim policy hvalue hlists ys hsettled
      refine ⟨hiff.trans ⟨fun hall _ => hall, fun hall => hall hvalue⟩, fun s hs => ?_⟩
      obtain ⟨v, rfl, hv⟩ := hsame s hs
      exact Option.Rel.some hv

/-! ## A policy a second time -/

/-- The same claims, with values that are equal or lists that are the same set. -/
def SameMetadata (m m' : Metadata) : Prop :=
  ∀ claim, Option.Rel SameAsSets (m.lookup claim) (m'.lookup claim)

/-- The claim policies of a rule have lists, and so have the claims they are about, with the
    leaf as in the rule's own metadata. -/
structure ListClaims (rule : Rule) (own : Metadata) : Prop where
  policies : ∀ claim p, rule.metadataPolicy.lookup claim = some p → OnLists p
  leaf : ∀ claim ∈ rule.metadataPolicy, ListSlot (own.lookup claim)
  above : ∀ claim ∈ rule.metadataPolicy, ListSlot (rule.metadata.lookup claim)

/-- What is added to a claim that no value is set for can be read as a set. -/
def AddsReadable (rule : Rule) : Prop :=
  ∀ claim p a, rule.metadataPolicy.lookup claim = some p → OperatorKind.value.name ∉ p →
    p.lookup OperatorKind.add.name = some a → Hashable a

/-- What a policy made of metadata has the policy's own metadata in already. -/
theorem merged_of_applyPolicy {rule : Rule} {own own' m : Metadata}
    (h : applyPolicy ho rule own = .ok m own') (claim : String) :
    (m.lookup claim).or (rule.metadata.lookup claim) = m.lookup claim := by
  have hslot := applyPolicy_eq_ok.2 m own' h claim
  cases hm : m.lookup claim with
  | some v => rfl
  | none =>
      rw [hm] at hslot
      cases hrule : rule.metadata.lookup claim with
      | none => rfl
      | some v =>
          rw [hrule] at hslot
          have hsome : ((own.lookup claim).or (some v)).isSome = true := by
            rw [Option.isSome_or, Option.isSome_some, Bool.or_true]
          cases hp : rule.metadataPolicy.lookup claim with
          | none =>
              rw [settle, hp] at hslot
              rw [Except.ok.inj hslot] at hsome
              exact absurd hsome (by simp)
          | some p =>
              rw [settle, hp] at hslot
              exact absurd (evalClaim_isSome hsome hslot) (by simp)

/-- A claim policy on what the policy made of its claim. -/
theorem evalClaim_of_applyPolicy {rule : Rule} {own own' m : Metadata}
    (hclaims : ListClaims rule own) (h : applyPolicy ho rule own = .ok m own') {claim : String}
    {p : ClaimPolicy} (hp : rule.metadataPolicy.lookup claim = some p) :
    ((∃ s, evalClaim ho claim p (m.lookup claim) = .ok s) ↔
        (OperatorKind.value.name ∉ p →
          ∀ a, p.lookup OperatorKind.add.name = some a → Hashable a)) ∧
      ∀ s, evalClaim ho claim p (m.lookup claim) = .ok s →
        Option.Rel SameAsSets (m.lookup claim) s := by
  have hmem := Dict.mem_iff_lookup.mpr ⟨p, hp⟩
  have hslot : ListSlot ((own.lookup claim).or (rule.metadata.lookup claim)) := by
    intro v hv
    rcases Option.or_eq_some_iff.mp hv with hown | ⟨-, habove⟩
    · exact hclaims.leaf claim hmem v hown
    · exact hclaims.above claim hmem v habove
  have heval := applyPolicy_eq_ok.2 m own' h claim
  rw [settle, hp] at heval
  exact evalClaim_again (hclaims.policies claim p hp) hslot heval

/-- A policy applied to what it made of the metadata gets through and changes nothing more,
    lists compared as sets, exactly if it can read what it adds. -/
theorem applyPolicy_again_iff {rule : Rule} {own own' m : Metadata} (hclaims : ListClaims rule own)
    (h : applyPolicy ho rule own = .ok m own') :
    (∃ m' s, applyPolicy ho rule m = .ok m' s ∧ SameMetadata m m') ↔ AddsReadable rule := by
  have hmerged := merged_of_applyPolicy h
  constructor
  · rintro ⟨m', s, hm', -⟩ claim p a hp hvalue ha
    obtain ⟨slot, hslot⟩ := (applyPolicy_eq_ok.1.mp ⟨m', s, hm'⟩) claim
    rw [hmerged, settle, hp] at hslot
    exact (evalClaim_of_applyPolicy hclaims h hp).1.mp ⟨slot, hslot⟩ hvalue a ha
  · intro hadds
    obtain ⟨m', s, hm'⟩ : ∃ m' s, applyPolicy ho rule m = .ok m' s := by
      refine applyPolicy_eq_ok.1.mpr (fun claim => ?_)
      rw [hmerged, settle]
      cases hp : rule.metadataPolicy.lookup claim with
      | none => exact ⟨_, rfl⟩
      | some p =>
          refine (evalClaim_of_applyPolicy hclaims h hp).1.mpr ?_
          exact fun hvalue a ha => hadds claim p a hp hvalue ha
    refine ⟨m', s, hm', fun claim => ?_⟩
    have hslot := applyPolicy_eq_ok.2 m' s hm' claim
    rw [hmerged, settle] at hslot
    cases hp : rule.metadataPolicy.lookup claim with
    | none =>
        rw [hp] at hslot
        rw [← Except.ok.inj hslot]
        exact Dict.rel_refl SameAsSets.refl _
    | some p =>
        rw [hp] at hslot
        exact (evalClaim_of_applyPolicy hclaims h hp).2 _ hslot

/-- A claim policy that adds the values to a claim, by itself. -/
def addingTo (claim : String) (values : List Json) : Rule where
  metadataPolicy := Dict.ofList [(claim, Dict.ofList [("add", .arr values)])]

theorem addingTo_lookup {claim c : String} {values : List Json} {p : ClaimPolicy}
    (h : (addingTo claim values).metadataPolicy.lookup c = some p) :
    c = claim ∧ p = Dict.ofList [("add", .arr values)] := by
  have hlookup := Dict.lookup_insert' ∅ claim c (Dict.ofList [("add", Json.arr values)])
  change (addingTo claim values).metadataPolicy.lookup c = _ at hlookup
  rw [hlookup] at h
  by_cases hc : c = claim
  · rw [if_pos hc] at h
    exact ⟨hc, (Option.some.inj h).symm⟩
  · rw [if_neg hc] at h
    exact absurd h (by simp)

theorem listClaims_addingTo {claim : String} {values : List Json} {own : Metadata}
    (h : ListSlot (own.lookup claim)) : ListClaims (addingTo claim values) own := by
  have honly : ∀ c ∈ (addingTo claim values).metadataPolicy, c = claim := by
    intro c hc
    obtain ⟨p, hp⟩ := Dict.mem_iff_lookup.mp hc
    exact (addingTo_lookup hp).1
  refine ⟨fun c p hp kind hkind param hparam => ?_, fun c hc => ?_, fun c hc v hv => ?_⟩
  · obtain ⟨-, rfl⟩ := addingTo_lookup hp
    simp only [List.mem_cons, List.not_mem_nil, or_false] at hkind
    rcases hkind with rfl | rfl | rfl | rfl
    · obtain rfl := Option.some.inj hparam
      rfl
    · cases (show (none : Option Json) = some param from hparam)
    · cases (show (none : Option Json) = some param from hparam)
    · cases (show (none : Option Json) = some param from hparam)
  · rw [honly c hc]
    exact h
  · cases (show (none : Option Json) = some v from hv)

theorem applyPolicy_again_iff_email :
    (∃ m' s, applyPolicy .insertion (addingTo "scope" [.str "email"])
        (Dict.ofList [("scope", .arr [.str "openid", .str "email"])]) = .ok m' s ∧
        SameMetadata (Dict.ofList [("scope", .arr [.str "openid", .str "email"])]) m') ↔
      AddsReadable (addingTo "scope" [.str "email"]) := by
  have hlist : ListSlot ((Dict.ofList [("scope", Json.arr [.str "openid"])]).lookup "scope") := by
    intro v hv
    obtain rfl := Option.some.inj hv
    rfl
  have hfirst : applyPolicy .insertion (addingTo "scope" [.str "email"])
      (Dict.ofList [("scope", .arr [.str "openid"])]) =
        .ok (Dict.ofList [("scope", .arr [.str "openid", .str "email"])])
          (Dict.ofList [("scope", .arr [.str "openid", .str "email"])]) := rfl
  exact applyPolicy_again_iff (listClaims_addingTo hlist) hfirst

/-- A contact that is an object is added to metadata without contacts, and can not be added to
    the result. -/
theorem added_object_refused_again :
    ListClaims (addingTo "contacts" [.obj [("name", .str "ops")]]) ∅ ∧
      (∃ s, applyPolicy .insertion (addingTo "contacts" [.obj [("name", .str "ops")]]) ∅ =
        .ok (Dict.ofList [("contacts", .arr [.obj [("name", .str "ops")]])]) s) ∧
      outcome (applyPolicy .insertion (addingTo "contacts" [.obj [("name", .str "ops")]])
        (Dict.ofList [("contacts", .arr [.obj [("name", .str "ops")]])])) = .error .typeError := by
  refine ⟨listClaims_addingTo (fun v hv => ?_), ⟨_, rfl⟩, rfl⟩
  cases (show (none : Option Json) = some v from hv)

end Fedservice.Entity.Function
