/-
  Fedservice.Entity.Function.SingleValue

  A claim that holds one string, written as the string itself and as a list of
  it, under the same claim policy.  `one_of` looks at the string only and passes
  over the list; `subset_of` looks the string up among the names of the
  operators and hands it on split into its characters; `superset_of` compares
  with those characters.
-/

import Fedservice.Entity.Function.PolicySemantics

namespace Fedservice.Entity.Function

open Fedservice.Lib Fedservice.Py Fedservice.EntityStatement

variable {ho : HashOrder} {claim : String} {policy : ClaimPolicy} {v : String}

/-! ## Computations that check something -/

section Checks

variable {α β : Type} {p q : Prop} {Post : α → Prop} {Post' : β → Prop} {x : Except Exc α}

/-- Where `p` holds the computation returns something with `Post`, elsewhere it raises
    `PolicyError`. -/
def Checks (p : Prop) (Post : α → Prop) (x : Except Exc α) : Prop :=
  (p → ∃ a, x = .ok a ∧ Post a) ∧ (¬ p → RaisesPolicyError x)

theorem checks_of_ok {a : α} (hp : p) (hx : x = .ok a) (ha : Post a) : Checks p Post x :=
  ⟨fun _ => ⟨a, hx, ha⟩, fun hn => absurd hp hn⟩

theorem checks_of_raises (hp : ¬ p) (hx : RaisesPolicyError x) : Checks p Post x :=
  ⟨fun h => absurd h hp, fun _ => hx⟩

/-- One check after the other. -/
theorem Checks.bind {f : α → Except Exc β} (hx : Checks p Post x)
    (hf : ∀ a, Post a → Checks q Post' (f a)) : Checks (p ∧ q) Post' (x >>= f) := by
  by_cases hp : p
  · obtain ⟨a, rfl, ha⟩ := hx.1 hp
    refine ⟨fun hpq => (hf a ha).1 hpq.2, fun hn => (hf a ha).2 (fun hq => hn ⟨hp, hq⟩)⟩
  · obtain ⟨text, rfl⟩ := hx.2 hp
    exact ⟨fun hpq => absurd hpq.1 hp, fun _ => ⟨text, rfl⟩⟩

theorem Checks.congr (h : p ↔ q) (hx : Checks p Post x) : Checks q Post x :=
  ⟨fun hq => hx.1 (h.mpr hq), fun hn => hx.2 (fun hp => hn (h.mp hp))⟩

theorem Checks.raises_iff (hx : Checks p Post x) : RaisesPolicyError x ↔ ¬ p := by
  refine ⟨fun h hp => ?_, hx.2⟩
  obtain ⟨a, rfl, -⟩ := hx.1 hp
  exact not_raisesPolicyError_ok a h

theorem Checks.of_ok (hx : Checks p Post x) {a : α} (h : x = .ok a) : p ∧ Post a := by
  by_cases hp : p
  · obtain ⟨b, hb, hpost⟩ := hx.1 hp
    obtain rfl : a = b := Except.ok.inj (h.symm.trans hb)
    exact ⟨hp, hpost⟩
  · obtain ⟨text, ht⟩ := hx.2 hp
    exact absurd (h.symm.trans ht) (by simp)

end Checks

/-! ## The operators on a claim that is present -/

/-- The operator, if the policy has it, is given a list of strings. -/
def ListsStrings (policy : ClaimPolicy) (kind : OperatorKind) : Prop :=
  ∀ param, policy.lookup kind.name = some param → ∃ ss : List String, param = .arr (ss.map .str)

/-- A string is in the operator's list, if the policy has the operator. -/
def Allows (policy : ClaimPolicy) (kind : OperatorKind) (v : String) : Prop :=
  ∀ param, policy.lookup kind.name = some param → param.Holds (.str v)

/-- Every string that `superset_of` asks for, if the policy has it, meets `P`. -/
def Asked (policy : ClaimPolicy) (P : String → Prop) : Prop :=
  ∀ param t, policy.lookup OperatorKind.supersetOf.name = some param → param.Holds (.str t) → P t

theorem listsStrings_of_not_mem {kind : OperatorKind} (h : kind.name ∉ policy) :
    ListsStrings policy kind :=
  fun param hparam => absurd (Dict.mem_iff_lookup.mpr ⟨param, hparam⟩) h

theorem asked_of_not_mem {P : String → Prop} (h : OperatorKind.supersetOf.name ∉ policy) :
    Asked policy P :=
  fun param _ hparam => absurd (Dict.mem_iff_lookup.mpr ⟨param, hparam⟩) h

theorem holds_strings {ss : List String} {x : Json} :
    (Json.arr (ss.map .str)).Holds x ↔ ∃ s ∈ ss, Json.str s = x.norm := by
  simp [Json.Holds, Json.held, Json.norm]

/-- Only a string is equal to a string. -/
theorem eq_str_of_norm {x : Json} {s : String} (h : x.norm = .str s) : x = .str s := by
  cases x <;> simp_all [Json.norm]

theorem runOperator_of_lookup {kind : OperatorKind} {param : Json} {slot : Option Json}
    (h : policy.lookup kind.name = some param) :
    runOperator ho claim policy kind slot = (do
      let r ← match kind with
        | .value => Value.call (PolicyOperator.init kind).next param
        | .add => Add.call ho param slot
        | .default => Default.call param slot
        | .oneOf => OneOf.call (PolicyOperator.init kind).next param slot
        | .subsetOf => SubsetOf.call ho policy param slot
        | .supersetOf => SupersetOf.call param slot
        | .essential => Essential.call claim param slot
      return r.assign.or slot) := by
  rw [runOperator, if_pos (Dict.mem_iff_lookup.mpr ⟨param, h⟩)]
  have hitem : item policy (PolicyOperator.init kind).name = .ok param := item_eq_ok.mpr h
  rw [PolicyOperator.onSlot, hitem, except_ok_bind]
  cases kind <;> rfl

/-- `default` and `essential` have nothing to say about a claim that is present. -/
theorem run_default_present (x : Json) :
    runOperator ho claim policy .default (some x) = .ok (some x) := by
  cases h : policy.lookup OperatorKind.default.name with
  | none => exact runOperator_of_not_mem (AList.lookup_eq_none.mp h)
  | some param => exact runOperator_of_lookup h

theorem run_essential_present (x : Json) :
    runOperator ho claim policy .essential (some x) = .ok (some x) := by
  cases h : policy.lookup OperatorKind.essential.name with
  | none => exact runOperator_of_not_mem (AList.lookup_eq_none.mp h)
  | some param => exact runOperator_of_lookup h

/-- `one_of` passes over a list. -/
theorem run_oneOf_list (xs : List Json) :
    runOperator ho claim policy .oneOf (some (.arr xs)) = .ok (some (.arr xs)) := by
  cases h : policy.lookup OperatorKind.oneOf.name with
  | none => exact runOperator_of_not_mem (AList.lookup_eq_none.mp h)
  | some param => exact runOperator_of_lookup h

/-- `one_of` lets a string through that is in its list. -/
theorem run_oneOf_str (hstr : ListsStrings policy .oneOf) :
    Checks (Allows policy .oneOf v) (fun slot => slot = some (.str v))
      (runOperator ho claim policy .oneOf (some (.str v))) := by
  cases h : policy.lookup OperatorKind.oneOf.name with
  | none =>
      rw [runOperator_of_not_mem (AList.lookup_eq_none.mp h)]
      refine checks_of_ok (fun param hp => ?_) rfl rfl
      rw [h] at hp
      exact absurd hp (by simp)
  | some param =>
      obtain ⟨ss, rfl⟩ := hstr param h
      have hiff : Allows policy .oneOf v ↔ (Json.arr (ss.map .str)).Holds (.str v) := by
        refine ⟨fun hall => hall _ h, fun hholds param hp => ?_⟩
        obtain rfl := Option.some.inj (h.symm.trans hp)
        exact hholds
      rw [runOperator_of_lookup h]
      simp only [OneOf.call]
      refine Checks.congr hiff.symm ?_
      by_cases hin : (Json.arr (ss.map .str)).Holds (.str v)
      · have hisIn := Json.isIn_arr.mpr hin
        rw [if_neg (by simp [Json.isList]), hisIn]
        exact checks_of_ok hin rfl rfl
      · have hisIn : (Json.str v).isIn (.arr (ss.map .str)) = .ok false := by
          rw [Json.isIn, Except.ok.injEq, ← Bool.not_eq_true]
          intro htrue
          exact hin (Json.isIn_arr.mp (congrArg Except.ok htrue))
        rw [if_neg (by simp [Json.isList]), hisIn]
        exact checks_of_raises hin ⟨_, rfl⟩

/-- Whether a string is found in the policy object. -/
theorem str_isIn_toJson : (Json.str v).isIn policy.toJson = .ok (decide (v ∈ policy)) := by
  have hany : policy.entries.any (fun e => (Json.str e.1).eqv (.str v)) = decide (v ∈ policy) := by
    rw [Bool.eq_iff_iff, List.any_eq_true, decide_eq_true_iff, AList.mem_keys]
    simp only [AList.keys, List.keys, List.mem_map, Json.eqv_iff, Json.norm, Json.str.injEq]
  rw [ClaimPolicy.toJson, Json.isIn, if_pos (by rfl), List.any_map]
  exact congrArg Except.ok hany

/-- `subset_of` lets a string through that names an operator, and splits it up. -/
theorem run_subsetOf_str :
    Checks (OperatorKind.subsetOf.name ∈ policy → v ∈ policy ∧ v ≠ "")
      (fun slot => slot = some (if OperatorKind.subsetOf.name ∈ policy
        then .arr (Json.chars v) else .str v))
      (runOperator ho claim policy .subsetOf (some (.str v))) := by
  cases h : policy.lookup OperatorKind.subsetOf.name with
  | none =>
      have hno := AList.lookup_eq_none.mp h
      rw [runOperator_of_not_mem hno]
      exact checks_of_ok (fun hmem => absurd hmem hno) rfl (by rw [if_neg hno])
  | some param =>
      have hmem := Dict.mem_iff_lookup.mpr ⟨param, h⟩
      rw [runOperator_of_lookup h]
      simp only [SubsetOf.call, str_isIn_toJson, except_ok_bind, if_pos hmem]
      rw [if_neg (by simp [Json.isList])]
      by_cases hnamed : v ∈ policy
      · rw [if_pos (decide_eq_true hnamed)]
        by_cases hempty : v = ""
        · rw [if_neg (by simp [Json.truthy, hempty])]
          exact checks_of_raises (fun hp => (hp hmem).2 hempty) ⟨_, rfl⟩
        · rw [if_pos (by simp [Json.truthy, hempty])]
          exact checks_of_ok (fun _ => ⟨hnamed, hempty⟩) rfl rfl
      · rw [if_neg (by simp [hnamed])]
        exact checks_of_raises (fun hp => hnamed (hp hmem).1) ⟨_, rfl⟩

/-- `superset_of` lets a value through that lists every string asked for. -/
theorem run_supersetOf_present (hstr : ListsStrings policy .supersetOf) {a : Json} {q : JsonSet}
    (ha : a.toSet = .ok q) :
    Checks (Asked policy (fun t => a.Lists (.str t))) (fun slot => slot = some a)
      (runOperator ho claim policy .supersetOf (some a)) := by
  cases h : policy.lookup OperatorKind.supersetOf.name with
  | none =>
      rw [runOperator_of_not_mem (AList.lookup_eq_none.mp h)]
      exact checks_of_ok (asked_of_not_mem (AList.lookup_eq_none.mp h)) rfl rfl
  | some param =>
      obtain ⟨ss, rfl⟩ := hstr param h
      obtain ⟨p, hp⟩ : ∃ p, (Json.arr (ss.map .str)).toSet = .ok p :=
        Json.exists_toSet_arr.mpr (by simp [Json.hashable])
      have hiff : Asked policy (fun t => a.Lists (.str t)) ↔ (p.sdiff q).isEmpty = true := by
        rw [KeyedSet.sdiff_isEmpty_iff]
        constructor
        · intro hasked x hx
          obtain ⟨s, hs, hnorm⟩ := holds_strings.mp (Json.lists_arr.mp ((Json.mem_toSet hp).mp hx))
          have hin : Json.str s ∈ q :=
            (Json.mem_toSet ha).mpr (hasked _ s h (holds_strings.mpr ⟨s, hs, rfl⟩))
          exact (KeyedSet.mem_congr (by simpa [Json.norm] using hnorm)).mp hin
        · intro hsub param t hparam ht
          obtain rfl := Option.some.inj (h.symm.trans hparam)
          exact (Json.mem_toSet ha).mp (hsub _ ((Json.mem_toSet hp).mpr (Json.lists_arr.mpr ht)))
      rw [runOperator_of_lookup h]
      simp only [SupersetOf.call, hp, ha, except_ok_bind]
      refine Checks.congr hiff.symm ?_
      by_cases hsub : (p.sdiff q).isEmpty = true
      · rw [if_pos hsub]
        exact checks_of_ok hsub rfl rfl
      · rw [if_neg hsub]
        exact checks_of_raises hsub ⟨_, rfl⟩

/-- `subset_of` on a list, where both lists can be read as sets. -/
theorem run_subsetOf_of_toSet {xs : List Json} {param : Json} {p q : JsonSet}
    (h : policy.lookup OperatorKind.subsetOf.name = some param) (hp : param.toSet = .ok p)
    (hq : (Json.arr xs).toSet = .ok q) :
    runOperator ho claim policy .subsetOf (some (.arr xs)) =
      if (p.inter q).isEmpty then
        .error (.policyError [.val (.arr xs), .lit " not subset of ", .val param])
      else .ok (some (listOf ho (p.inter q))) := by
  rw [runOperator_of_lookup h]
  simp only [SubsetOf.call]
  rw [if_pos (Json.isList_iff.mpr ⟨xs, rfl⟩), hp, except_ok_bind, hq, except_ok_bind]
  cases (p.inter q).isEmpty <;> rfl

/-- The strings that are in a set and in the set of one string. -/
theorem mem_inter_singleton {p q : JsonSet} (hq : (Json.arr [.str v]).toSet = .ok q) (x : Json) :
    x ∈ p.inter q ↔ Json.str v ∈ p ∧ x.norm = .str v := by
  rw [KeyedSet.mem_inter, Json.mem_toSet hq, Json.lists_arr]
  constructor
  · rintro ⟨hx, y, hy, hnorm⟩
    obtain rfl := List.mem_singleton.mp hy
    exact ⟨(KeyedSet.mem_congr hnorm.symm).mp hx, hnorm.symm⟩
  · rintro ⟨hv, hnorm⟩
    have hkey : x.norm = (Json.str v).norm := hnorm
    exact ⟨(KeyedSet.mem_congr hkey).mpr hv, _, List.mem_singleton_self _, hkey.symm⟩

/-- `subset_of` leaves of a list with one string that string, if it is listed. -/
theorem run_subsetOf_singleton (hstr : ListsStrings policy .subsetOf) :
    Checks (Allows policy .subsetOf v)
      (fun slot => ∃ xs, slot = some (.arr xs) ∧ ∀ x, x ∈ xs ↔ x = .str v)
      (runOperator ho claim policy .subsetOf (some (.arr [.str v]))) := by
  cases h : policy.lookup OperatorKind.subsetOf.name with
  | none =>
      rw [runOperator_of_not_mem (AList.lookup_eq_none.mp h)]
      refine checks_of_ok (fun param hp => ?_) rfl ⟨[.str v], rfl, by simp⟩
      rw [h] at hp
      exact absurd hp (by simp)
  | some param =>
      obtain ⟨ss, rfl⟩ := hstr param h
      obtain ⟨p, hp⟩ : ∃ p, (Json.arr (ss.map .str)).toSet = .ok p :=
        Json.exists_toSet_arr.mpr (by simp [Json.hashable])
      obtain ⟨q, hq⟩ : ∃ q, (Json.arr [.str v]).toSet = .ok q :=
        Json.exists_toSet_arr.mpr (by simp [Json.hashable])
      have hiff : Allows policy .subsetOf v ↔ Json.str v ∈ p := by
        rw [Json.mem_toSet hp, Json.lists_arr]
        refine ⟨fun hall => hall _ h, fun hholds param hparam => ?_⟩
        obtain rfl := Option.some.inj (h.symm.trans hparam)
        exact hholds
      have hmem := mem_inter_singleton (p := p) hq
      rw [run_subsetOf_of_toSet h hp hq]
      refine Checks.congr hiff.symm ?_
      by_cases hv : Json.str v ∈ p
      · have hne : ¬ (p.inter q).isEmpty = true := fun hempty =>
          KeyedSet.isEmpty_iff.mp hempty (.str v) ((hmem _).mpr ⟨hv, rfl⟩)
        rw [if_neg hne]
        -- the intersection has the value and nothing else
        refine checks_of_ok hv rfl ⟨ho.arrange (p.inter q).elems, rfl, fun x => ?_⟩
        rw [ho.mem_arrange]
        constructor
        · exact fun hx => eq_str_of_norm ((hmem x).mp (KeyedSet.mem_of_mem_elems hx)).2
        · rintro rfl
          obtain ⟨y, hy, hnorm⟩ := List.mem_map.mp ((hmem (.str v)).mpr ⟨hv, rfl⟩)
          exact eq_str_of_norm hnorm ▸ hy
      · have hempty : (p.inter q).isEmpty = true :=
          KeyedSet.isEmpty_iff.mpr (fun x hx => hv ((hmem x).mp hx).1)
        rw [if_pos hempty]
        exact checks_of_raises hv ⟨_, rfl⟩

/-! ## A claim policy on the string and on the list -/

/-- What the operators ask of a claim that is the string. -/
def ScalarPasses (policy : ClaimPolicy) (v : String) : Prop :=
  if OperatorKind.oneOf.name ∈ policy then Allows policy .oneOf v
  else (OperatorKind.subsetOf.name ∈ policy → v ∈ policy ∧ v ≠ "") ∧
    Asked policy (fun t => (Json.str v).Lists (.str t))

/-- What the operators ask of a claim that is a list of the string. -/
def ListPasses (policy : ClaimPolicy) (v : String) : Prop :=
  Allows policy .subsetOf v ∧ Asked policy (fun t => t = v)

/-- What is left of the string. -/
def scalarLeft (policy : ClaimPolicy) (v : String) : Json :=
  if OperatorKind.oneOf.name ∈ policy then .str v
  else if OperatorKind.subsetOf.name ∈ policy then .arr (Json.chars v) else .str v

/-- Neither `value` nor `add`, and lists of strings for the operators on sets. -/
structure OnSets (policy : ClaimPolicy) : Prop where
  noValue : OperatorKind.value.name ∉ policy
  noAdd : OperatorKind.add.name ∉ policy
  oneOf : ListsStrings policy .oneOf
  subsetOf : ListsStrings policy .subsetOf
  supersetOf : ListsStrings policy .supersetOf

/-- Without `value` and `add` a claim that is present comes to `one_of` as it is. -/
theorem evalClaim_present (h : OnSets policy) (x : Json) :
    evalClaim ho claim policy (some x) = (do
      let slot ← runOperator ho claim policy .oneOf (some x)
      if decidedByOneOf policy (some x) then runOperator ho claim policy .essential slot
      else do
        let slot ← runOperator ho claim policy .subsetOf slot
        let slot ← runOperator ho claim policy .supersetOf slot
        runOperator ho claim policy .essential slot) := by
  rw [evalClaim, if_neg h.noValue, runOperator_of_not_mem h.noAdd, except_ok_bind,
    run_default_present, except_ok_bind]

theorem toSet_str (v : String) : ∃ q, (Json.str v).toSet = .ok q := by
  have hhash : (Json.chars v).all Json.hashable = true := by simp [Json.chars, Json.hashable]
  simp only [Json.toSet, Json.iter?, if_pos hhash]
  exact ⟨_, rfl⟩

theorem toSet_chars (v : String) : ∃ q, (Json.arr (Json.chars v)).toSet = .ok q :=
  Json.exists_toSet_arr.mpr (by simp [Json.chars, Json.hashable])

/-- The string is let through exactly if it meets what is asked of it. -/
theorem evalClaim_str (h : OnSets policy) :
    Checks (ScalarPasses policy v) (fun slot => slot = some (scalarLeft policy v))
      (evalClaim ho claim policy (some (.str v))) := by
  rw [evalClaim_present h]
  by_cases hone : OperatorKind.oneOf.name ∈ policy
  · -- `one_of` decides
    have hdecided : decidedByOneOf policy (some (.str v)) = true := by
      simp [decidedByOneOf, hone, Json.isList]
    rw [ScalarPasses, scalarLeft, if_pos hone, if_pos hone, hdecided]
    refine Checks.congr (and_iff_left trivial) ((run_oneOf_str h.oneOf).bind (fun slot hslot => ?_))
    rw [hslot, if_pos rfl]
    exact checks_of_ok trivial (run_essential_present _) rfl
  · have hdecided : decidedByOneOf policy (some (.str v)) = false := by
      simp [decidedByOneOf, hone]
    rw [ScalarPasses, scalarLeft, if_neg hone, if_neg hone, hdecided,
      runOperator_of_not_mem hone, except_ok_bind]
    simp only [Bool.false_eq_true, if_false]
    refine run_subsetOf_str.bind (fun slot hslot => ?_)
    -- the string and the list of its characters list the same
    obtain ⟨q, hq⟩ : ∃ q, (if OperatorKind.subsetOf.name ∈ policy
        then Json.arr (Json.chars v) else .str v).toSet = .ok q := by
      split
      · exact toSet_chars v
      · exact toSet_str v
    have hlists : ∀ t, (if OperatorKind.subsetOf.name ∈ policy
        then Json.arr (Json.chars v) else .str v).Lists (.str t) ↔ (Json.str v).Lists (.str t) := by
      intro t
      split <;> simp [Json.Lists, Json.iter?]
    have hasked : Asked policy (fun t => (if OperatorKind.subsetOf.name ∈ policy
        then Json.arr (Json.chars v) else .str v).Lists (.str t)) ↔
          Asked policy (fun t => (Json.str v).Lists (.str t)) := by
      simp only [Asked, hlists]
    rw [hslot]
    refine Checks.congr ((and_iff_left trivial).trans hasked)
      ((run_supersetOf_present h.supersetOf hq).bind (fun slot hslot => ?_))
    rw [hslot]
    exact checks_of_ok trivial (run_essential_present _) rfl

/-- The list is let through exactly if it meets what is asked of it, and holds the string. -/
theorem evalClaim_singleton (h : OnSets policy) :
    Checks (ListPasses policy v)
      (fun slot => ∃ xs, slot = some (.arr xs) ∧ ∀ x, x ∈ xs ↔ x = .str v)
      (evalClaim ho claim policy (some (.arr [.str v]))) := by
  rw [evalClaim_present h, run_oneOf_list, except_ok_bind]
  have hdecided : decidedByOneOf policy (some (.arr [.str v])) = false := by
    simp [decidedByOneOf, Json.isList]
  rw [hdecided, if_neg (by simp)]
  refine (run_subsetOf_singleton h.subsetOf).bind ?_
  rintro slot ⟨xs, rfl, hxs⟩
  obtain ⟨q, hq⟩ : ∃ q, (Json.arr xs).toSet = .ok q := by
    refine Json.exists_toSet_arr.mpr (fun x hx => ?_)
    rw [(hxs x).mp hx]
    rfl
  have hlists : ∀ t, (Json.arr xs).Lists (.str t) ↔ t = v := by
    intro t
    rw [Json.lists_arr]
    constructor
    · rintro ⟨y, hy, hnorm⟩
      rw [(hxs y).mp hy] at hnorm
      exact (Json.str.inj hnorm).symm
    · rintro rfl
      exact ⟨_, (hxs _).mpr rfl, rfl⟩
  have hasked : Asked policy (fun t => (Json.arr xs).Lists (.str t)) ↔
      Asked policy (fun t => t = v) := by
    simp only [Asked, hlists]
  refine Checks.congr ((and_iff_left trivial).trans hasked)
    ((run_supersetOf_present h.supersetOf hq).bind ?_)
  rintro slot rfl
  exact checks_of_ok trivial (run_essential_present _) ⟨xs, rfl, hxs⟩

/-! ## A metadata policy for one claim -/

/-- `apply_metadata_policy` with a policy for the claim alone, on metadata in which the claim
    has the value. -/
def runOn (ho : HashOrder) (claim : String) (policy : ClaimPolicy) (metadata : Metadata)
    (value : Json) : EStateM.Result Exc Metadata Unit :=
  applyMetadataPolicy ho (Dict.ofList [(claim, policy)]) constructEvaluationSequence
    (metadata.insert claim value)

theorem slotsOf_runOn (metadata : Metadata) (value : Json) :
    slotsOf (runOn ho claim policy metadata value) = (do
      let slot ← evalClaim ho claim policy (some value)
      return Function.update (fun c => (metadata.insert claim value).lookup c) claim slot) := by
  have hkeys : ho.arrange (Dict.ofList [(claim, policy)]).keys = [claim] :=
    List.perm_singleton.mp (ho.perm [claim])
  have hlookup : (Dict.ofList [(claim, policy)]).lookup claim = some policy :=
    AList.lookup_insert ∅
  rw [runOn, applyMetadataPolicy, slotsOf_applyClaims, hkeys, evalClaims, updateEach, hlookup,
    Option.getD_some, AList.lookup_insert]
  rfl

theorem runOn_raises_iff {metadata : Metadata} {value : Json} :
    RaisesPolicyError (outcome (runOn ho claim policy metadata value)) ↔
      RaisesPolicyError (evalClaim ho claim policy (some value)) := by
  have hslots := @slotsOf_runOn ho claim policy metadata value
  cases heval : evalClaim ho claim policy (some value) with
  | error e =>
      cases hrun : runOn ho claim policy metadata value with
      | ok u m => simp [hrun, heval, slotsOf] at hslots
      | error e' m =>
          rw [hrun, heval] at hslots
          obtain rfl : e' = e := Except.error.inj hslots
          simp [RaisesPolicyError]
  | ok slot =>
      rw [heval] at hslots
      obtain ⟨m, hrun, -⟩ := slotsOf_eq_ok.mp hslots
      simp [hrun]

theorem runOn_eq_ok {metadata : Metadata} {value : Json} {slot : Option Json} :
    (∃ m, runOn ho claim policy metadata value = .ok () m ∧ m.lookup claim = slot) ↔
      evalClaim ho claim policy (some value) = .ok slot := by
  have hslots := @slotsOf_runOn ho claim policy metadata value
  constructor
  · rintro ⟨m, hrun, rfl⟩
    rw [hrun] at hslots
    obtain ⟨slot, heval, hupdate⟩ := except_bind_eq_ok.mp hslots.symm
    have hslot := congrFun (except_pure_eq_ok.mp hupdate) claim
    rw [Function.update_self] at hslot
    rw [heval, hslot]
  · intro heval
    rw [heval] at hslots
    obtain ⟨m, hrun, hlookup⟩ := slotsOf_eq_ok.mp hslots
    have hslot := congrFun hlookup claim
    rw [Function.update_self] at hslot
    exact ⟨m, hrun, hslot⟩

/-! ## The string and the list treated alike -/

/-- The policy does the same to a claim that is the string and to one that is a list of it:
    both raise `PolicyError`, or both go through and hold the same values. -/
def TreatedAlike (ho : HashOrder) (claim : String) (policy : ClaimPolicy) (metadata : Metadata)
    (v : String) : Prop :=
  (RaisesPolicyError (outcome (runOn ho claim policy metadata (.str v))) ∧
      RaisesPolicyError (outcome (runOn ho claim policy metadata (.arr [.str v])))) ∨
    ∃ m m' a b, runOn ho claim policy metadata (.str v) = .ok () m ∧
      runOn ho claim policy metadata (.arr [.str v]) = .ok () m' ∧
      m.lookup claim = some a ∧ m'.lookup claim = some b ∧ ∀ x, a.Holds x ↔ b.Holds x

/-- Where `subset_of` alone decides, the string goes through exactly if it is listed, and the
    claim keeps it. -/
def SubsetDecides (ho : HashOrder) (claim : String) (policy : ClaimPolicy) (metadata : Metadata)
    (v : String) : Prop :=
  ∀ subset, policy.lookup OperatorKind.subsetOf.name = some subset →
    OperatorKind.oneOf.name ∉ policy → OperatorKind.supersetOf.name ∉ policy →
    ((∃ m, runOn ho claim policy metadata (.str v) = .ok () m) ↔ subset.Holds (.str v)) ∧
      ∀ m, runOn ho claim policy metadata (.str v) = .ok () m →
        ∃ a, m.lookup claim = some a ∧ ∀ x, a.Holds x ↔ (Json.str v).Holds x

/-- The operators ask the same of both, and a string that `subset_of` splits up is a single
    character. -/
def SameVerdict (policy : ClaimPolicy) (v : String) : Prop :=
  (ScalarPasses policy v ↔ ListPasses policy v) ∧
    (ScalarPasses policy v → OperatorKind.oneOf.name ∉ policy →
      OperatorKind.subsetOf.name ∈ policy → v.length = 1)

/-- A string holds the same as its characters exactly if it is one character. -/
theorem holds_chars_iff :
    (∀ x, (Json.arr (Json.chars v)).Holds x ↔ (Json.str v).Holds x) ↔ v.length = 1 := by
  have hstr : ∀ x, (Json.str v).Holds x ↔ Json.str v = x.norm := fun x =>
    Json.holds_of_not_isList rfl
  have hchars : ∀ x, (Json.arr (Json.chars v)).Holds x ↔
      ∃ c ∈ v.toList, Json.str (String.singleton c) = x.norm := by
    simp [Json.Holds, Json.held, Json.chars, Json.norm]
  simp only [hstr, hchars]
  constructor
  · intro h
    obtain ⟨c, -, hc⟩ := (h (.str v)).mpr rfl
    have hv : String.singleton c = v := Json.str.inj hc
    rw [← hv, ← String.length_toList, String.toList_singleton]
    rfl
  · intro hlen x
    obtain ⟨c, hc⟩ := List.length_eq_one_iff.mp ((String.length_toList).trans hlen)
    have hv : String.singleton c = v := by
      rw [← String.toList_inj, hc, String.toList_singleton]
    rw [hc]
    simp [hv]

/-- What is left of the string is the string, unless `subset_of` splits it up. -/
theorem holds_scalarLeft_iff :
    (∀ x, (scalarLeft policy v).Holds x ↔ (Json.str v).Holds x) ↔
      (OperatorKind.oneOf.name ∉ policy → OperatorKind.subsetOf.name ∈ policy → v.length = 1) := by
  rw [scalarLeft]
  by_cases hone : OperatorKind.oneOf.name ∈ policy
  · rw [if_pos hone]
    exact iff_of_true (fun _ => Iff.rfl) (fun hno => absurd hone hno)
  · rw [if_neg hone]
    by_cases hsub : OperatorKind.subsetOf.name ∈ policy
    · rw [if_pos hsub, holds_chars_iff]
      exact ⟨fun h _ _ => h, fun h => h hone hsub⟩
    · rw [if_neg hsub]
      exact iff_of_true (fun _ => Iff.rfl) (fun _ hmem => absurd hmem hsub)

/-- A list of nothing but the string holds what the string does. -/
theorem holds_of_only {xs : List Json} (h : ∀ x, x ∈ xs ↔ x = .str v) (x : Json) :
    (Json.arr xs).Holds x ↔ (Json.str v).Holds x := by
  simp [Json.Holds, Json.held, h]

theorem treatedAlike_iff (h : OnSets policy) (metadata : Metadata) :
    TreatedAlike ho claim policy metadata v ↔ SameVerdict policy v := by
  have hscalar := @evalClaim_str ho claim policy v h
  have hlist := @evalClaim_singleton ho claim policy v h
  rw [TreatedAlike, SameVerdict, runOn_raises_iff, runOn_raises_iff, hscalar.raises_iff,
    hlist.raises_iff, ← holds_scalarLeft_iff]
  constructor
  · rintro (⟨hs, hl⟩ | ⟨m, m', a, b, hrun, hrun', ha, hb, hsame⟩)
    · exact ⟨iff_of_false hs hl, fun hp => absurd hp hs⟩
    · obtain ⟨hs, hleft⟩ := hscalar.of_ok (runOn_eq_ok.mp ⟨m, hrun, ha⟩)
      obtain ⟨hl, xs, hxs, honly⟩ := hlist.of_ok (runOn_eq_ok.mp ⟨m', hrun', hb⟩)
      obtain rfl := Option.some.inj hleft
      obtain rfl := Option.some.inj hxs
      exact ⟨iff_of_true hs hl, fun _ x => (hsame x).trans (holds_of_only honly x)⟩
  · rintro ⟨hiff, hsame⟩
    by_cases hs : ScalarPasses policy v
    · obtain ⟨slot, heval, rfl⟩ := hscalar.1 hs
      obtain ⟨slot', heval', xs, rfl, honly⟩ := hlist.1 (hiff.mp hs)
      obtain ⟨m, hrun, ha⟩ := (@runOn_eq_ok ho claim policy metadata _ _).mpr heval
      obtain ⟨m', hrun', hb⟩ := (@runOn_eq_ok ho claim policy metadata _ _).mpr heval'
      exact Or.inr ⟨m, m', _, _, hrun, hrun', ha, hb, fun x =>
        (hsame hs x).trans (holds_of_only honly x).symm⟩
    · exact Or.inl ⟨hs, fun hl => hs (hiff.mpr hl)⟩

/-- Where both are treated alike, `subset_of` decides about the string as about the list. -/
theorem subsetDecides_of_sameVerdict (h : OnSets policy) (hsame : SameVerdict policy v)
    (metadata : Metadata) : SubsetDecides ho claim policy metadata v := by
  have hscalar := @evalClaim_str ho claim policy v h
  intro subset hsubset hone hsuper
  have hasked : Asked policy (fun t => t = v) := asked_of_not_mem hsuper
  have hallows : Allows policy .subsetOf v ↔ subset.Holds (.str v) := by
    refine ⟨fun hall => hall subset hsubset, fun hholds param hparam => ?_⟩
    obtain rfl := Option.some.inj (hsubset.symm.trans hparam)
    exact hholds
  have hpasses : ScalarPasses policy v ↔ subset.Holds (.str v) := by
    rw [hsame.1, ListPasses, hallows, and_iff_left hasked]
  constructor
  · rw [← hpasses]
    constructor
    · rintro ⟨m, hrun⟩
      exact (hscalar.of_ok (runOn_eq_ok.mp ⟨m, hrun, rfl⟩)).1
    · intro hs
      obtain ⟨slot, heval, -⟩ := hscalar.1 hs
      obtain ⟨m, hrun, -⟩ := (@runOn_eq_ok ho claim policy metadata _ _).mpr heval
      exact ⟨m, hrun⟩
  · intro m hrun
    obtain ⟨hs, hleft⟩ := hscalar.of_ok (runOn_eq_ok.mp ⟨m, hrun, rfl⟩)
    exact ⟨_, hleft, holds_scalarLeft_iff.mpr (hsame.2 hs)⟩

/-- A single string is treated like a list of it, and decided on by `subset_of` like one,
    exactly if the operators ask the same of both and `subset_of` does not split it up. -/
theorem single_value_alike_iff (ho : HashOrder) (claim : String) {policy : ClaimPolicy}
    (h : OnSets policy) (metadata : Metadata) (v : String) :
    TreatedAlike ho claim policy metadata v ∧ SubsetDecides ho claim policy metadata v ↔
      SameVerdict policy v := by
  rw [treatedAlike_iff h]
  exact ⟨fun hboth => hboth.1, fun hsame => ⟨hsame, subsetDecides_of_sameVerdict h hsame metadata⟩⟩

/-- A policy with a list of signing algorithms to choose from. -/
def oneAlgorithm : ClaimPolicy := Dict.ofList [("one_of", .arr [.str "ES256", .str "ES384"])]

theorem single_value_alike_iff_oneAlgorithm :
    TreatedAlike .insertion "id_token_signed_response_alg" oneAlgorithm ∅ "ES256" ∧
        SubsetDecides .insertion "id_token_signed_response_alg" oneAlgorithm ∅ "ES256" ↔
      SameVerdict oneAlgorithm "ES256" := by
  refine single_value_alike_iff .insertion "id_token_signed_response_alg"
    ⟨by decide, by decide, fun param h => ?_, listsStrings_of_not_mem (by decide),
      listsStrings_of_not_mem (by decide)⟩ ∅ "ES256"
  obtain rfl := Option.some.inj h
  exact ⟨["ES256", "ES384"], rfl⟩

/-- A response type that `subset_of` lists is refused as a string, because no operator has that
    name, and goes through as a list. -/
theorem listed_string_refused :
    OnSets (Dict.ofList [("subset_of", .arr [.str "code"])]) ∧
      RaisesPolicyError (outcome (runOn .insertion "response_types"
        (Dict.ofList [("subset_of", .arr [.str "code"])]) ∅ (.str "code"))) ∧
      (∃ m, runOn .insertion "response_types" (Dict.ofList [("subset_of", .arr [.str "code"])]) ∅
          (.arr [.str "code"]) = .ok () m ∧
        m.lookup "response_types" = some (.arr [.str "code"])) ∧
      ¬ TreatedAlike .insertion "response_types"
        (Dict.ofList [("subset_of", .arr [.str "code"])]) ∅ "code" := by
  have honSets : OnSets (Dict.ofList [("subset_of", .arr [.str "code"])]) := by
    refine ⟨by decide, by decide, listsStrings_of_not_mem (by decide), fun param h => ?_,
      listsStrings_of_not_mem (by decide)⟩
    obtain rfl := Option.some.inj h
    exact ⟨["code"], rfl⟩
  refine ⟨honSets, ⟨_, rfl⟩, ⟨_, rfl, rfl⟩, ?_⟩
  rw [treatedAlike_iff honSets]
  -- the list is asked for a listed value only, the string for the name of an operator
  rintro ⟨hiff, -⟩
  have hlist : ListPasses (Dict.ofList [("subset_of", .arr [.str "code"])]) "code" := by
    refine ⟨fun param h => ?_, asked_of_not_mem (by decide)⟩
    obtain rfl := Option.some.inj h
    exact ⟨_, List.mem_singleton_self _, rfl⟩
  have hscalar := hiff.mpr hlist
  rw [ScalarPasses, if_neg (by decide)] at hscalar
  exact absurd (hscalar.1 (by decide)).1 (by decide)

end Fedservice.Entity.Function
