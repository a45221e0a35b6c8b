/-
  Fedservice.Entity.Function.PolicyRestriction

  Whether combining two claim policies only restricts.  The checks of a claim
  policy are predicates on the slot of a claim, and `combine_claim_policy` only
  restricts when a claim that satisfies its result satisfies both sides
  (`OnlyRestricts`).  `KeepsChecks` says of two policies when that is so: what
  can go wrong is `superset_of`, whose lists are intersected, operators next to
  a `value`, and an `essential` that is neither true nor false.
-/

import Fedservice.Entity.Function.PolicyCombination
import Fedservice.Entity.Function.PolicySemantics

namespace Fedservice.Entity.Function

open Fedservice.Lib Fedservice.Py Fedservice.EntityStatement

variable {Key : Type} {ho : HashOrder} {superior child policy : ClaimPolicy} {slot : Option Json}

/-! ## The checks of a claim policy -/

/-- `value`: the claim equals it. -/
def MeetsValue (policy : ClaimPolicy) (slot : Option Json) : Prop :=
  ∀ v, policy.lookup "value" = some v → ∃ w, slot = some w ∧ w.norm = v.norm

/-- `essential`: if it is true the claim is present. -/
def MeetsEssential (policy : ClaimPolicy) (slot : Option Json) : Prop :=
  ∀ p, policy.lookup "essential" = some p → p.eqv (.bool true) = true → slot.isSome = true

/-- `one_of` and `subset_of`: every value held is listed. -/
def Within (operator : OperatorKind) (policy : ClaimPolicy) (slot : Option Json) : Prop :=
  ∀ p, policy.lookup operator.name = some p → ∀ x, SlotHolds slot x → p.Lists x

/-- `superset_of`: a claim that is present holds every listed value. -/
def Covers (policy : ClaimPolicy) (slot : Option Json) : Prop :=
  ∀ p v, policy.lookup "superset_of" = some p → slot = some v → ∀ x, p.Lists x → v.Holds x

/-- All checks of a claim policy. -/
structure Satisfies (policy : ClaimPolicy) (slot : Option Json) : Prop where
  value : MeetsValue policy slot
  essential : MeetsEssential policy slot
  oneOf : Within .oneOf policy slot
  subsetOf : Within .subsetOf policy slot
  supersetOf : Covers policy slot

/-- What equals a value that satisfies a policy satisfies it as well. -/
theorem satisfies_congr {v w : Json} (hnorm : v.norm = w.norm)
    (h : Satisfies policy (some v)) : Satisfies policy (some w) := by
  have hheld : ∀ {x}, SlotHolds (some w) x → SlotHolds (some v) x := by
    rintro x ⟨w', hw', hx⟩
    obtain rfl := Option.some.inj hw'
    exact ⟨v, rfl, (Json.holds_congr hnorm).mpr hx⟩
  refine ⟨fun u hu => ?_, fun _ _ _ => rfl, fun p hp x hx => h.oneOf p hp x (hheld hx),
    fun p hp x hx => h.subsetOf p hp x (hheld hx), fun p w' hp hw' x hx => ?_⟩
  · obtain ⟨v', hv', huv⟩ := h.value u hu
    obtain rfl := Option.some.inj hv'
    exact ⟨w, rfl, hnorm.symm.trans huv⟩
  · obtain rfl := Option.some.inj hw'
    exact (Json.holds_congr hnorm).mp (h.supersetOf p v hp rfl x hx)

/-- Nothing but `value` and `essential` looks at an absent claim. -/
theorem satisfies_none (hvalue : "value" ∉ policy) (h : MeetsEssential policy none) :
    Satisfies policy none := by
  have habsent : ∀ {x}, ¬ SlotHolds none x := fun ⟨v, hv, _⟩ => by simp at hv
  refine ⟨fun v hv => absurd (Dict.mem_iff_lookup.mpr ⟨v, hv⟩) hvalue, h,
    fun _ _ _ hx => absurd hx habsent, fun _ _ _ hx => absurd hx habsent, fun _ v _ hv => ?_⟩
  exact absurd hv (by simp)

/-- A policy without operators other than `essential` asks for presence only. -/
theorem satisfies_of_only_essential (h : ∀ k : OperatorKind, k.name ∈ policy → k = .essential)
    (hslot : slot.isSome = true) : Satisfies policy slot := by
  have hnone : ∀ k : OperatorKind, k ≠ .essential → policy.lookup k.name = none :=
    fun k hk => AList.lookup_eq_none.mpr (fun hin => hk (h k hin))
  refine ⟨fun v hv => ?_, fun _ _ _ => hslot, fun p hp => ?_, fun p hp => ?_, fun p _ hp => ?_⟩
  · exact absurd ((hnone .value (by decide)).symm.trans hv) (by simp)
  · exact absurd ((hnone .oneOf (by decide)).symm.trans hp) (by simp)
  · exact absurd ((hnone .subsetOf (by decide)).symm.trans hp) (by simp)
  · exact absurd ((hnone .supersetOf (by decide)).symm.trans hp) (by simp)

/-! ## Merged operators -/

/-- The operators whose lists are intersected. -/
def isIntersected : OperatorKind → Bool
  | .oneOf | .subsetOf | .supersetOf => true
  | _ => false

/-- Where both sides have the operator the result is a list of what they share. -/
theorem op2func_eq_ok {k : OperatorKind} {s c v : Json} (hk : isIntersected k = true)
    (h : op2func ho k s c = .ok v) :
    ∃ p q, s.toSet = .ok p ∧ c.toSet = .ok q ∧ v = listOf ho (p.inter q) := by
  cases k with
  | oneOf | subsetOf | supersetOf =>
      obtain ⟨p, hp, h⟩ := except_bind_eq_ok.mp h
      obtain ⟨q, hq, h⟩ := except_bind_eq_ok.mp h
      exact ⟨p, q, hp, hq, (except_pure_eq_ok.mp h).symm⟩
  | value | add | default | essential => simp [isIntersected] at hk

theorem op2func_holds {k : OperatorKind} {s c v x : Json} (hk : isIntersected k = true)
    (h : op2func ho k s c = .ok v) : v.Holds x ↔ s.Lists x ∧ c.Lists x := by
  obtain ⟨p, q, hp, hq, rfl⟩ := op2func_eq_ok hk h
  rw [holds_listOf, KeyedSet.mem_inter, Json.mem_toSet hp, Json.mem_toSet hq]

theorem op2func_lists {k : OperatorKind} {s c v x : Json} (hk : isIntersected k = true)
    (h : op2func ho k s c = .ok v) : v.Lists x ↔ s.Lists x ∧ c.Lists x := by
  rw [← op2func_holds hk h]
  obtain ⟨p, q, -, -, rfl⟩ := op2func_eq_ok hk h
  exact Json.lists_arr

theorem op2func_of_merged {k : OperatorKind} {s c v : Json} (hk : isIntersected k = true)
    (hmerged : MergedOperators ho superior child policy) (hs : superior.lookup k.name = some s)
    (hc : child.lookup k.name = some c) (hv : policy.lookup k.name = some v) :
    op2func ho k s c = .ok v := by
  obtain ⟨v', hdo, hv'⟩ := hmerged.operator k (Or.inl (Dict.mem_iff_lookup.mpr ⟨s, hs⟩))
  obtain rfl : v = v' := Option.some.inj (hv.symm.trans hv')
  have hdo : doSubOneSuperAdd ho superior child k = .ok v := by
    cases k with
    | oneOf | subsetOf | supersetOf => exact hdo
    | value | add | default | essential => simp [isIntersected] at hk
  exact ((doSubOneSuperAdd_of_both hs hc).mp hdo).1

/-- Each side that has the operator lists `x`. -/
def ListedByBoth (k : OperatorKind) (superior child : ClaimPolicy) (x : Json) : Prop :=
  (∀ p, superior.lookup k.name = some p → p.Lists x) ∧
    ∀ q, child.lookup k.name = some q → q.Lists x

theorem listedByBoth_iff {k : OperatorKind} {p q x : Json} (hp : superior.lookup k.name = some p)
    (hq : child.lookup k.name = some q) :
    ListedByBoth k superior child x ↔ p.Lists x ∧ q.Lists x := by
  simp [ListedByBoth, hp, hq]

/-- What a merged list lists is what each side that has the operator lists. -/
theorem merged_lists {k : OperatorKind} (hk : isIntersected k = true)
    (hmerged : MergedOperators ho superior child policy) {v x : Json}
    (hv : policy.lookup k.name = some v) : v.Lists x ↔ ListedByBoth k superior child x := by
  unfold ListedByBoth
  cases hs : superior.lookup k.name with
  | none =>
      rw [(hmerged.lookup_of_one k).2 hs] at hv
      simp [hv]
  | some s =>
      cases hc : child.lookup k.name with
      | none =>
          rw [(hmerged.lookup_of_one k).1 hc, hs] at hv
          obtain rfl := Option.some.inj hv
          simp
      | some c =>
          simpa using op2func_lists hk (op2func_of_merged hk hmerged hs hc hv)

/-- A check against a merged list is a check against the lists of both sides. -/
theorem within_merged {k : OperatorKind} (hk : isIntersected k = true)
    (hmerged : MergedOperators ho superior child policy) :
    Within k policy slot ↔ Within k superior slot ∧ Within k child slot := by
  constructor
  · intro h
    constructor
    · intro p hp x hx
      obtain ⟨v, -, hv⟩ := hmerged.operator k (Or.inl (Dict.mem_iff_lookup.mpr ⟨p, hp⟩))
      exact ((merged_lists hk hmerged hv).mp (h v hv x hx)).1 p hp
    · intro q hq x hx
      obtain ⟨v, -, hv⟩ := hmerged.operator k (Or.inr (Dict.mem_iff_lookup.mpr ⟨q, hq⟩))
      exact ((merged_lists hk hmerged hv).mp (h v hv x hx)).2 q hq
  · rintro ⟨hsup, hchild⟩ v hv x hx
    exact (merged_lists hk hmerged hv).mpr
      ⟨fun p hp => hsup p hp x hx, fun q hq => hchild q hq x hx⟩

/-- Only what `superset_of` asks for on both sides has to be held. -/
theorem covers_merged (hmerged : MergedOperators ho superior child policy) {v : Json} :
    Covers policy (some v) ↔ ("superset_of" ∈ superior ∨ "superset_of" ∈ child →
      ∀ x, ListedByBoth .supersetOf superior child x → v.Holds x) := by
  constructor
  · intro h hsome x hx
    obtain ⟨s, -, hs⟩ := hmerged.operator .supersetOf hsome
    exact h s v hs rfl x ((merged_lists rfl hmerged hs).mpr hx)
  · intro h p w hp hw x hx
    obtain rfl := Option.some.inj hw
    have hsome := (hmerged.mem_iff (k := .supersetOf)).mp (Dict.mem_iff_lookup.mpr ⟨p, hp⟩)
    exact h hsome x ((merged_lists (k := .supersetOf) rfl hmerged hp).mp hx)

theorem value_of_merged (hsup : "value" ∉ superior)
    (hmerged : MergedOperators ho superior child policy) :
    policy.lookup "value" = child.lookup "value" :=
  (hmerged.lookup_of_one .value).2 (AList.lookup_eq_none.mpr hsup)

theorem truthy_of_eqv_true {p : Json} (h : p.eqv (.bool true) = true) : p.truthy = true := by
  have hnorm := Json.eqv_iff.mp h
  cases p <;> simp_all [Json.norm, Json.truthy]

/-- The merged `essential`, where both sides have one. -/
theorem essential_merged (hmerged : MergedOperators ho superior child policy) {s c : Json}
    (hs : superior.lookup "essential" = some s) (hc : child.lookup "essential" = some c) :
    policy.lookup "essential" = some (if !s.truthy && c.truthy then .bool true else s) := by
  obtain ⟨v, hdo, hv⟩ :=
    hmerged.operator .essential (Or.inl (Dict.mem_iff_lookup.mpr ⟨s, hs⟩))
  have hdo : doEssential superior child .essential = .ok v := hdo
  have hs' : superior.lookup OperatorKind.essential.name = some s := hs
  have hc' : child.lookup OperatorKind.essential.name = some c := hc
  simp only [doEssential, hs', hc', Except.ok.injEq] at hdo
  rw [hdo]
  exact hv

/-- A superior's `essential` stays true. -/
theorem essential_superior_of_merged (hmerged : MergedOperators ho superior child policy)
    (h : MeetsEssential policy slot) : MeetsEssential superior slot := by
  intro s hs htrue
  cases hc : child.lookup "essential" with
  | none => exact h s (((hmerged.lookup_of_one .essential).1 hc).trans hs) htrue
  | some c =>
      have hlook := essential_merged hmerged hs hc
      rw [truthy_of_eqv_true htrue, Bool.not_true, Bool.false_and, if_neg (by simp)] at hlook
      exact h s hlook htrue

/-- Where the child makes a claim essential, an `essential` of the superior that
    counts as true is `true`. -/
def EssentialKept (superior child : ClaimPolicy) : Prop :=
  ∀ s c, superior.lookup "essential" = some s → child.lookup "essential" = some c →
    c.eqv (.bool true) = true → s.truthy = true → s.eqv (.bool true) = true

/-- The child's `essential` stays true under that condition. -/
theorem essential_child_of_merged (hmerged : MergedOperators ho superior child policy)
    (hkept : EssentialKept superior child) (h : MeetsEssential policy slot) :
    MeetsEssential child slot := by
  intro c hc htrue
  cases hs : superior.lookup "essential" with
  | none => exact h c (((hmerged.lookup_of_one .essential).2 hs).trans hc) htrue
  | some s =>
      have hlook := essential_merged hmerged hs hc
      cases ht : s.truthy with
      | true =>
          rw [ht, Bool.not_true, Bool.false_and, if_neg (by simp)] at hlook
          exact h s hlook (hkept s c hs hc htrue ht)
      | false =>
          rw [ht, truthy_of_eqv_true htrue, Bool.not_false, Bool.true_and, if_pos rfl] at hlook
          exact h (.bool true) hlook (Json.eqv_refl _)

/-- An absent claim tells when it does not hold. -/
theorem essentialKept_of_merged (hmerged : MergedOperators ho superior child policy)
    (h : MeetsEssential policy none → MeetsEssential child none) :
    EssentialKept superior child := by
  intro s c hs hc htrue ht
  by_contra hne
  have hlook := essential_merged hmerged hs hc
  rw [ht, Bool.not_true, Bool.false_and, if_neg (by simp)] at hlook
  have hpolicy : MeetsEssential policy none := by
    intro p hp hptrue
    obtain rfl : s = p := Option.some.inj (hlook.symm.trans hp)
    exact absurd hptrue hne
  exact absurd (h hpolicy c hc htrue) (by simp)

/-! ## When a combination only restricts -/

/-- A claim that satisfies the combined policy satisfies both sides. -/
def OnlyRestricts (superior child policy : ClaimPolicy) : Prop :=
  ∀ slot, Satisfies policy slot → Satisfies superior slot ∧ Satisfies child slot

/-- What two policies have to be like for their combination to keep all checks. -/
structure KeepsChecks (superior child : ClaimPolicy) : Prop where
  /-- A superior's value, next to which only `essential` or the same value of the
      child is kept, meets the checks of the policies that set it. -/
  underValue : ∀ v, superior.lookup "value" = some v →
    ("essential" ∈ child → Satisfies superior (some v)) ∧
      ("value" ∈ child → Satisfies superior (some v) → Satisfies child (some v))
  /-- A child's value that the lists of both sides allow and that holds what both
      `superset_of` ask for holds what either asks for. -/
  childValue : "value" ∉ superior → ∀ w, child.lookup "value" = some w →
    (∀ k, k = .oneOf ∨ k = .subsetOf → Within k superior (some w) ∧ Within k child (some w)) →
    ∀ p q, superior.lookup "superset_of" = some p → child.lookup "superset_of" = some q →
      (∀ x, p.Lists x → q.Lists x → w.Holds x) → ∀ x, p.Lists x ∨ q.Lists x → w.Holds x
  /-- Without a value, two `superset_of` list the same, unless no claim can hold
      what both ask for and be within the lists of `subset_of`. -/
  noValue : "value" ∉ superior → "value" ∉ child →
    ∀ p q, superior.lookup "superset_of" = some p → child.lookup "superset_of" = some q →
      (∀ x, p.Lists x → q.Lists x → ListedByBoth .subsetOf superior child x) →
      ∀ x, p.Lists x ↔ q.Lists x
  essential : "value" ∉ superior → "value" ∉ child → EssentialKept superior child

/-- A claim that equals a value is present. -/
theorem isSome_of_meetsValue (hvalue : "value" ∈ policy) (h : MeetsValue policy slot) :
    slot.isSome = true := by
  obtain ⟨v, hv⟩ := Dict.mem_iff_lookup.mp hvalue
  obtain ⟨w, rfl, -⟩ := h v hv
  rfl

/-- Under a superior that sets a value. -/
theorem onlyRestricts_underValue (hsup : "value" ∈ superior)
    (hunder : combineUnderValue superior child (knownOperators child) = .ok policy) :
    OnlyRestricts superior child policy ↔ KeepsChecks superior child := by
  obtain ⟨v, hv⟩ := Dict.mem_iff_lookup.mp hsup
  -- the other conditions are about superiors without a value
  have hkeeps : KeepsChecks superior child ↔
      ("essential" ∈ child → Satisfies superior (some v)) ∧
        ("value" ∈ child → Satisfies superior (some v) → Satisfies child (some v)) := by
    refine ⟨fun h => h.underValue v hv, fun h => ⟨fun u hu => ?_, fun hno => absurd hsup hno,
      fun hno => absurd hsup hno, fun hno => absurd hsup hno⟩⟩
    obtain rfl : v = u := Option.some.inj (hv.symm.trans hu)
    exact h
  rw [hkeeps]
  rcases combineUnderValue_eq_ok hunder with
    ⟨hno, rfl⟩ | ⟨honly, hvalue, -, hnone⟩ | ⟨hnoess, ⟨v', w, hv', hw, heqv⟩, rfl⟩
  · -- no operator in the child
    refine ⟨fun _ => ⟨fun hin => absurd hin (hno .essential), fun hin => absurd hin (hno .value)⟩,
      fun _ slot h => ⟨h, ?_⟩⟩
    exact satisfies_of_only_essential (fun k hk => absurd hk (hno k))
      (isSome_of_meetsValue hsup h.value)
  · -- `essential` alone in the child: the other operators of the superior are gone
    have hess : "essential" ∈ child := (honly .essential).mpr rfl
    have hnovalue : "value" ∉ child := fun hin => by simpa using (honly .value).mp hin
    constructor
    · intro h
      have hgone : ∀ n, n ≠ "value" → n ≠ "essential" → ∀ p, policy.lookup n ≠ some p := by
        intro n hn hn' p hp
        exact absurd ((hnone n hn hn').symm.trans hp) (by simp)
      have hpolicy : Satisfies policy (some v) := by
        refine ⟨fun u hu => ⟨v, rfl, ?_⟩, fun _ _ _ => rfl,
          fun p hp => absurd hp (hgone "one_of" (by decide) (by decide) p),
          fun p hp => absurd hp (hgone "subset_of" (by decide) (by decide) p),
          fun p _ hp => absurd hp (hgone "superset_of" (by decide) (by decide) p)⟩
        rw [Option.some.inj ((hvalue.trans hv).symm.trans hu)]
      exact ⟨fun _ => (h (some v) hpolicy).1, fun hin => absurd hin hnovalue⟩
    · rintro ⟨hsat, -⟩ slot h
      obtain ⟨u, rfl, hnorm⟩ := h.value v (hvalue.trans hv)
      exact ⟨satisfies_congr hnorm.symm (hsat hess),
        satisfies_of_only_essential (fun k hk => (honly k).mp hk) rfl⟩
  · -- the same value in the child: the other operators of the child are gone
    obtain rfl : v = v' := Option.some.inj (hv.symm.trans hv')
    have hin : "value" ∈ child := Dict.mem_iff_lookup.mpr ⟨w, hw⟩
    constructor
    · intro h
      exact ⟨fun he => absurd he hnoess, fun _ hsat => (h (some v) hsat).2⟩
    · rintro ⟨-, hchild⟩ slot h
      obtain ⟨u, rfl, hnorm⟩ := h.value v hv
      exact ⟨h, satisfies_congr hnorm.symm (hchild hin (satisfies_congr hnorm h))⟩

/-- Under a superior without a value the conditions are needed: each is about a
    claim that the merged policy accepts. -/
theorem keepsChecks_of_merged (hsup : "value" ∉ superior)
    (hmerged : Merged ho superior child policy) (h : OnlyRestricts superior child policy) :
    KeepsChecks superior child := by
  have hops := hmerged.toMergedOperators
  have hvalue := value_of_merged hsup hops
  refine ⟨fun v hv => absurd (Dict.mem_iff_lookup.mpr ⟨v, hv⟩) hsup,
    fun _ w hw hwithin p q hp hq hcommon => ?_, fun _ hchild p q hp hq hsub => ?_,
    fun _ hchild => ?_⟩
  · -- the value that the child sets
    have hpolicy : Satisfies policy (some w) := by
      refine ⟨fun u hu => ⟨w, rfl, ?_⟩, fun _ _ _ => rfl,
        (within_merged rfl hops).mpr (hwithin .oneOf (Or.inl rfl)),
        (within_merged rfl hops).mpr (hwithin .subsetOf (Or.inr rfl)),
        (covers_merged hops).mpr (fun _ x hx => hcommon x (hx.1 p hp) (hx.2 q hq))⟩
      rw [Option.some.inj ((hvalue.trans hw).symm.trans hu)]
    obtain ⟨hsat, hsat'⟩ := h (some w) hpolicy
    rintro x (hx | hx)
    · exact hsat.supersetOf p w hp rfl x hx
    · exact hsat'.supersetOf q w hq rfl x hx
  · -- the list of the values that both `superset_of` ask for
    obtain ⟨r, -, hr⟩ := hops.operator .supersetOf (Or.inl (Dict.mem_iff_lookup.mpr ⟨p, hp⟩))
    have hholds : ∀ {x}, r.Holds x ↔ p.Lists x ∧ q.Lists x :=
      op2func_holds (k := .supersetOf) rfl (op2func_of_merged rfl hops hp hq hr)
    have hnovalue : policy.lookup "value" = none :=
      hvalue.trans (AList.lookup_eq_none.mpr hchild)
    have hnooneOf : policy.lookup "one_of" = none := AList.lookup_eq_none.mpr
      (fun hin => (hmerged.oneOf_alone hin).2 (Dict.mem_iff_lookup.mpr ⟨r, hr⟩))
    have hpolicy : Satisfies policy (some r) := by
      refine ⟨fun u hu => absurd (hnovalue.symm.trans hu) (by simp), fun _ _ _ => rfl,
        fun u hu => absurd (hnooneOf.symm.trans hu) (by simp), fun t ht x hx => ?_,
        (covers_merged hops).mpr (fun _ x hx => hholds.mpr ⟨hx.1 p hp, hx.2 q hq⟩)⟩
      obtain ⟨r', hr', hx⟩ := hx
      obtain rfl := Option.some.inj hr'
      obtain ⟨hxp, hxq⟩ := hholds.mp hx
      exact (merged_lists (k := .subsetOf) rfl hops ht).mpr (hsub x hxp hxq)
    obtain ⟨hsat, hsat'⟩ := h (some r) hpolicy
    exact fun x => ⟨fun hx => (hholds.mp (hsat.supersetOf p r hp rfl x hx)).2,
      fun hx => (hholds.mp (hsat'.supersetOf q r hq rfl x hx)).1⟩
  · -- the claim that is absent
    have hnovalue : "value" ∉ policy := by
      rw [← AList.lookup_eq_none, hvalue]
      exact AList.lookup_eq_none.mpr hchild
    exact essentialKept_of_merged hops
      (fun hess => (h none (satisfies_none hnovalue hess)).2.essential)

/-- Under them a claim that the merged policy accepts holds what one of two
    `superset_of` lists. -/
theorem holds_listed_of_merged (hsup : "value" ∉ superior)
    (hops : MergedOperators ho superior child policy) (hkeeps : KeepsChecks superior child)
    {v p q : Json} (h : Satisfies policy (some v)) (hp : superior.lookup "superset_of" = some p)
    (hq : child.lookup "superset_of" = some q) {x : Json} (hx : p.Lists x ∨ q.Lists x) :
    v.Holds x := by
  have hcommon := (covers_merged hops).mp h.supersetOf
  have hin : "superset_of" ∈ superior ∨ "superset_of" ∈ child :=
    Or.inl (Dict.mem_iff_lookup.mpr ⟨p, hp⟩)
  have hboth : ∀ {x}, ListedByBoth .supersetOf superior child x ↔ p.Lists x ∧ q.Lists x :=
    listedByBoth_iff hp hq
  by_cases hval : "value" ∈ child
  · -- what is accepted equals the child's value
    obtain ⟨w, hw⟩ := Dict.mem_iff_lookup.mp hval
    obtain ⟨v', hv', hnorm⟩ := h.value w ((value_of_merged hsup hops).trans hw)
    obtain rfl := Option.some.inj hv'
    have hsat : Satisfies policy (some w) := satisfies_congr hnorm h
    have hwithin : ∀ k, k = .oneOf ∨ k = .subsetOf →
        Within k superior (some w) ∧ Within k child (some w) := by
      rintro k (rfl | rfl)
      · exact (within_merged rfl hops).mp hsat.oneOf
      · exact (within_merged rfl hops).mp hsat.subsetOf
    refine (Json.holds_congr hnorm).mpr (hkeeps.childValue hsup w hw hwithin p q hp hq
      (fun y hyp hyq => ?_) x hx)
    exact (covers_merged hops).mp hsat.supersetOf hin y (hboth.mpr ⟨hyp, hyq⟩)
  · -- it holds the common values, so `subset_of` does not exclude them
    obtain ⟨hsub, hsub'⟩ := (within_merged rfl hops).mp h.subsetOf
    have hsame := hkeeps.noValue hsup hval p q hp hq (fun x hxp hxq => by
      have hx : SlotHolds (some v) x := ⟨v, rfl, hcommon hin x (hboth.mpr ⟨hxp, hxq⟩)⟩
      exact ⟨fun t ht => hsub t ht x hx, fun t ht => hsub' t ht x hx⟩)
    have hxp : p.Lists x := hx.elim id (hsame x).mpr
    exact hcommon hin x (hboth.mpr ⟨hxp, (hsame x).mp hxp⟩)

/-- So it holds what either side's `superset_of` asks for. -/
theorem covers_sides_of_merged (hsup : "value" ∉ superior)
    (hops : MergedOperators ho superior child policy) (hkeeps : KeepsChecks superior child)
    {v : Json} (h : Satisfies policy (some v)) :
    Covers superior (some v) ∧ Covers child (some v) := by
  have hcommon := (covers_merged hops).mp h.supersetOf
  cases hp : superior.lookup "superset_of" with
  | none =>
      refine ⟨fun p _ hp' => absurd (hp.symm.trans hp') (by simp), fun q v' hq hv' x hx => ?_⟩
      obtain rfl := Option.some.inj hv'
      refine hcommon (Or.inr (Dict.mem_iff_lookup.mpr ⟨q, hq⟩)) x
        ⟨fun p hp' => absurd (hp.symm.trans hp') (by simp), fun q' hq' => ?_⟩
      exact Option.some.inj (hq.symm.trans hq') ▸ hx
  | some p =>
      cases hq : child.lookup "superset_of" with
      | none =>
          refine ⟨fun p' v' hp' hv' x hx => ?_, fun q _ hq' => absurd (hq.symm.trans hq') (by simp)⟩
          obtain rfl := Option.some.inj hv'
          refine hcommon (Or.inl (Dict.mem_iff_lookup.mpr ⟨p, hp⟩)) x
            ⟨fun p'' hp'' => ?_, fun q hq' => absurd (hq.symm.trans hq') (by simp)⟩
          exact Option.some.inj (hp'.symm.trans hp'') ▸ hx
      | some q =>
          constructor
          · intro p' v' hp' hv' x hx
            obtain rfl := Option.some.inj hv'
            obtain rfl : p = p' := Option.some.inj (hp.symm.trans hp')
            exact holds_listed_of_merged hsup hops hkeeps h hp hq (Or.inl hx)
          · intro q' v' hq' hv' x hx
            obtain rfl := Option.some.inj hv'
            obtain rfl : q = q' := Option.some.inj (hq.symm.trans hq')
            exact holds_listed_of_merged hsup hops hkeeps h hp hq (Or.inr hx)

/-- And they are enough. -/
theorem onlyRestricts_of_merged (hsup : "value" ∉ superior)
    (hops : MergedOperators ho superior child policy) (hkeeps : KeepsChecks superior child) :
    OnlyRestricts superior child policy := by
  intro slot h
  obtain ⟨hone, hone'⟩ := (within_merged rfl hops).mp h.oneOf
  obtain ⟨hsub, hsub'⟩ := (within_merged rfl hops).mp h.subsetOf
  have hvalue : MeetsValue child slot :=
    fun v hv => h.value v ((value_of_merged hsup hops).trans hv)
  have hess : MeetsEssential child slot := by
    by_cases hval : "value" ∈ child
    · exact fun _ _ _ => isSome_of_meetsValue hval hvalue
    · exact essential_child_of_merged hops (hkeeps.essential hsup hval) h.essential
  have hcovers : Covers superior slot ∧ Covers child slot := by
    cases slot with
    | none => exact ⟨fun _ _ _ hv => absurd hv (by simp), fun _ _ _ hv => absurd hv (by simp)⟩
    | some v => exact covers_sides_of_merged hsup hops hkeeps h
  exact ⟨⟨fun v hv => absurd (Dict.mem_iff_lookup.mpr ⟨v, hv⟩) hsup,
      essential_superior_of_merged hops h.essential, hone, hsub, hcovers.1⟩,
    ⟨hvalue, hess, hone', hsub', hcovers.2⟩⟩

/-- A combination only restricts exactly when the two policies are like that. -/
theorem onlyRestricts_iff (hcomb : combineClaimPolicy ho superior child = .ok policy) :
    OnlyRestricts superior child policy ↔ KeepsChecks superior child := by
  rcases combineClaimPolicy_eq_ok hcomb with ⟨hsup, hunder⟩ | ⟨hsup, hmerged⟩
  · exact onlyRestricts_underValue hsup hunder
  · exact ⟨keepsChecks_of_merged hsup hmerged,
      onlyRestricts_of_merged hsup hmerged.toMergedOperators⟩

end Fedservice.Entity.Function
