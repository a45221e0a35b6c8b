/-
  Fedservice.EntityStatement.ConstraintLookups

  What `meets_restrictions` can raise on a chain whose subjects and names are
  http(s) URLs.  Comparing them raises nothing (`exists_moreSpecific`).  What is
  left is the lookup of a key in the naming constraints of a statement, which
  the source guards only while nothing is listed yet: `KeysThere` says when it
  finds the key, and `Passed` which statements the walk gets behind.
-/

import Fedservice.EntityStatement.PathLength

namespace Fedservice.EntityStatement

open Fedservice.Lib Fedservice.Py

variable {Key : Type}

/-! ## http(s) URLs are compared -/

/-- A URL with one of the two schemes. -/
def IsHttp (url : EntityId) : Prop :=
  "https://".toList <+: url.toList ∨ "http://".toList <+: url.toList

instance (url : EntityId) : Decidable (IsHttp url) := inferInstanceAs (Decidable (_ ∨ _))

theorem exists_labels {url : EntityId} (h : IsHttp url) : ∃ l, labels url = .ok l := by
  unfold labels removeScheme
  simp only [List.isPrefixOf_iff_prefix]
  by_cases hs : "https://".toList <+: url.toList
  · rw [if_pos hs]
    exact ⟨_, rfl⟩
  · rw [if_neg hs, if_pos (h.resolve_left hs)]
    exact ⟨_, rfl⟩

theorem exists_moreSpecific {a b : EntityId} (ha : IsHttp a) (hb : IsHttp b) :
    ∃ r, moreSpecific a b = .ok r := by
  obtain ⟨x, hx⟩ := exists_labels ha
  obtain ⟨y, hy⟩ := exists_labels hb
  exact ⟨_, moreSpecific_eq_ok.mpr ⟨x, y, hx, hy, rfl⟩⟩

theorem exists_refinements {old : EntityId} {new : List EntityId} (hold : IsHttp old)
    (hnew : ∀ e ∈ new, IsHttp e) : ∃ l, refinements old new = .ok l := by
  induction new with
  | nil => exact ⟨[], rfl⟩
  | cons n rest ih =>
      rw [List.forall_mem_cons] at hnew
      obtain ⟨r, hr⟩ := exists_moreSpecific hnew.1 hold
      obtain ⟨more, hmore⟩ := ih hnew.2
      rw [refinements, hr, hmore]
      exact ⟨_, rfl⟩

theorem exists_updateSpecs {new old : List EntityId} (hnew : ∀ e ∈ new, IsHttp e)
    (hold : ∀ e ∈ old, IsHttp e) : ∃ l, updateSpecs new old = .ok l := by
  induction old with
  | nil => exact ⟨[], rfl⟩
  | cons o rest ih =>
      rw [List.forall_mem_cons] at hold
      obtain ⟨replaced, hr⟩ := exists_refinements hold.1 hnew
      obtain ⟨updated, hu⟩ := ih hold.2
      rw [updateSpecs, hr, hu]
      exact ⟨_, rfl⟩

theorem exists_matchesSome {sub : EntityId} {l : List EntityId} (hsub : IsHttp sub)
    (hl : ∀ e ∈ l, IsHttp e) : ∃ b, matchesSome sub l = .ok b := by
  induction l with
  | nil => exact ⟨false, rfl⟩
  | cons x rest ih =>
      rw [List.forall_mem_cons] at hl
      obtain ⟨r, hr⟩ := exists_moreSpecific hsub hl.1
      rw [matchesSome, hr]
      cases r with
      | true => exact ⟨true, rfl⟩
      | false => exact ih hl.2

theorem matchesSome_eq_true_iff {sub : EntityId} {l : List EntityId} (hsub : IsHttp sub)
    (hl : ∀ e ∈ l, IsHttp e) : matchesSome sub l = .ok true ↔ ∃ e ∈ l, Matches sub e := by
  constructor
  · exact matchesSome_eq_true
  · rintro ⟨e, he, hm⟩
    obtain ⟨b, hb⟩ := exists_matchesSome hsub hl
    cases b with
    | true => exact hb
    | false =>
        have hfalse := matchesSome_eq_false hb e he
        rw [Matches, hfalse] at hm
        simp at hm

theorem matchesSome_eq_false_iff {sub : EntityId} {l : List EntityId} (hsub : IsHttp sub)
    (hl : ∀ e ∈ l, IsHttp e) : matchesSome sub l = .ok false ↔ ∀ e ∈ l, ¬ Matches sub e := by
  have htrue := matchesSome_eq_true_iff hsub hl
  obtain ⟨b, hb⟩ := exists_matchesSome hsub hl
  rw [hb] at htrue ⊢
  cases b with
  | true =>
      obtain ⟨e, he, hm⟩ := htrue.mp rfl
      exact ⟨fun h => absurd h (by simp), fun h => absurd hm (h e he)⟩
  | false =>
      refine ⟨fun _ e he hm => ?_, fun _ => rfl⟩
      exact absurd (htrue.mpr ⟨e, he, hm⟩) (by simp)

/-! ## Statements with http(s) names -/

/-- The subject of a statement and all the names it lists are http(s) URLs. -/
structure NamesAreHttp (s : Statement Key) : Prop where
  sub : IsHttp s.sub
  permitted : ∀ e ∈ permittedOf s, IsHttp e
  excluded : ∀ e ∈ excludedOf s, IsHttp e

/-- What is in force has been listed. -/
theorem InForce.exists_listed {names : Statement Key → List EntityId}
    {above : List (Statement Key)} {e : EntityId} (h : InForce names above e) :
    ∃ t ∈ above, e ∈ names t := by
  induction h with
  | topmost habove he => exact ⟨_, by simp, he⟩
  | refined h he hm ih => exact ⟨_, by simp, he⟩
  | kept h hn ih =>
      obtain ⟨t, ht, he⟩ := ih
      exact ⟨t, List.mem_append_left _ ht, he⟩

/-- The running lists hold http(s) URLs. -/
structure HttpNames (naming : NamingState) : Prop where
  permitted : ∀ e ∈ naming.permitted, IsHttp e
  excluded : ∀ e ∈ naming.excluded, IsHttp e

theorem TracksNames.httpNames {above : List (Statement Key)} {naming : NamingState}
    (h : TracksNames above naming) (hhttp : ∀ t ∈ above, NamesAreHttp t) : HttpNames naming := by
  constructor
  · intro e he
    obtain ⟨t, ht, hlisted⟩ := ((h.permitted.mem_iff e).mp he).exists_listed
    exact (hhttp t ht).permitted e hlisted
  · intro e he
    obtain ⟨t, ht, hlisted⟩ := ((h.excluded.mem_iff e).mp he).exists_listed
    exact (hhttp t ht).excluded e hlisted

theorem exists_checkNames {naming : NamingState} {sub : EntityId} (hn : HttpNames naming)
    (hsub : IsHttp sub) : ∃ b, checkNames naming sub = .ok b := by
  obtain ⟨x, hx⟩ := exists_matchesSome hsub hn.excluded
  obtain ⟨p, hp⟩ := exists_matchesSome hsub hn.permitted
  unfold checkNames excluded permitted
  rw [hx, hp]
  cases naming.excluded.isEmpty <;> cases x <;> cases naming.permitted.isEmpty <;> cases p <;>
    exact ⟨_, rfl⟩

/-! ## Keys that are looked up -/

/-- Where nothing is listed yet the key is asked for first, and else it has to
    be there. -/
theorem exists_addConstraint_iff {key : String} {new : Option (List EntityId)}
    {running : List EntityId} (hnew : ∀ e ∈ new.getD [], IsHttp e)
    (hrun : ∀ e ∈ running, IsHttp e) :
    (∃ r, addConstraint key new running = .ok r) ↔ (new = none → running = []) := by
  unfold addConstraint
  cases running with
  | nil => cases new <;> simp
  | cons x xs =>
      rw [if_neg (by simp)]
      cases new with
      | none => simp
      | some names =>
          have hupd := exists_updateSpecs hnew hrun
          by_cases he : names.isEmpty = true
          · simp [he]
          · simpa [he] using hupd

theorem exists_updateNamingConstraints_iff {c : Constraints} {naming : NamingState}
    {s : Statement Key} (hc : s.constraints = some c) (hs : NamesAreHttp s)
    (hn : HttpNames naming) :
    (∃ r, updateNamingConstraints c naming = .ok r) ↔
      ∀ new, namingOf s = some new →
        (new.permitted = none → naming.permitted = []) ∧
          (new.excluded = none → naming.excluded = []) := by
  unfold updateNamingConstraints
  cases hnew : c.namingConstraints with
  | none => simp [namingOf, hc, hnew]
  | some new =>
      have hnames : namingOf s = some new := by simp [namingOf, hc, hnew]
      have hperm := @exists_addConstraint_iff "permitted" new.permitted naming.permitted
        (by simpa [permittedOf, hnames] using hs.permitted) hn.permitted
      have hexcl := @exists_addConstraint_iff "excluded" new.excluded naming.excluded
        (by simpa [excludedOf, hnames] using hs.excluded) hn.excluded
      simp only [hnames, Option.some.injEq, forall_eq', ← hperm, ← hexcl, addConstraints,
        except_bind_eq_ok, except_pure_eq_ok]
      constructor
      · rintro ⟨r, p, hp, x, hx, -⟩
        exact ⟨⟨p, hp⟩, ⟨x, hx⟩⟩
      · rintro ⟨⟨p, hp⟩, ⟨x, hx⟩⟩
        exact ⟨_, p, hp, x, hx, rfl⟩

/-- The naming constraints of a statement, if it has any, have each of the two
    lists that a statement above it has names in. -/
def KeysThere (above : List (Statement Key)) (s : Statement Key) : Prop :=
  ∀ new, namingOf s = some new →
    (new.permitted = none → ∀ t ∈ above, permittedOf t = []) ∧
      (new.excluded = none → ∀ t ∈ above, excludedOf t = [])

theorem exists_update_iff_keysThere {above : List (Statement Key)} {s : Statement Key}
    {c : Constraints} {naming : NamingState} (ht : TracksNames above naming)
    (hhttp : ∀ t ∈ above, NamesAreHttp t) (hc : s.constraints = some c) (hs : NamesAreHttp s) :
    (∃ r, updateNamingConstraints c naming = .ok r) ↔ KeysThere above s := by
  rw [exists_updateNamingConstraints_iff hc hs (ht.httpNames hhttp), ht.permitted.nil_iff,
    ht.excluded.nil_iff]
  exact Iff.rfl

/-! ## How far the walk gets -/

/-- The subject of a statement is matched by no exclusion in force there, and by
    a permitted name, if any statement down to it lists one. -/
def NamesPass (above : List (Statement Key)) (s : Statement Key) : Prop :=
  (∀ e, InForce excludedOf (above ++ [s]) e → ¬ Matches s.sub e) ∧
    ((∀ t ∈ above ++ [s], permittedOf t = []) ∨
      ∃ e, InForce permittedOf (above ++ [s]) e ∧ Matches s.sub e)

/-- The walk goes on below a statement: it has no constraints, or no negative
    limit and a subject whose names pass. -/
def PassedBy (above : List (Statement Key)) (s : Statement Key) : Prop :=
  s.constraints.isSome → 0 ≤ (pathLimit s).getD 0 ∧ NamesPass above s

/-- The walk gets behind all these statements, if it can look up what it wants. -/
inductive Passed : List (Statement Key) → Prop
  | nil : Passed []
  | next {above : List (Statement Key)} {s : Statement Key} (habove : Passed above)
      (hs : PassedBy above s) : Passed (above ++ [s])

theorem passed_snoc {above : List (Statement Key)} {s : Statement Key} :
    Passed (above ++ [s]) ↔ Passed above ∧ PassedBy above s := by
  constructor
  · intro h
    generalize hl : above ++ [s] = l at h
    cases h with
    | nil => simp at hl
    | next habove hs =>
        obtain ⟨rfl, rfl⟩ := List.append_singleton_inj.mp hl
        exact ⟨habove, hs⟩
  · rintro ⟨habove, hs⟩
    exact .next habove hs

theorem Passed.of_append {above rest : List (Statement Key)} (h : Passed (above ++ rest)) :
    Passed above := by
  induction rest using List.reverseRecOn with
  | nil => simpa using h
  | append_singleton rest s ih =>
      rw [← List.append_assoc] at h
      exact ih (passed_snoc.mp h).1

theorem checkNames_eq_true_iff {above : List (Statement Key)} {s : Statement Key}
    {naming : NamingState} (ht : TracksNames (above ++ [s]) naming)
    (hhttp : ∀ t ∈ above ++ [s], NamesAreHttp t) :
    checkNames naming s.sub = .ok true ↔ NamesPass above s := by
  have hn := ht.httpNames hhttp
  have hsub := (hhttp s (by simp)).sub
  rw [checkNames_eq_true, NamesPass, excluded, permitted, matchesSome_eq_false_iff hsub hn.excluded,
    matchesSome_eq_true_iff hsub hn.permitted, ht.permitted.nil_iff]
  simp only [ht.excluded.mem_iff, ht.permitted.mem_iff]

/-! ## The loop -/

section Step

variable {above : List (Statement Key)} {s : Statement Key} {st : RestrictionState}
  (ht : TracksNames above st.naming) (hst : st.maxAssigned = false)
  (hhttp : ∀ t ∈ above ++ [s], NamesAreHttp t)

include ht hst hhttp

/-- Step: the body of the loop raises nothing where it returns for the limit, or
    finds the keys it looks up. -/
theorem exists_restrictionStep_iff :
    (∃ r, restrictionStep st s = .ok r) ↔ (0 ≤ (pathLimit s).getD 0 → KeysThere above s) := by
  unfold restrictionStep
  cases hc : s.constraints with
  | none => simp [KeysThere, namingOf, hc]
  | some c =>
      have hs := hhttp s (by simp)
      have habove : ∀ t ∈ above, NamesAreHttp t := fun t h => hhttp t (List.mem_append_left _ h)
      have hkeys := exists_update_iff_keysThere ht habove hc hs
      simp only [pathLimit, hc, Option.bind_some, hst, calculatePathLength_unassigned]
      by_cases hneg : c.maxPathLength.getD 0 < 0
      · simp [hneg, Int.not_le.mpr hneg]
      · rw [if_neg hneg]
        simp only [Int.not_lt.mp hneg, true_imp_iff, ← hkeys]
        constructor
        · rintro ⟨r, hr⟩
          obtain ⟨naming, hn, -⟩ := except_bind_eq_ok.mp hr
          exact ⟨naming, hn⟩
        · rintro ⟨naming, hn⟩
          have hnext := (tracksNames_update ht hc hn).httpNames hhttp
          obtain ⟨b, hb⟩ := exists_checkNames hnext hs.sub
          simp only [hn, hb, except_ok_bind]
          cases b <;> exact ⟨_, rfl⟩

/-- Step: it goes on where it finds the keys and the statement is passed. -/
theorem exists_restrictionStep_some_iff :
    (∃ st', restrictionStep st s = .ok (some st')) ↔ KeysThere above s ∧ PassedBy above s := by
  simp only [restrictionStep_unassigned hst]
  cases hc : s.constraints with
  | none => simp [KeysThere, PassedBy, namingOf, hc]
  | some c =>
      have hs := hhttp s (by simp)
      have habove : ∀ t ∈ above, NamesAreHttp t := fun t h => hhttp t (List.mem_append_left _ h)
      rw [← exists_update_iff_keysThere ht habove hc hs]
      simp only [PassedBy, hc, Option.isSome_some, true_imp_iff, pathLimit, Option.bind_some]
      constructor
      · rintro ⟨st', ⟨hnone, -⟩ | ⟨c', naming, hc', hlimit, hn, hk, -⟩⟩
        · simp at hnone
        · obtain rfl := Option.some.inj hc'
          exact ⟨⟨naming, hn⟩, hlimit,
            (checkNames_eq_true_iff (tracksNames_update ht hc hn) hhttp).mp hk⟩
      · rintro ⟨⟨naming, hn⟩, hlimit, hnames⟩
        have hk := (checkNames_eq_true_iff (tracksNames_update ht hc hn) hhttp).mpr hnames
        exact ⟨_, Or.inr ⟨c, naming, rfl, hlimit, hn, hk, rfl⟩⟩

end Step

theorem restrictionStep_maxAssigned {st st' : RestrictionState} {s : Statement Key}
    (hst : st.maxAssigned = false) (h : restrictionStep st s = .ok (some st')) :
    st'.maxAssigned = false := by
  rcases (restrictionStep_unassigned hst).mp h with ⟨-, rfl⟩ | ⟨c, naming, -, -, -, -, rfl⟩
  · exact hst
  · rfl

/-- Run: the loop raises nothing where the step does not, and the loop over the rest does not
    if the step goes on. -/
theorem exists_restrictionLoop_cons {st : RestrictionState} {s : Statement Key}
    {rest : List (Statement Key)} :
    (∃ r, restrictionLoop st (s :: rest) = .ok r) ↔
      (∃ r, restrictionStep st s = .ok r) ∧
        ∀ st', restrictionStep st s = .ok (some st') → ∃ r, restrictionLoop st' rest = .ok r := by
  rw [restrictionLoop]
  constructor
  · rintro ⟨r, hr⟩
    obtain ⟨mid, hmid, hr⟩ := except_bind_eq_ok.mp hr
    refine ⟨⟨mid, hmid⟩, fun st' hst' => ?_⟩
    obtain rfl : mid = some st' := Except.ok.inj (hmid.symm.trans hst')
    exact ⟨r, hr⟩
  · rintro ⟨⟨mid, hmid⟩, hrest⟩
    rw [hmid, except_ok_bind]
    cases mid with
    | none => exact ⟨none, rfl⟩
    | some st' => exact hrest st' hmid

/-- The places of a list are its head and those of its tail. -/
theorem forall_split_cons {α : Type} {a : α} {l : List α} {P : List α → α → Prop} :
    (∀ done b below, a :: l = done ++ b :: below → P done b) ↔
      P [] a ∧ ∀ done b below, l = done ++ b :: below → P (a :: done) b := by
  constructor
  · intro h
    refine ⟨h [] a l rfl, fun done b below hl => ?_⟩
    exact h (a :: done) b below (by rw [hl, List.cons_append])
  · rintro ⟨hhead, htail⟩ done b below hsplit
    cases done with
    | nil =>
        obtain ⟨rfl, -⟩ := List.cons.inj hsplit
        exact hhead
    | cons d done =>
        obtain ⟨rfl, hl⟩ := List.cons.inj hsplit
        exact htail done b below hl

/-- Run: the loop over `rest` raises nothing where at each statement it gets to
    it finds the keys it looks up. -/
theorem exists_restrictionLoop_iff {above rest : List (Statement Key)} {st : RestrictionState}
    (ht : TracksNames above st.naming) (hst : st.maxAssigned = false) (hpassed : Passed above)
    (hhttp : ∀ t ∈ above ++ rest, NamesAreHttp t) :
    (∃ r, restrictionLoop st rest = .ok r) ↔
      ∀ done s below, rest = done ++ s :: below → Passed (above ++ done) →
        0 ≤ (pathLimit s).getD 0 → KeysThere (above ++ done) s := by
  -- each statement moves from `rest` to `above` once the loop is past it
  induction rest generalizing above st with
  | nil => simp [restrictionLoop]
  | cons s rest ih =>
      have hown : ∀ t ∈ above ++ [s], NamesAreHttp t := by
        intro t h
        refine hhttp t ?_
        rw [List.append_cons]
        exact List.mem_append_left _ h
      have hon := exists_restrictionStep_some_iff ht hst hown
      rw [exists_restrictionLoop_cons, exists_restrictionStep_iff ht hst hown, forall_split_cons,
        List.append_nil, forall_prop_of_true hpassed]
      refine and_congr_right (fun hkeys => ?_)
      constructor
      · intro hrest done t below hsplit hpass hlimit
        have hby : PassedBy above s := by
          rw [List.append_cons] at hpass
          exact (passed_snoc.mp hpass.of_append).2
        -- it has gone on from `s`, where the keys are there
        have hthere : KeysThere above s := by
          cases hc : s.constraints with
          | none => simp [KeysThere, namingOf, hc]
          | some c => exact hkeys (hby (by simp [hc])).1
        obtain ⟨st', hst'⟩ := hon.mpr ⟨hthere, hby⟩
        have hloop := (ih (restrictionStep_tracks ht hst').1 (restrictionStep_maxAssigned hst hst')
          (passed_snoc.mpr ⟨hpassed, hby⟩) (by simpa using hhttp)).mp (hrest st' hst')
        rw [List.append_cons] at hpass ⊢
        exact hloop done t below hsplit hpass hlimit
      · intro h st' hst'
        have hpass := passed_snoc.mpr ⟨hpassed, (hon.mp ⟨st', hst'⟩).2⟩
        refine (ih (restrictionStep_tracks ht hst').1 (restrictionStep_maxAssigned hst hst') hpass
          (by simpa using hhttp)).mpr (fun done t below hsplit => ?_)
        rw [← List.append_cons]
        exact h done t below hsplit

/-! ## meets_restrictions -/

/-- `meets_restrictions` returns for a chain of well-formed statements exactly
    where at each one the walk gets to, the keys it looks up are there. -/
theorem meetsRestrictions_returns_iff {chain : List (Statement Key)} (hne : chain ≠ [])
    (hhttp : ∀ s ∈ chain, NamesAreHttp s) :
    (∃ b, meetsRestrictions chain = .ok b) ↔
      ∀ above s below, chain = above ++ s :: below → below ≠ [] → Passed above →
        0 ≤ (pathLimit s).getD 0 → KeysThere above s := by
  obtain ⟨init, leaf, rfl⟩ := (List.eq_nil_or_concat chain).resolve_left hne
  rw [List.concat_eq_append] at hhttp ⊢
  have hinit : ∀ t ∈ [] ++ init, NamesAreHttp t := by
    intro t h
    exact hhttp t (List.mem_append_left _ (by simpa using h))
  have hleaf := (hhttp leaf (by simp)).sub
  have hloop := @exists_restrictionLoop_iff Key [] init {} tracksNames_nil rfl .nil hinit
  have hreturns : (∃ b, meetsRestrictions (init ++ [leaf]) = .ok b) ↔
      ∃ r, restrictionLoop {} init = .ok r := by
    unfold meetsRestrictions
    rw [List.dropLast_concat, List.getLast?_concat]
    constructor
    · rintro ⟨b, hb⟩
      obtain ⟨r, hr, -⟩ := except_bind_eq_ok.mp hb
      exact ⟨r, hr⟩
    · rintro ⟨r, hr⟩
      rw [hr, except_ok_bind]
      cases r with
      | none => exact ⟨false, rfl⟩
      | some st =>
          have htrack := (restrictionLoop_tracks tracksNames_nil hr).1
          exact exists_checkNames (htrack.httpNames hinit) hleaf
  rw [hreturns, hloop]
  constructor
  · intro h above s below hsplit hbelow
    obtain ⟨mid, last, rfl⟩ := (List.eq_nil_or_concat below).resolve_left hbelow
    refine h above s mid (List.append_inj_left' (?_ : init ++ [leaf] = _ ++ [last]) rfl)
    simpa using hsplit
  · intro h done s below hsplit
    refine h done s (below ++ [leaf]) ?_ (by simp)
    rw [hsplit, List.append_assoc, List.cons_append]

theorem meetsRestrictions_returns_iff_narrowedExclusion :
    (∃ b, meetsRestrictions narrowedExclusion = .ok b) ↔
      ∀ above s below, narrowedExclusion = above ++ s :: below → below ≠ [] → Passed above →
        0 ≤ (pathLimit s).getD 0 → KeysThere above s :=
  meetsRestrictions_returns_iff (by decide) (by
    intro s hs
    simp only [narrowedExclusion, List.mem_cons, List.not_mem_nil, or_false] at hs
    rcases hs with rfl | rfl | rfl <;> exact ⟨by decide, by decide, by decide⟩)

/-- A chain in which an intermediate excludes a name, and says nothing of the
    names that the trust anchor permits. -/
def permittedMissing : List (Statement Nat) :=
  [constrain "https://ta.org" "https://im.example.com"
     { permitted := some ["https://.example.com"] },
   constrain "https://im.example.com" "https://rp.example.com"
     { excluded := some ["https://op.example.com"] },
   selfIssued "https://rp.example.com"]

/-- Its constraints are well-formed, and the walk ends in a `KeyError`. -/
theorem permittedMissing_raises :
    meetsRestrictions permittedMissing = .error (.keyError "permitted") ∧
    ¬ ∀ chain : List (Statement Nat), chain ≠ [] → (∀ s ∈ chain, NamesAreHttp s) →
      ∃ b, meetsRestrictions chain = .ok b := by
  have hraises : meetsRestrictions permittedMissing = .error (.keyError "permitted") := rfl
  refine ⟨hraises, fun h => ?_⟩
  have hhttp : ∀ s ∈ permittedMissing, NamesAreHttp s := by
    intro s hs
    simp only [permittedMissing, List.mem_cons, List.not_mem_nil, or_false] at hs
    rcases hs with rfl | rfl | rfl <;> exact ⟨by decide, by decide, by decide⟩
  obtain ⟨b, hb⟩ := h permittedMissing (by decide) hhttp
  rw [hraises] at hb
  simp at hb

end Fedservice.EntityStatement
