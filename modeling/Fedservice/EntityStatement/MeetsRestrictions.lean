/-
  Fedservice.EntityStatement.MeetsRestrictions

  What a chain that `meets_restrictions` accepts is known to satisfy.  One
  statement is inverted once (`restrictionStep_eq_some`); the loop then carries
  the names in force from statement to statement (`restrictionLoop_tracks`), and
  `names_checked` reads off what each subject was checked against.
-/

import Fedservice.EntityStatement.NamesInForce

namespace Fedservice.EntityStatement

open Fedservice.Lib Fedservice.Py

variable {Key : Type}

/-! ## One statement -/

/-- All that the body of the loop can do when it goes on. -/
theorem restrictionStep_eq_some {st st' : RestrictionState} {s : Statement Key} :
    restrictionStep st s = .ok (some st') ↔
      (s.constraints = none ∧ st' = st) ∨
        ∃ c naming, s.constraints = some c ∧
          0 ≤ calculatePathLength c st.currentMaxPathLength st.maxAssigned ∧
          updateNamingConstraints c st.naming = .ok naming ∧ checkNames naming s.sub = .ok true ∧
          st' = { st with
            currentMaxPathLength := calculatePathLength c st.currentMaxPathLength st.maxAssigned
            naming := naming } := by
  unfold restrictionStep
  constructor
  · intro h
    cases hc : s.constraints with
    | none =>
        simp only [hc, Except.ok.injEq, Option.some.injEq] at h
        exact Or.inl ⟨rfl, h.symm⟩
    | some c =>
        simp only [hc] at h
        by_cases hneg : calculatePathLength c st.currentMaxPathLength st.maxAssigned < 0
        · simp [hneg] at h
        · rw [if_neg hneg] at h
          obtain ⟨naming, hn, h⟩ := except_bind_eq_ok.mp h
          obtain ⟨b, hk, h⟩ := except_bind_eq_ok.mp h
          cases b with
          | false => simp at h
          | true =>
              simp only [if_true, except_pure_eq_ok, Option.some.injEq] at h
              exact Or.inr ⟨c, naming, rfl, Int.not_lt.mp hneg, hn, hk, h.symm⟩
  · rintro (⟨hc, rfl⟩ | ⟨c, naming, hc, hpos, hn, hk, rfl⟩)
    · rw [hc]
    · simp only [hc, if_neg (Int.not_lt.mpr hpos)]
      exact except_bind_eq_ok.mpr ⟨naming, hn, except_bind_eq_ok.mpr ⟨true, hk, rfl⟩⟩

/-- The checks of a subject that is accepted. -/
theorem checkNames_eq_true {naming : NamingState} {sub : EntityId} :
    checkNames naming sub = .ok true ↔
      excluded sub naming.excluded = .ok false ∧
        (naming.permitted = [] ∨ permitted sub naming.permitted = .ok true) := by
  unfold checkNames
  -- an empty list is not looked at, which for exclusions comes to the same
  cases hx : naming.excluded with
  | nil =>
      cases hp : naming.permitted with
      | nil => simp [excluded, permitted, matchesSome, bind, Except.bind, pure, Except.pure]
      | cons p ps =>
          cases permitted sub (p :: ps) with
          | error e => simp [excluded, matchesSome, bind, Except.bind]
          | ok b => cases b <;>
              simp [excluded, matchesSome, bind, Except.bind, pure, Except.pure]
  | cons x xs =>
      cases excluded sub (x :: xs) with
      | error e => simp [bind, Except.bind]
      | ok b =>
          cases b with
          | true => simp [bind, Except.bind, pure, Except.pure]
          | false =>
              cases hp : naming.permitted with
              | nil => simp [permitted, matchesSome, bind, Except.bind, pure, Except.pure]
              | cons p ps =>
                  cases permitted sub (p :: ps) with
                  | error e => simp [bind, Except.bind]
                  | ok b => cases b <;> simp [bind, Except.bind, pure, Except.pure]

/-- A subject that matches no entry: each entry was compared. -/
theorem matchesSome_eq_false {sub : EntityId} {l : List EntityId}
    (h : matchesSome sub l = .ok false) : ∀ e ∈ l, moreSpecific sub e = .ok false := by
  induction l with
  | nil => exact fun e he => absurd he List.not_mem_nil
  | cons x xs ih =>
      rw [matchesSome] at h
      obtain ⟨b, hx, h⟩ := except_bind_eq_ok.mp h
      cases b with
      | true => simp at h
      | false =>
          rw [if_neg Bool.false_ne_true] at h
          intro e he
          rcases List.mem_cons.mp he with rfl | he
          · exact hx
          · exact ih h e he

theorem matchesSome_eq_true {sub : EntityId} {l : List EntityId}
    (h : matchesSome sub l = .ok true) : ∃ e ∈ l, Matches sub e := by
  induction l with
  | nil => simp [matchesSome] at h
  | cons x xs ih =>
      rw [matchesSome] at h
      obtain ⟨b, hx, h⟩ := except_bind_eq_ok.mp h
      cases b with
      | true => exact ⟨x, List.mem_cons_self .., hx⟩
      | false =>
          rw [if_neg Bool.false_ne_true] at h
          obtain ⟨e, he, hm⟩ := ih h
          exact ⟨e, List.mem_cons_of_mem _ he, hm⟩

/-! ## The names in force, along the loop -/

/-- Both running lists are the names in force after `above`. -/
structure TracksNames (above : List (Statement Key)) (naming : NamingState) : Prop where
  permitted : Tracks permittedOf above naming.permitted
  excluded : Tracks excludedOf above naming.excluded

theorem tracksNames_nil : TracksNames ([] : List (Statement Key)) {} :=
  ⟨tracks_nil, tracks_nil⟩

theorem TracksNames.skip {above : List (Statement Key)} {naming : NamingState}
    (h : TracksNames above naming) {s : Statement Key} (hs : namingOf s = none) :
    TracksNames (above ++ [s]) naming :=
  ⟨h.permitted.skip (by simp [permittedOf, hs]), h.excluded.skip (by simp [excludedOf, hs])⟩

/-- `update_naming_constraints` keeps track of the names in force. -/
theorem tracksNames_update {above : List (Statement Key)} {naming naming' : NamingState}
    {s : Statement Key} {c : Constraints} (h : TracksNames above naming)
    (hc : s.constraints = some c) (hupd : updateNamingConstraints c naming = .ok naming') :
    TracksNames (above ++ [s]) naming' := by
  unfold updateNamingConstraints at hupd
  cases hn : c.namingConstraints with
  | none =>
      rw [hn] at hupd
      obtain rfl := Except.ok.inj hupd
      exact h.skip (by simp [namingOf, hc, hn])
  | some new =>
      have hnames : namingOf s = some new := by simp [namingOf, hc, hn]
      simp only [hn, addConstraints] at hupd
      obtain ⟨p, hp, hupd⟩ := except_bind_eq_ok.mp hupd
      obtain ⟨x, hx, hupd⟩ := except_bind_eq_ok.mp hupd
      obtain rfl := except_pure_eq_ok.mp hupd
      exact ⟨tracks_addConstraint h.permitted (by simp [permittedOf, hnames]) hp,
        tracks_addConstraint h.excluded (by simp [excludedOf, hnames]) hx⟩

/-- Step: going on past a statement keeps track, and a statement with
    constraints had its subject checked with its own lists in. -/
theorem restrictionStep_tracks {above : List (Statement Key)} {st st' : RestrictionState}
    {s : Statement Key} (ht : TracksNames above st.naming)
    (h : restrictionStep st s = .ok (some st')) :
    TracksNames (above ++ [s]) st'.naming ∧
      (s.constraints.isSome → checkNames st'.naming s.sub = .ok true) := by
  rcases restrictionStep_eq_some.mp h with ⟨hc, rfl⟩ | ⟨c, naming, hc, -, hupd, hk, rfl⟩
  · exact ⟨ht.skip (by simp [namingOf, hc]), by simp [hc]⟩
  · exact ⟨tracksNames_update ht hc hupd, fun _ => hk⟩

theorem restrictionLoop_cons {st st' : RestrictionState} {s : Statement Key}
    {rest : List (Statement Key)} :
    restrictionLoop st (s :: rest) = .ok (some st') ↔
      ∃ mid, restrictionStep st s = .ok (some mid) ∧
        restrictionLoop mid rest = .ok (some st') := by
  rw [restrictionLoop, except_bind_eq_ok]
  constructor
  · rintro ⟨r, hs, h⟩
    cases r with
    | none => simp at h
    | some mid => exact ⟨mid, hs, h⟩
  · rintro ⟨mid, hs, h⟩
    exact ⟨some mid, hs, h⟩

/-- Run: the loop over `rest`, entered with the names in force after `above`. -/
theorem restrictionLoop_tracks {above rest : List (Statement Key)} {st st' : RestrictionState}
    (ht : TracksNames above st.naming) (h : restrictionLoop st rest = .ok (some st')) :
    TracksNames (above ++ rest) st'.naming ∧
      ∀ done t below, rest = done ++ t :: below → t.constraints.isSome →
        ∃ naming, TracksNames (above ++ done ++ [t]) naming ∧
          checkNames naming t.sub = .ok true := by
  -- each statement moves from `rest` to `above` once the loop is past it
  induction rest generalizing above st with
  | nil =>
      obtain rfl := Option.some.inj (Except.ok.inj h)
      exact ⟨by simpa using ht, fun done t below hsplit => by simp at hsplit⟩
  | cons s rest ih =>
      obtain ⟨mid, hstep, hloop⟩ := restrictionLoop_cons.mp h
      obtain ⟨htrack, hchecked⟩ := restrictionStep_tracks ht hstep
      obtain ⟨hlast, hall⟩ := ih htrack hloop
      refine ⟨by simpa using hlast, fun done t below hsplit hsome => ?_⟩
      cases done with
      | nil =>
          -- the statement the body has just been run for
          obtain ⟨rfl, -⟩ := List.cons.inj hsplit
          exact ⟨mid.naming, by simpa using htrack, hchecked hsome⟩
      | cons d done =>
          obtain ⟨rfl, hrest⟩ := List.cons.inj hsplit
          obtain ⟨naming, hn, hk⟩ := hall done t below hrest hsome
          exact ⟨naming, by simpa using hn, hk⟩

/-! ## The accepted chains, name by name -/

/-- The statements whose lists of names apply to the subject of `t`: those
    before it, and `t` itself unless it is the leaf's. -/
def listsFor (upto : List (Statement Key)) (t : Statement Key) :
    List (Statement Key) → List (Statement Key)
  | [] => upto
  | _ :: _ => upto ++ [t]

theorem meetsRestrictions_eq_true {chain : List (Statement Key)} :
    meetsRestrictions chain = .ok true ↔
      ∃ init leaf st, chain = init ++ [leaf] ∧ restrictionLoop {} init = .ok (some st) ∧
        checkNames st.naming leaf.sub = .ok true := by
  unfold meetsRestrictions
  rw [except_bind_eq_ok]
  constructor
  · rintro ⟨r, hl, hk⟩
    cases r with
    | none => simp at hk
    | some st =>
        cases hlast : chain.getLast? with
        | none => simp [hlast] at hk
        | some leaf =>
            simp only [hlast] at hk
            obtain ⟨init, rfl⟩ := List.getLast?_eq_some_iff.mp hlast
            exact ⟨init, leaf, st, rfl, by simpa using hl, hk⟩
  · rintro ⟨init, leaf, st, rfl, hl, hk⟩
    exact ⟨some st, by simpa using hl, by simpa using hk⟩

/-- In an accepted chain the subject of the leaf, and of every statement with
    constraints, passed the checks against the names in force there. -/
theorem names_checked {upto rest : List (Statement Key)} {t : Statement Key}
    (h : meetsRestrictions (upto ++ t :: rest) = .ok true)
    (ht : rest = [] ∨ t.constraints.isSome) :
    (∀ e, InForce excludedOf (listsFor upto t rest) e → moreSpecific t.sub e = .ok false) ∧
      ((∀ s ∈ listsFor upto t rest, permittedOf s = []) ∨
        ∃ e, InForce permittedOf (listsFor upto t rest) e ∧ Matches t.sub e) := by
  obtain ⟨init, leaf, st, hsplit, hloop, hleaf⟩ := meetsRestrictions_eq_true.mp h
  obtain ⟨hlast, hall⟩ := restrictionLoop_tracks tracksNames_nil hloop
  obtain ⟨naming, htrack, hk⟩ :
      ∃ naming, TracksNames (listsFor upto t rest) naming ∧ checkNames naming t.sub = .ok true := by
    rcases List.eq_nil_or_concat rest with rfl | ⟨mid, last, rfl⟩
    · -- `t` is the leaf, checked after the loop
      obtain ⟨rfl, hlt⟩ := List.append_inj' hsplit rfl
      obtain rfl := List.singleton_inj.mp hlt
      exact ⟨st.naming, by simpa [listsFor] using hlast, hleaf⟩
    · -- `t` is one of those the loop goes through
      have hsplit' : (upto ++ t :: mid) ++ [last] = init ++ [leaf] := by
        simpa using hsplit
      obtain ⟨rfl, -⟩ := List.append_inj' hsplit' rfl
      obtain ⟨naming, hn, hk⟩ := hall upto t mid rfl (ht.resolve_left (by simp))
      refine ⟨naming, ?_, hk⟩
      cases mid <;> simpa [listsFor] using hn
  obtain ⟨hexcl, hperm⟩ := checkNames_eq_true.mp hk
  constructor
  · exact fun e he => matchesSome_eq_false hexcl e ((htrack.excluded.mem_iff e).mpr he)
  · rcases hperm with hnil | hsome
    · exact Or.inl (htrack.permitted.nil_iff.mp hnil)
    · obtain ⟨e, he, hm⟩ := matchesSome_eq_true hsome
      exact Or.inr ⟨e, (htrack.permitted.mem_iff e).mp he, hm⟩

/-! ## Exclusions -/

/-- An exclusion in force after a statement holds for every subject below whose
    names are checked, unless a list in between refines it. -/
theorem excluded_in_force_holds {upto rest above between : List (Statement Key)}
    {s t : Statement Key} {e : EntityId}
    (h : meetsRestrictions (upto ++ t :: rest) = .ok true)
    (ht : rest = [] ∨ t.constraints.isSome)
    (hlists : listsFor upto t rest = above ++ s :: between)
    (he : InForce excludedOf (above ++ [s]) e)
    (hkept : ∀ u ∈ between, ∀ n ∈ excludedOf u, ¬ Matches n e) :
    ¬ Matches t.sub e := by
  have hforce : InForce excludedOf (listsFor upto t rest) e := by
    rw [hlists, List.append_cons]
    exact he.append hkept
  have hfalse := (names_checked h ht).1 e hforce
  intro hm
  rw [Matches, hfalse] at hm
  simp at hm

/-- A statement with naming constraints. -/
def constrain (iss sub : EntityId) (naming : NamingConstraints) : Statement Nat :=
  { iss := iss, sub := sub, constraints := some { namingConstraints := some naming } }

/-- A leaf's self-issued statement. -/
def selfIssued (id : EntityId) : Statement Nat := { iss := id, sub := id }

/-- What a trust anchor excludes, a narrower exclusion of the intermediate below it, and one
    of the next intermediate that has nothing to do with either. -/
def exclusionsDown : List (Statement Nat) :=
  [constrain "https://ta.org" "https://im.org" { excluded := some ["https://.example.com"] },
   constrain "https://im.org" "https://im.net" { excluded := some ["https://.op.example.com"] },
   constrain "https://im.net" "https://rp.example.com" { excluded := some ["https://.bad.org"] }]

theorem excluded_in_force_holds_witness :
    meetsRestrictions (exclusionsDown ++ [selfIssued "https://rp.example.com"]) = .ok true ∧
      ¬ Matches "https://rp.example.com" "https://.op.example.com" := by
  have haccepted : meetsRestrictions (exclusionsDown ++ [selfIssued "https://rp.example.com"]) =
      .ok true := by decide
  have hmatches : Matches "https://.op.example.com" "https://.example.com" := by
    unfold Matches
    decide
  -- the exclusion of the anchor is refined, and what is left of it is kept
  have htop : InForce excludedOf [constrain "https://ta.org" "https://im.org"
      { excluded := some ["https://.example.com"] }] "https://.example.com" :=
    @InForce.topmost Nat _ [] _ _ (by simp) (by simp [excludedOf, namingOf, constrain])
  refine ⟨haccepted, excluded_in_force_holds haccepted (Or.inl rfl) rfl
    (htop.refined (by simp [excludedOf, namingOf, constrain]) hmatches) ?_⟩
  simp only [List.mem_singleton, forall_eq]
  intro n hn
  obtain rfl : n = "https://.bad.org" := by simpa [excludedOf, namingOf, constrain] using hn
  unfold Matches
  decide

/-- A chain in which an intermediate narrows what the trust anchor excludes. -/
def narrowedExclusion : List (Statement Nat) :=
  [constrain "https://ta.org" "https://im.org" { excluded := some ["https://.example.com"] },
   constrain "https://im.org" "https://rp.example.com"
     { excluded := some ["https://op.example.com"] },
   selfIssued "https://rp.example.com"]

/-- The trust anchor's exclusion covers the leaf, and the chain is accepted. -/
theorem narrowedExclusion_accepted :
    ¬ ∀ chain : List (Statement Nat), meetsRestrictions chain = .ok true →
      ∀ i j s t, i + 1 < chain.length → i ≤ j → chain[i]? = some s → chain[j]? = some t →
        ∀ e ∈ excludedOf s, ¬ Matches t.sub e := by
  intro h
  -- the entry of the trust anchor is replaced by the one that refines it
  have hnot := h narrowedExclusion (by decide) 0 2
    (constrain "https://ta.org" "https://im.org" { excluded := some ["https://.example.com"] })
    (selfIssued "https://rp.example.com") (by decide) (by decide) rfl rfl
    "https://.example.com" (by simp [excludedOf, namingOf, constrain])
  exact hnot (by unfold Matches; decide)

/-! ## Permitted names -/

/-- Below a statement with a permitted list every subject whose names are
    checked matches an entry in force after that statement: one of its own, or
    one from above that its own list does not refine. -/
theorem permitted_in_force_binds {upto rest above between : List (Statement Key)}
    {s t : Statement Key}
    (h : meetsRestrictions (upto ++ t :: rest) = .ok true)
    (ht : rest = [] ∨ t.constraints.isSome)
    (hlists : listsFor upto t rest = above ++ s :: between)
    (hs : permittedOf s ≠ []) :
    ∃ e, InForce permittedOf (above ++ [s]) e ∧ Matches t.sub e ∧
      (e ∈ permittedOf s ∨
        ((∃ u ∈ above, permittedOf u ≠ []) ∧ ∀ n ∈ permittedOf s, ¬ Matches n e)) := by
  have hmem : s ∈ listsFor upto t rest := by simp [hlists]
  rcases (names_checked h ht).2 with hnone | ⟨e, he, hm⟩
  · exact absurd (hnone s hmem) hs
  · -- what is matched at `t` descends from an entry in force after `s`
    rw [hlists, List.append_cons] at he
    obtain ⟨e₀, he₀, hcase⟩ := he.above ⟨s, by simp, hs⟩
    refine ⟨e₀, he₀, ?_, he₀.own_or_kept⟩
    rcases hcase with rfl | hm₀
    · exact hm
    · exact hm.trans hm₀

/-- Two permitted names of a trust anchor, of which the intermediate below it narrows one, and
    the next intermediate narrows that again. -/
def permittedDown : List (Statement Nat) :=
  [constrain "https://ta.org" "https://im.example.com"
     { permitted := some ["https://.example.com", "https://.example.org"] },
   constrain "https://im.example.com" "https://im.eu.example.com"
     { permitted := some ["https://.eu.example.com"] },
   constrain "https://im.eu.example.com" "https://rp.eu.example.com"
     { permitted := some ["https://rp.eu.example.com"] }]

theorem permitted_in_force_binds_witness :
    meetsRestrictions (permittedDown ++ [selfIssued "https://rp.eu.example.com"]) = .ok true ∧
      ∃ e, InForce permittedOf (permittedDown.take 2) e ∧ Matches "https://rp.eu.example.com" e ∧
        (e ∈ ["https://.eu.example.com"] ∨
          ((∃ u ∈ permittedDown.take 1, permittedOf u ≠ []) ∧
            ∀ n ∈ ["https://.eu.example.com"], ¬ Matches n e)) := by
  have haccepted : meetsRestrictions (permittedDown ++ [selfIssued "https://rp.eu.example.com"]) =
      .ok true := by decide
  have hlists : listsFor permittedDown (selfIssued "https://rp.eu.example.com") [] =
      permittedDown.take 1 ++ constrain "https://im.example.com" "https://im.eu.example.com"
        { permitted := some ["https://.eu.example.com"] } :: permittedDown.drop 2 := rfl
  exact ⟨haccepted, permitted_in_force_binds haccepted (Or.inl rfl) hlists
    (by simp [permittedOf, namingOf, constrain])⟩

/-- A chain in which an intermediate permits only names the trust anchor does not. -/
def disjointPermitted : List (Statement Nat) :=
  [constrain "https://ta.org" "https://im.example.com"
     { permitted := some ["https://.example.com"] },
   constrain "https://im.example.com" "https://rp.example.com"
     { permitted := some ["https://.example.org"] },
   selfIssued "https://rp.example.com"]

/-- The leaf matches no entry of the intermediate's list, and the chain is accepted. -/
theorem disjointPermitted_accepted :
    ¬ ∀ chain : List (Statement Nat), meetsRestrictions chain = .ok true →
      ∀ i j s t, i + 1 < chain.length → i ≤ j → chain[i]? = some s → chain[j]? = some t →
        permittedOf s ≠ [] → ∃ e ∈ permittedOf s, Matches t.sub e := by
  intro h
  -- the intermediate's entry refines nothing and is dropped
  obtain ⟨e, he, hm⟩ := h disjointPermitted (by decide) 1 2
    (constrain "https://im.example.com" "https://rp.example.com"
      { permitted := some ["https://.example.org"] })
    (selfIssued "https://rp.example.com") (by decide) (by decide) rfl rfl
    (by simp [permittedOf, namingOf, constrain])
  obtain rfl : e = "https://.example.org" := by
    simpa [permittedOf, namingOf, constrain] using he
  have hne : moreSpecific "https://rp.example.com" "https://.example.org" ≠ .ok true := by decide
  exact hne hm

end Fedservice.EntityStatement
