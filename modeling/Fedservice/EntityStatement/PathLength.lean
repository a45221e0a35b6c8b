/-
  Fedservice.EntityStatement.PathLength

  The path length limits of a chain and what the loop of `meets_restrictions`
  makes of them.  The flag that a limit has been assigned is never raised, so
  the counter restarts at every statement that carries constraints: a chain
  passes exactly when no limit is negative and its names are admitted
  (`meetsRestrictions_eq_true_iff`).
-/

import Fedservice.EntityStatement.MeetsRestrictions

namespace Fedservice.EntityStatement

open Fedservice.Lib Fedservice.Py

variable {Key : Type}

/-! ## Limits -/

/-- The `max_path_length` a statement sets. -/
def pathLimit (s : Statement Key) : Option Int := s.constraints.bind (·.maxPathLength)

/-- Between the issuer of every statement that sets a limit and the leaf there
    are no more intermediates than the limit allows. -/
def PathLengthRespected (chain : List (Statement Key)) : Prop :=
  ∀ i s limit, i + 2 ≤ chain.length → chain[i]? = some s → pathLimit s = some limit →
    (chain.length : Int) - 2 - i ≤ limit

/-- With no limit assigned the counter is the limit of the statement at hand. -/
theorem calculatePathLength_unassigned (c : Constraints) (current : Int) :
    calculatePathLength c current false = c.maxPathLength.getD 0 := by
  unfold calculatePathLength
  cases c.maxPathLength <;> rfl

/-! ## The loop without its counter -/

/-- The checks of the names alone, from the running lists on. -/
def NamesAdmitted (naming : NamingState) : List (Statement Key) → Prop
  | [] => False
  | [leaf] => checkNames naming leaf.sub = .ok true
  | s :: t :: rest =>
      match s.constraints with
      | none => NamesAdmitted naming (t :: rest)
      | some c => ∃ naming', updateNamingConstraints c naming = .ok naming' ∧
          checkNames naming' s.sub = .ok true ∧ NamesAdmitted naming' (t :: rest)

theorem namesAdmitted_cons_append {naming : NamingState} {s leaf : Statement Key}
    {rest : List (Statement Key)} :
    NamesAdmitted naming (s :: (rest ++ [leaf])) ↔
      match s.constraints with
      | none => NamesAdmitted naming (rest ++ [leaf])
      | some c => ∃ naming', updateNamingConstraints c naming = .ok naming' ∧
          checkNames naming' s.sub = .ok true ∧ NamesAdmitted naming' (rest ++ [leaf]) := by
  cases rest <;> exact Iff.rfl

/-- Step: while no limit is assigned, a statement is passed when its own limit
    is not negative and its names are admitted, and still none is assigned. -/
theorem restrictionStep_unassigned {st st' : RestrictionState} {s : Statement Key}
    (hst : st.maxAssigned = false) :
    restrictionStep st s = .ok (some st') ↔
      (s.constraints = none ∧ st' = st) ∨
        ∃ c naming, s.constraints = some c ∧ 0 ≤ c.maxPathLength.getD 0 ∧
          updateNamingConstraints c st.naming = .ok naming ∧ checkNames naming s.sub = .ok true ∧
          st' = ⟨c.maxPathLength.getD 0, false, naming⟩ := by
  simp only [restrictionStep_eq_some, hst, calculatePathLength_unassigned]

/-- Run: what the loop and the check of the leaf accept. -/
theorem restrictionLoop_accepts {init : List (Statement Key)} {leaf : Statement Key}
    (st : RestrictionState) (hst : st.maxAssigned = false) :
    (∃ st', restrictionLoop st init = .ok (some st') ∧
        checkNames st'.naming leaf.sub = .ok true) ↔
      (∀ s ∈ init, ∀ limit, pathLimit s = some limit → 0 ≤ limit) ∧
        NamesAdmitted st.naming (init ++ [leaf]) := by
  -- `maxAssigned` stays false, so the counter that comes in never matters
  induction init generalizing st with
  | nil => simp [restrictionLoop, NamesAdmitted]
  | cons s rest ih =>
      simp only [restrictionLoop_cons, restrictionStep_unassigned hst, List.cons_append,
        namesAdmitted_cons_append, List.forall_mem_cons]
      constructor
      · rintro ⟨st', ⟨mid, ⟨hc, rfl⟩ | ⟨c, naming, hc, hpos, hn, hk, rfl⟩, hloop⟩, hleaf⟩
        · -- no constraints: the `continue`
          obtain ⟨hlimits, hnames⟩ := (ih _ hst).mp ⟨st', hloop, hleaf⟩
          exact ⟨⟨by simp [pathLimit, hc], hlimits⟩, by simpa [hc] using hnames⟩
        · obtain ⟨hlimits, hnames⟩ := (ih _ rfl).mp ⟨st', hloop, hleaf⟩
          refine ⟨⟨fun limit hlimit => ?_, hlimits⟩, ?_⟩
          · simp only [pathLimit, hc, Option.bind_some] at hlimit
            simpa [hlimit] using hpos
          · simp only [hc]
            exact ⟨naming, hn, hk, hnames⟩
      · rintro ⟨⟨hlimit, hlimits⟩, hnames⟩
        cases hc : s.constraints with
        | none =>
            simp only [hc] at hnames
            obtain ⟨st', hloop, hleaf⟩ := (ih _ hst).mpr ⟨hlimits, hnames⟩
            exact ⟨st', ⟨st, Or.inl ⟨rfl, rfl⟩, hloop⟩, hleaf⟩
        | some c =>
            simp only [hc] at hnames
            obtain ⟨naming, hn, hk, hrest⟩ := hnames
            have hpos : 0 ≤ c.maxPathLength.getD 0 := by
              cases hm : c.maxPathLength with
              | none => exact Int.le_refl 0
              | some limit => exact hlimit limit (by simp [pathLimit, hc, hm])
            obtain ⟨st', hloop, hleaf⟩ :=
              (ih ⟨c.maxPathLength.getD 0, false, naming⟩ rfl).mpr ⟨hlimits, hrest⟩
            exact ⟨st', ⟨_, Or.inr ⟨c, naming, rfl, hpos, hn, hk, rfl⟩, hloop⟩, hleaf⟩

/-! ## The accepted chains -/

/-- The chains `meets_restrictions` accepts. -/
theorem meetsRestrictions_eq_true_iff {chain : List (Statement Key)} :
    meetsRestrictions chain = .ok true ↔
      (∀ s ∈ chain.dropLast, ∀ limit, pathLimit s = some limit → 0 ≤ limit) ∧
        NamesAdmitted {} chain := by
  rw [meetsRestrictions_eq_true]
  constructor
  · rintro ⟨init, leaf, st, rfl, hloop, hleaf⟩
    rw [List.dropLast_concat]
    exact (restrictionLoop_accepts {} rfl).mp ⟨st, hloop, hleaf⟩
  · rintro ⟨hlimits, hnames⟩
    rcases List.eq_nil_or_concat chain with rfl | ⟨init, leaf, rfl⟩
    · exact absurd hnames (by simp [NamesAdmitted])
    · rw [List.concat_eq_append] at hlimits hnames ⊢
      rw [List.dropLast_concat] at hlimits
      obtain ⟨st, hloop, hleaf⟩ :=
        (restrictionLoop_accepts {} rfl).mpr ⟨hlimits, hnames⟩
      exact ⟨init, leaf, st, rfl, hloop, hleaf⟩

/-- Accepting a chain implies that its limits are respected exactly when the
    names or a negative limit rule the chain out, or no limit that is not
    negative is smaller than the number of intermediates below. -/
theorem path_length_enforced_iff (chain : List (Statement Key)) :
    (meetsRestrictions chain = .ok true → PathLengthRespected chain) ↔
      ¬ NamesAdmitted {} chain ∨
      (∃ s ∈ chain.dropLast, ∃ limit, pathLimit s = some limit ∧ limit < 0) ∨
      ∀ i s limit, i + 2 ≤ chain.length → chain[i]? = some s → pathLimit s = some limit →
        0 ≤ limit → (chain.length : Int) - 2 - i ≤ limit := by
  rw [meetsRestrictions_eq_true_iff]
  constructor
  · intro h
    by_cases hnames : NamesAdmitted {} chain
    · by_cases hneg : ∃ s ∈ chain.dropLast, ∃ limit, pathLimit s = some limit ∧ limit < 0
      · exact Or.inr (Or.inl hneg)
      · simp only [not_exists, not_and, Int.not_lt] at hneg
        exact Or.inr (Or.inr fun i s limit hi hs hlimit _ => h ⟨hneg, hnames⟩ i s limit hi hs hlimit)
    · exact Or.inl hnames
  · rintro h ⟨hlimits, hnames⟩ i s limit hi hs hlimit
    have hmem : s ∈ chain.dropLast := by
      refine List.mem_of_getElem? (i := i) ?_
      rw [List.getElem?_dropLast, if_pos (by omega), hs]
    rcases h with hno | ⟨u, hu, l, hl, hneg⟩ | hroom
    · exact absurd hnames hno
    · have hpos : 0 ≤ l := hlimits u hu l hl
      omega
    · exact hroom i s limit hi hs hlimit (hlimits s hmem limit hlimit)

/-- A trust anchor allows no intermediate below the one it vouches for, and a
    chain with one is accepted. -/
theorem limit_zero_with_intermediate_accepted :
    ¬ ∀ chain : List (Statement Nat), 2 ≤ chain.length →
      meetsRestrictions chain = .ok true → PathLengthRespected chain := by
  intro h
  -- the intermediate's own statement has no constraints and is passed over
  have hle := h
    [{ iss := "https://ta.org", sub := "https://im.org",
       constraints := some { maxPathLength := some 0 } },
     { iss := "https://im.org", sub := "https://rp.org" }, selfIssued "https://rp.org"]
    (by decide) (by decide) 0 _ 0 (by decide) rfl rfl
  exact absurd hle (by decide)

end Fedservice.EntityStatement
