/-
  Fedservice.Entity.Function.TreeOfSuperiors

  The collected tree as a dictionary: its entries, the paths of authorities that
  it holds, and what the loop over the authority hints leaves in it.
-/

import Fedservice.Entity.Function.Federation

namespace Fedservice.Entity.Function

open Fedservice.Lib Fedservice.Py Fedservice.EntityStatement

variable {Key : Type}

/-! ## Entries -/

/-- The items of the dictionary. -/
def Tree.entries : Tree Key → List (EntityId × Option (Token Key × Tree Key))
  | .empty => []
  | .blocked authority others => (authority, none) :: others.entries
  | .branch authority statement above others =>
      (authority, some (statement, above)) :: others.entries

theorem Tree.isEmpty_iff {t : Tree Key} : t.isEmpty = true ↔ t.entries = [] := by
  cases t <;> simp [Tree.isEmpty, Tree.entries]

/-- The entry that was set is there, -/
theorem Tree.mem_entries_set_self (t : Tree Key) (a : EntityId)
    (value : Option (Token Key × Tree Key)) : (a, value) ∈ (t.set a value).entries := by
  induction t with
  | empty => cases value <;> simp [Tree.set, Tree.entries]
  | blocked b others ih =>
      by_cases h : b = a
      · cases value <;> simp [Tree.set, Tree.entries, h]
      · simp [Tree.set, Tree.entries, h, ih]
  | branch b s above others _ ih =>
      by_cases h : b = a
      · cases value <;> simp [Tree.set, Tree.entries, h]
      · simp [Tree.set, Tree.entries, h, ih]

/-- the others were there before, -/
theorem Tree.mem_of_mem_entries_set {t : Tree Key} {a : EntityId}
    {value : Option (Token Key × Tree Key)} {e : EntityId × Option (Token Key × Tree Key)}
    (h : e ∈ (t.set a value).entries) : e = (a, value) ∨ e ∈ t.entries := by
  induction t with
  | empty => cases value <;> simpa [Tree.set, Tree.entries] using h
  | blocked b others ih =>
      by_cases hb : b = a
      · cases value <;> simp only [Tree.set, hb, if_true, Tree.entries, List.mem_cons] at h ⊢ <;>
          exact h.imp_right Or.inr
      · simp only [Tree.set, hb, if_false, Tree.entries, List.mem_cons] at h ⊢
        rcases h with rfl | h
        · exact Or.inr (Or.inl rfl)
        · exact (ih h).imp_right Or.inr
  | branch b s above others _ ih =>
      by_cases hb : b = a
      · cases value <;> simp only [Tree.set, hb, if_true, Tree.entries, List.mem_cons] at h ⊢ <;>
          exact h.imp_right Or.inr
      · simp only [Tree.set, hb, if_false, Tree.entries, List.mem_cons] at h ⊢
        rcases h with rfl | h
        · exact Or.inr (Or.inl rfl)
        · exact (ih h).imp_right Or.inr

/-- and those of other authorities stay. -/
theorem Tree.mem_entries_set_of_ne {t : Tree Key} {a b : EntityId}
    {value v : Option (Token Key × Tree Key)} (hne : b ≠ a) (h : (b, v) ∈ t.entries) :
    (b, v) ∈ (t.set a value).entries := by
  induction t with
  | empty => exact absurd h List.not_mem_nil
  | blocked c others ih =>
      simp only [Tree.entries, List.mem_cons, Prod.mk.injEq] at h
      by_cases hc : c = a
      · have hrest : (b, v) ∈ others.entries := by
          rcases h with ⟨rfl, -⟩ | h
          · exact absurd hc hne
          · exact h
        cases value <;> simp [Tree.set, hc, Tree.entries, hrest]
      · simp only [Tree.set, hc, if_false, Tree.entries, List.mem_cons, Prod.mk.injEq]
        exact h.imp_right ih
  | branch c s above others _ ih =>
      simp only [Tree.entries, List.mem_cons, Prod.mk.injEq] at h
      by_cases hc : c = a
      · have hrest : (b, v) ∈ others.entries := by
          rcases h with ⟨rfl, -⟩ | h
          · exact absurd hc hne
          · exact h
        cases value <;> simp [Tree.set, hc, Tree.entries, hrest]
      · simp only [Tree.set, hc, if_false, Tree.entries, List.mem_cons, Prod.mk.injEq]
        exact h.imp_right ih

/-! ## Paths -/

/-- The paths of authorities from the entity that the tree was collected for
    upwards, those to a blocked authority included. -/
def Tree.paths : Tree Key → List (List EntityId)
  | .empty => [[]]
  | .blocked authority others => [authority] :: others.paths
  | .branch authority _ above others => above.paths.map (authority :: ·) ++ others.paths

/-- A path goes along the entries. -/
theorem Tree.mem_paths {t : Tree Key} {path : List EntityId} :
    path ∈ t.paths ↔ path = [] ∨ (∃ a, (a, none) ∈ t.entries ∧ path = [a]) ∨
      ∃ a s above, (a, some (s, above)) ∈ t.entries ∧ ∃ rest ∈ above.paths, path = a :: rest := by
  induction t with
  | empty => simp [Tree.paths, Tree.entries]
  | blocked a others ih =>
      simp only [Tree.paths, Tree.entries, List.mem_cons, ih, Prod.mk.injEq, reduceCtorEq, and_false,
        false_or, and_true]
      constructor
      · rintro (rfl | rfl | ⟨b, hb, rfl⟩ | h)
        · exact Or.inr (Or.inl ⟨a, Or.inl rfl, rfl⟩)
        · exact Or.inl rfl
        · exact Or.inr (Or.inl ⟨b, Or.inr hb, rfl⟩)
        · exact Or.inr (Or.inr h)
      · rintro (rfl | ⟨b, rfl | hb, rfl⟩ | h)
        · exact Or.inr (Or.inl rfl)
        · exact Or.inl rfl
        · exact Or.inr (Or.inr (Or.inl ⟨b, hb, rfl⟩))
        · exact Or.inr (Or.inr (Or.inr h))
  | branch a s above others _ ih =>
      simp only [Tree.paths, Tree.entries, List.mem_append, List.mem_map, List.mem_cons, ih,
        Prod.mk.injEq, reduceCtorEq, and_false, false_or, Option.some.injEq]
      constructor
      · rintro (⟨rest, hrest, rfl⟩ | rfl | h | ⟨b, s', above', hb, h⟩)
        · exact Or.inr (Or.inr ⟨a, s, above, Or.inl ⟨rfl, rfl, rfl⟩, rest, hrest, rfl⟩)
        · exact Or.inl rfl
        · exact Or.inr (Or.inl h)
        · exact Or.inr (Or.inr ⟨b, s', above', Or.inr hb, h⟩)
      · rintro (rfl | h | ⟨b, s', above', ⟨rfl, rfl, rfl⟩ | hb, rest, hrest, rfl⟩)
        · exact Or.inr (Or.inl rfl)
        · exact Or.inr (Or.inr (Or.inl h))
        · exact Or.inl ⟨rest, hrest, rfl⟩
        · exact Or.inr (Or.inr (Or.inr ⟨b, s', above', hb, rest, hrest, rfl⟩))

/-! ## The loop over the authority hints -/

variable {branchOf : EntityId → Except Exc (Option (Token Key × Tree Key))}

/-- An entry is from before or the branch of one of the hints. -/
theorem of_mem_growTree {t t' : Tree Key} {hints : List EntityId} {a : EntityId}
    {value : Option (Token Key × Tree Key)} (h : growTree branchOf t hints = .ok t')
    (hmem : (a, value) ∈ t'.entries) :
    (a, value) ∈ t.entries ∨ (a ∈ hints ∧ branchOf a = .ok value) := by
  induction hints generalizing t with
  | nil =>
      obtain rfl := except_pure_eq_ok.mp h
      exact Or.inl hmem
  | cons b rest ih =>
      obtain ⟨v, hv, h⟩ := except_bind_eq_ok.mp h
      rcases ih h with hset | ⟨hrest, hvalue⟩
      · rcases Tree.mem_of_mem_entries_set hset with heq | hbefore
        · obtain ⟨rfl, rfl⟩ := Prod.mk.inj heq
          exact Or.inr ⟨List.mem_cons_self .., hv⟩
        · exact Or.inl hbefore
      · exact Or.inr ⟨List.mem_cons_of_mem b hrest, hvalue⟩

/-- What is there stays, if it is what the loop would put there. -/
theorem mem_growTree_of_mem {t t' : Tree Key} {hints : List EntityId} {a : EntityId}
    {value : Option (Token Key × Tree Key)} (h : growTree branchOf t hints = .ok t')
    (hvalue : branchOf a = .ok value) (hmem : (a, value) ∈ t.entries) :
    (a, value) ∈ t'.entries := by
  induction hints generalizing t with
  | nil =>
      obtain rfl := except_pure_eq_ok.mp h
      exact hmem
  | cons b rest ih =>
      obtain ⟨v, hv, h⟩ := except_bind_eq_ok.mp h
      refine ih h ?_
      by_cases hb : a = b
      · obtain rfl := hb
        rw [hvalue, Except.ok.injEq] at hv
        rw [hv]
        exact Tree.mem_entries_set_self ..
      · exact Tree.mem_entries_set_of_ne hb hmem

/-- Every hint gets its branch. -/
theorem mem_growTree_of_hint {t t' : Tree Key} {hints : List EntityId} {a : EntityId}
    (h : growTree branchOf t hints = .ok t') (ha : a ∈ hints) :
    ∃ value, branchOf a = .ok value ∧ (a, value) ∈ t'.entries := by
  induction hints generalizing t with
  | nil => exact absurd ha List.not_mem_nil
  | cons b rest ih =>
      obtain ⟨v, hv, h⟩ := except_bind_eq_ok.mp h
      rcases List.mem_cons.mp ha with rfl | hrest
      · exact ⟨v, hv, mem_growTree_of_mem h hv (Tree.mem_entries_set_self ..)⟩
      · exact ih h hrest

/-- The loop ends well if every branch can be had. -/
theorem growTree_of_forall {hints : List EntityId} (t : Tree Key)
    (h : ∀ a ∈ hints, ∃ value, branchOf a = .ok value) :
    ∃ t', growTree branchOf t hints = .ok t' := by
  induction hints generalizing t with
  | nil => exact ⟨t, rfl⟩
  | cons a rest ih =>
      obtain ⟨value, hvalue⟩ := h a (List.mem_cons_self ..)
      rw [growTree, hvalue, except_ok_bind]
      exact ih (t.set a value) fun b hb => h b (List.mem_cons_of_mem a hb)

/-- The loop raises what one of the branches raises. -/
theorem of_growTree_error {hints : List EntityId} {t : Tree Key} {e : Exc}
    (h : growTree branchOf t hints = .error e) : ∃ a ∈ hints, branchOf a = .error e := by
  induction hints generalizing t with
  | nil => exact absurd h (by simp [growTree, pure, Except.pure])
  | cons a rest ih =>
      rw [growTree] at h
      cases hvalue : branchOf a with
      | error e' =>
          rw [hvalue, except_error_bind, Except.error.injEq] at h
          exact ⟨a, List.mem_cons_self .., by rw [hvalue, h]⟩
      | ok value =>
          rw [hvalue, except_ok_bind] at h
          obtain ⟨b, hb, hraise⟩ := ih h
          exact ⟨b, List.mem_cons_of_mem a hb, hraise⟩

/-! ## The tree of superiors -/

/-- The collector goes through the authority hints of a configuration, and `a` is
    one of them. -/
def Hints (stopAt : EntityId) (config : Statement Key) (a : EntityId) : Prop :=
  config.iss ≠ stopAt ∧ a ∈ config.authorityHints.getD []

variable [DecidableEq Key] {env : CollectorEnv Key} {stopAt : EntityId}

/-- The collector, at `x`, goes through its authority hints and finds `a` there. -/
def Lists (env : CollectorEnv Key) (stopAt x a : EntityId) : Prop :=
  ∃ config, configuration env x = .ok config ∧ Hints stopAt config.payload a

/-- The entries of the tree are the branches of the authority hints. -/
theorem mem_superiors {depth : Nat} {x a : EntityId} {config : Statement Key} {tree : Tree Key}
    (htree : superiors env stopAt (depth + 1) x (some config) = .ok tree)
    {value : Option (Token Key × Tree Key)} :
    (a, value) ∈ tree.entries ↔
      Hints stopAt config a ∧ branch env (superiors env stopAt depth) x a = .ok value := by
  rw [superiors] at htree
  unfold Hints
  cases hhints : config.authorityHints with
  | none =>
      simp only [hhints, except_pure_eq_ok] at htree
      simp [← htree, Tree.entries]
  | some hints =>
      simp only [hhints] at htree
      by_cases hstop : config.iss = stopAt
      · rw [if_pos hstop, except_pure_eq_ok] at htree
        simp [← htree, Tree.entries, hstop]
      · rw [if_neg hstop] at htree
        rw [Option.getD_some]
        constructor
        · intro hmem
          rcases of_mem_growTree htree hmem with hnone | ⟨ha, hvalue⟩
          · exact absurd hnone (by simp [Tree.entries])
          · exact ⟨⟨hstop, ha⟩, hvalue⟩
        · rintro ⟨⟨-, ha⟩, hvalue⟩
          obtain ⟨value', hvalue', hmem⟩ := mem_growTree_of_hint htree ha
          rw [hvalue, Except.ok.injEq] at hvalue'
          exact hvalue' ▸ hmem

/-- Every authority hint has an entry. -/
theorem exists_mem_superiors {depth : Nat} {x a : EntityId} {config : Statement Key}
    {tree : Tree Key} (htree : superiors env stopAt (depth + 1) x (some config) = .ok tree)
    (ha : Hints stopAt config a) : ∃ value, (a, value) ∈ tree.entries := by
  obtain ⟨hstop, ha⟩ := ha
  rw [superiors] at htree
  cases hhints : config.authorityHints with
  | none => simp [hhints] at ha
  | some hints =>
      simp only [hhints, if_neg hstop, Option.getD_some] at htree ha
      obtain ⟨value, -, hmem⟩ := mem_growTree_of_hint htree ha
      exact ⟨value, hmem⟩

/-- The tree can be had if the branches of the hints can. -/
theorem superiors_of_branches {depth : Nat} {x : EntityId} {config : Statement Key}
    (h : ∀ a, Hints stopAt config a →
      ∃ value, branch env (superiors env stopAt depth) x a = .ok value) :
    ∃ tree, superiors env stopAt (depth + 1) x (some config) = .ok tree := by
  rw [superiors]
  cases hhints : config.authorityHints with
  | none => exact ⟨.empty, rfl⟩
  | some hints =>
      by_cases hstop : config.iss = stopAt
      · simp only [if_pos hstop]
        exact ⟨.empty, rfl⟩
      · simp only [if_neg hstop]
        exact growTree_of_forall .empty fun a ha => h a ⟨hstop, by rw [hhints]; exact ha⟩

/-- If it cannot, one of them cannot either. -/
theorem branch_error_of_superiors {depth : Nat} {x : EntityId} {config : Statement Key} {e : Exc}
    (h : superiors env stopAt (depth + 1) x (some config) = .error e) :
    ∃ a, Hints stopAt config a ∧ branch env (superiors env stopAt depth) x a = .error e := by
  rw [superiors] at h
  cases hhints : config.authorityHints with
  | none => simp [hhints, pure, Except.pure] at h
  | some hints =>
      simp only [hhints] at h
      by_cases hstop : config.iss = stopAt
      · simp [hstop, pure, Except.pure] at h
      · rw [if_neg hstop] at h
        obtain ⟨a, ha, hraise⟩ := of_growTree_error h
        exact ⟨a, ⟨hstop, by rw [hhints]; exact ha⟩, hraise⟩

end Fedservice.Entity.Function
