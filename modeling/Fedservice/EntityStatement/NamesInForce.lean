/-
  Fedservice.EntityStatement.NamesInForce

  What naming constraints mean along a chain.  `more_specific` is the wildcard
  order on the labels of two URLs (`Matches`, a preorder on well-formed URLs),
  and `InForce` says declaratively which names of the lists met so far bind the
  statements below: the topmost list as it is, and from then on the entries of
  a later list that refine one in force, with those in force that it does not
  refine.  `Tracks` ties this to the running list the source threads through
  its loop; `tracks_addConstraint` is the step.
-/

import Mathlib.Data.List.Induction
import Fedservice.Lib.ExState
import Fedservice.Lib.WildcardOrder
import Fedservice.EntityStatement.Constraints

namespace Fedservice.EntityStatement

open Fedservice.Lib Fedservice.Py

variable {Key : Type}

/-! ## more_specific is the wildcard order on labels -/

/-- The labels of a URL as `more_specific` compares them, the last one first. -/
def labels (url : EntityId) : Except Exc (List Label) := do
  return ((← removeScheme url).splitOn '.').reverse

theorem compareLabels_zip (xs ys : List Label) :
    compareLabels (xs.zip ys) = agrees [] xs ys := by
  induction xs generalizing ys with
  | nil => cases ys <;> rfl
  | cons x xs ih =>
      cases ys with
      | nil => rfl
      | cons y ys =>
          simp only [List.zip_cons_cons, compareLabels, agrees, ih]
          by_cases h : x = y <;> simp [h]

/-- `more_specific(a, b)` compares the labels of the two URLs. -/
theorem moreSpecific_eq_ok {a b : EntityId} {r : Bool} :
    moreSpecific a b = .ok r ↔
      ∃ x y, labels a = .ok x ∧ labels b = .ok y ∧ r = refines [] x y := by
  unfold moreSpecific labels
  cases removeScheme a with
  | error e => simp [bind, Except.bind]
  | ok u =>
      cases removeScheme b with
      | error e => simp [bind, Except.bind, pure, Except.pure]
      | ok v =>
          simp only [bind, Except.bind, pure, Except.pure, refines, compareLabels_zip]
          by_cases h : (v.splitOn '.').length ≤ (u.splitOn '.').length <;> simp [h, eq_comm]

/-- `a` is matched by the entry `b` of a list of names. -/
def Matches (a b : EntityId) : Prop := moreSpecific a b = .ok true

theorem matches_iff {a b : EntityId} :
    Matches a b ↔ ∃ x y, labels a = .ok x ∧ labels b = .ok y ∧ refines [] x y = true := by
  rw [Matches, moreSpecific_eq_ok]
  constructor
  · rintro ⟨x, y, hx, hy, h⟩
    exact ⟨x, y, hx, hy, h.symm⟩
  · rintro ⟨x, y, hx, hy, h⟩
    exact ⟨x, y, hx, hy, h.symm⟩

theorem Matches.trans {a b c : EntityId} (h1 : Matches a b) (h2 : Matches b c) :
    Matches a c := by
  obtain ⟨x, y, hx, hy, hxy⟩ := matches_iff.mp h1
  obtain ⟨y', z, hy', hz, hyz⟩ := matches_iff.mp h2
  obtain rfl : y = y' := by rw [hy] at hy'; exact Except.ok.inj hy'
  exact matches_iff.mpr ⟨x, z, hx, hz, refines_trans [] hxy hyz⟩

/-! ## The lists of names of a statement -/

/-- The naming constraints a statement carries. -/
def namingOf (s : Statement Key) : Option NamingConstraints :=
  s.constraints.bind (·.namingConstraints)

/-- The permitted list of a statement (empty where it has none). -/
def permittedOf (s : Statement Key) : List EntityId :=
  ((namingOf s).bind (·.permitted)).getD []

/-- The excluded list of a statement (empty where it has none). -/
def excludedOf (s : Statement Key) : List EntityId :=
  ((namingOf s).bind (·.excluded)).getD []

/-- `InForce names above e`: after the statements `above`, with lists of names
    given by `names`, the entry `e` binds what comes below. -/
inductive InForce (names : Statement Key → List EntityId) :
    List (Statement Key) → EntityId → Prop
  /-- The topmost list is in force as it is. -/
  | topmost {above : List (Statement Key)} {s : Statement Key} {e : EntityId}
      (habove : ∀ t ∈ above, names t = []) (he : e ∈ names s) :
      InForce names (above ++ [s]) e
  /-- An entry that refines one in force is in force. -/
  | refined {above : List (Statement Key)} {s : Statement Key} {e e₀ : EntityId}
      (h : InForce names above e₀) (he : e ∈ names s) (hm : Matches e e₀) :
      InForce names (above ++ [s]) e
  /-- An entry in force stays so below a list that does not refine it. -/
  | kept {above : List (Statement Key)} {s : Statement Key} {e : EntityId}
      (h : InForce names above e) (hn : ∀ n ∈ names s, ¬ Matches n e) :
      InForce names (above ++ [s]) e

variable {names : Statement Key → List EntityId}

/-- Inversion of `InForce` at the last statement. -/
theorem inForce_snoc {above : List (Statement Key)} {s : Statement Key} {e : EntityId} :
    InForce names (above ++ [s]) e ↔
      ((∀ t ∈ above, names t = []) ∧ e ∈ names s) ∨
      (∃ e₀, InForce names above e₀ ∧ e ∈ names s ∧ Matches e e₀) ∨
      (InForce names above e ∧ ∀ n ∈ names s, ¬ Matches n e) := by
  constructor
  · -- the index of `h` has to be a variable for the case analysis
    intro h
    generalize hl : above ++ [s] = l at h
    cases h with
    | topmost habove he =>
        obtain ⟨rfl, rfl⟩ := List.append_singleton_inj.mp hl
        exact Or.inl ⟨habove, he⟩
    | refined h he hm =>
        obtain ⟨rfl, rfl⟩ := List.append_singleton_inj.mp hl
        exact Or.inr (Or.inl ⟨_, h, he, hm⟩)
    | kept h hn =>
        obtain ⟨rfl, rfl⟩ := List.append_singleton_inj.mp hl
        exact Or.inr (Or.inr ⟨h, hn⟩)
  · rintro (⟨habove, he⟩ | ⟨e₀, h, he, hm⟩ | ⟨h, hn⟩)
    · exact .topmost habove he
    · exact .refined h he hm
    · exact .kept h hn

theorem not_inForce_nil {e : EntityId} : ¬ InForce names [] e := by
  intro h
  generalize hl : ([] : List (Statement Key)) = l at h
  cases h <;> simp at hl

/-- Where nothing is listed nothing is in force. -/
theorem exists_names_of_inForce {above : List (Statement Key)} {e : EntityId}
    (h : InForce names above e) : ∃ t ∈ above, names t ≠ [] := by
  induction h with
  | topmost habove he => exact ⟨_, by simp, List.ne_nil_of_mem he⟩
  | refined h he hm ih => exact ⟨_, by simp, List.ne_nil_of_mem he⟩
  | kept h hn ih =>
      obtain ⟨t, ht, hne⟩ := ih
      exact ⟨t, List.mem_append_left _ ht, hne⟩

/-- An entry in force stays in force below lists that do not refine it. -/
theorem InForce.append {above between : List (Statement Key)} {e : EntityId}
    (h : InForce names above e) (hn : ∀ u ∈ between, ∀ n ∈ names u, ¬ Matches n e) :
    InForce names (above ++ between) e := by
  induction between generalizing above with
  | nil => simpa using h
  | cons u us ih =>
      have hkept : InForce names (above ++ [u]) e :=
        .kept h (hn u (List.mem_cons_self ..))
      simpa using ih hkept (fun v hv => hn v (List.mem_cons_of_mem _ hv))

/-- An entry in force after a statement is its own, or one from above that its
    list leaves alone. -/
theorem InForce.own_or_kept {above : List (Statement Key)} {s : Statement Key} {e : EntityId}
    (h : InForce names (above ++ [s]) e) :
    e ∈ names s ∨ ((∃ u ∈ above, names u ≠ []) ∧ ∀ n ∈ names s, ¬ Matches n e) := by
  rcases inForce_snoc.mp h with ⟨-, he⟩ | ⟨-, -, he, -⟩ | ⟨habove, hn⟩
  · exact Or.inl he
  · exact Or.inl he
  · exact Or.inr ⟨exists_names_of_inForce habove, hn⟩

/-- Going down a chain the names in force only get more specific. -/
theorem InForce.above {above between : List (Statement Key)} {e : EntityId}
    (h : InForce names (above ++ between) e) (hsome : ∃ t ∈ above, names t ≠ []) :
    ∃ e₀, InForce names above e₀ ∧ (e = e₀ ∨ Matches e e₀) := by
  -- upwards from the last statement: what it refines was in force just above it
  induction between using List.reverseRecOn generalizing e with
  | nil => exact ⟨e, by simpa using h, Or.inl rfl⟩
  | append_singleton between u ih =>
      rw [← List.append_assoc, inForce_snoc] at h
      rcases h with ⟨hnone, -⟩ | ⟨e₁, h₁, -, hm⟩ | ⟨h₁, -⟩
      · -- not the topmost list, since `above` has one
        obtain ⟨t, ht, hne⟩ := hsome
        exact absurd (hnone t (List.mem_append_left _ ht)) hne
      · obtain ⟨e₀, h₀, hcase⟩ := ih h₁
        refine ⟨e₀, h₀, Or.inr ?_⟩
        rcases hcase with rfl | hm₀
        · exact hm
        · exact hm.trans hm₀
      · exact ih h₁

/-! ## update_specs -/

theorem mem_refinements {old : EntityId} {new l : List EntityId}
    (h : refinements old new = .ok l) {e : EntityId} :
    e ∈ l ↔ e ∈ new ∧ Matches e old := by
  induction new generalizing l with
  | nil =>
      obtain rfl := Except.ok.inj h
      simp
  | cons n rest ih =>
      rw [refinements] at h
      obtain ⟨b, hn, h⟩ := except_bind_eq_ok.mp h
      obtain ⟨more, hr, h⟩ := except_bind_eq_ok.mp h
      obtain rfl := except_pure_eq_ok.mp h
      cases b with
      | true =>
          simp only [if_true, List.mem_cons, ih hr]
          constructor
          · rintro (rfl | ⟨he, hm⟩)
            · exact ⟨Or.inl rfl, hn⟩
            · exact ⟨Or.inr he, hm⟩
          · rintro ⟨rfl | he, hm⟩
            · exact Or.inl rfl
            · exact Or.inr ⟨he, hm⟩
      | false =>
          simp only [Bool.false_eq_true, if_false, List.mem_cons, ih hr]
          constructor
          · rintro ⟨he, hm⟩
            exact ⟨Or.inr he, hm⟩
          · rintro ⟨rfl | he, hm⟩
            · rw [Matches, hn] at hm
              simp at hm
            · exact ⟨he, hm⟩

/-- What takes the place of an old entry: the new entries that refine it, or
    itself where there are none. -/
theorem mem_replacement {new l : List EntityId} {o e : EntityId}
    (hl : ∀ x, x ∈ l ↔ x ∈ new ∧ Matches x o) :
    e ∈ (if l.isEmpty then [o] else l) ↔
      (e ∈ new ∧ Matches e o) ∨ (e = o ∧ ∀ n ∈ new, ¬ Matches n o) := by
  by_cases hempty : l.isEmpty = true
  · -- `_replaced` is false: the old entry is kept
    have hnone : ∀ n ∈ new, ¬ Matches n o := by
      intro n hn hm
      have hin : n ∈ l := (hl n).mpr ⟨hn, hm⟩
      rw [List.isEmpty_iff.mp hempty] at hin
      exact List.not_mem_nil hin
    rw [if_pos hempty, List.mem_singleton]
    constructor
    · exact fun he => Or.inr ⟨he, hnone⟩
    · rintro (⟨he, hm⟩ | ⟨he, -⟩)
      · exact absurd hm (hnone e he)
      · exact he
  · -- the old entry is gone, and those that refine it are there
    obtain ⟨n, hn⟩ := List.exists_mem_of_ne_nil l (fun hnil => hempty (List.isEmpty_iff.mpr hnil))
    rw [if_neg hempty, hl]
    constructor
    · exact Or.inl
    · rintro (he | ⟨-, hnone⟩)
      · exact he
      · exact absurd ((hl n).mp hn).2 (hnone n ((hl n).mp hn).1)

/-- What `update_specs` returns: the new entries that refine an old one, and
    the old ones that no new entry refines. -/
theorem mem_updateSpecs {new old upd : List EntityId} (h : updateSpecs new old = .ok upd)
    {e : EntityId} :
    e ∈ upd ↔ (∃ o ∈ old, e ∈ new ∧ Matches e o) ∨ (e ∈ old ∧ ∀ n ∈ new, ¬ Matches n e) := by
  induction old generalizing upd with
  | nil =>
      obtain rfl := Except.ok.inj h
      simp
  | cons o rest ih =>
      rw [updateSpecs] at h
      obtain ⟨l, hr, h⟩ := except_bind_eq_ok.mp h
      obtain ⟨more, hu, h⟩ := except_bind_eq_ok.mp h
      obtain rfl := except_pure_eq_ok.mp h
      rw [List.mem_append, mem_replacement (fun x => mem_refinements hr), ih hu]
      constructor
      · rintro ((hnew | ⟨rfl, hnone⟩) | ⟨o', ho', he⟩ | ⟨he, hn⟩)
        · exact Or.inl ⟨o, List.mem_cons_self .., hnew⟩
        · exact Or.inr ⟨List.mem_cons_self .., hnone⟩
        · exact Or.inl ⟨o', List.mem_cons_of_mem _ ho', he⟩
        · exact Or.inr ⟨List.mem_cons_of_mem _ he, hn⟩
      · rintro (⟨o', ho', he⟩ | ⟨he, hn⟩)
        · rcases List.mem_cons.mp ho' with rfl | ho'
          · exact Or.inl (Or.inl he)
          · exact Or.inr (Or.inl ⟨o', ho', he⟩)
        · rcases List.mem_cons.mp he with rfl | he
          · exact Or.inl (Or.inr ⟨rfl, hn⟩)
          · exact Or.inr (Or.inr ⟨he, hn⟩)

/-- Updating a list of names never empties it. -/
theorem updateSpecs_ne_nil {new old upd : List EntityId} (h : updateSpecs new old = .ok upd)
    (hold : old ≠ []) : upd ≠ [] := by
  obtain ⟨o, ho⟩ := List.exists_mem_of_ne_nil old hold
  by_cases hr : ∃ n ∈ new, Matches n o
  · obtain ⟨n, hn, hm⟩ := hr
    exact List.ne_nil_of_mem ((mem_updateSpecs h).mpr (Or.inl ⟨o, ho, hn, hm⟩))
  · simp only [not_exists, not_and] at hr
    exact List.ne_nil_of_mem ((mem_updateSpecs h).mpr (Or.inr ⟨ho, hr⟩))

/-! ## The running list tracks what is in force -/

/-- `running` is the list of the names in force after `above`. -/
structure Tracks (names : Statement Key → List EntityId) (above : List (Statement Key))
    (running : List EntityId) : Prop where
  nil_iff : running = [] ↔ ∀ t ∈ above, names t = []
  mem_iff : ∀ e, e ∈ running ↔ InForce names above e

theorem tracks_nil : Tracks names [] [] :=
  ⟨by simp, fun e => ⟨fun h => absurd h List.not_mem_nil, fun h => absurd h not_inForce_nil⟩⟩

/-- A statement that lists nothing leaves the names in force alone. -/
theorem Tracks.skip {above : List (Statement Key)} {running : List EntityId}
    (h : Tracks names above running) {s : Statement Key} (hs : names s = []) :
    Tracks names (above ++ [s]) running := by
  constructor
  · rw [h.nil_iff]
    simp [or_imp, forall_and, hs]
  · intro e
    rw [inForce_snoc, h.mem_iff, hs]
    simp

/-- With nothing in force yet this is the topmost list, or another empty one. -/
theorem Tracks.topmost {above : List (Statement Key)} {s : Statement Key}
    (h : Tracks names above []) : Tracks names (above ++ [s]) (names s) := by
  have hnone := h.nil_iff.mp rfl
  have hno : ∀ e, ¬ InForce names above e := fun e he => by simpa using (h.mem_iff e).mpr he
  constructor
  · simp only [List.mem_append, List.mem_singleton, or_imp, forall_and, forall_eq]
    exact ⟨fun hsn => ⟨hnone, hsn⟩, fun hsn => hsn.2⟩
  · intro e
    rw [inForce_snoc]
    constructor
    · exact fun he => Or.inl ⟨hnone, he⟩
    · rintro (⟨-, he⟩ | ⟨e₀, h₀, -⟩ | ⟨h₀, -⟩)
      · exact he
      · exact absurd h₀ (hno e₀)
      · exact absurd h₀ (hno e)

/-- With names in force already, they are updated. -/
theorem Tracks.update {above : List (Statement Key)} {s : Statement Key}
    {running running' : List EntityId} (h : Tracks names above running) (hrun : running ≠ [])
    (hadd : updateSpecs (names s) running = .ok running') :
    Tracks names (above ++ [s]) running' := by
  -- what is topmost has been met
  have hsome : ¬ ∀ t ∈ above, names t = [] := fun hall => hrun (h.nil_iff.mpr hall)
  constructor
  · constructor
    · exact fun hnil => absurd hnil (updateSpecs_ne_nil hadd hrun)
    · exact fun hall => absurd (fun t ht => hall t (List.mem_append_left _ ht)) hsome
  · intro e
    rw [mem_updateSpecs hadd, inForce_snoc, h.mem_iff]
    constructor
    · rintro (⟨o, ho, he, hm⟩ | hkept)
      · exact Or.inr (Or.inl ⟨o, (h.mem_iff o).mp ho, he, hm⟩)
      · exact Or.inr (Or.inr hkept)
    · rintro (⟨hall, -⟩ | ⟨o, ho, he, hm⟩ | hkept)
      · exact absurd hall hsome
      · exact Or.inl ⟨o, (h.mem_iff o).mpr ho, he, hm⟩
      · exact Or.inr hkept

/-- What the loop of `add_constraints` does for one key keeps track. -/
theorem tracks_addConstraint {above : List (Statement Key)} {s : Statement Key}
    {key : String} {new : Option (List EntityId)} {running running' : List EntityId}
    (h : Tracks names above running) (hs : names s = new.getD [])
    (hadd : addConstraint key new running = .ok running') :
    Tracks names (above ++ [s]) running' := by
  unfold addConstraint at hadd
  by_cases hempty : running.isEmpty = true
  · obtain rfl := List.isEmpty_iff.mp hempty
    obtain rfl : running' = names s := by
      rw [if_pos hempty] at hadd
      rw [hs]
      cases new with
      | none => exact (Except.ok.inj hadd).symm
      | some l =>
          have hl := Except.ok.inj hadd
          by_cases he : l.isEmpty = true
          · rw [if_pos he] at hl
            rw [← hl, Option.getD_some, List.isEmpty_iff.mp he]
          · rw [if_neg he] at hl
            exact hl.symm
    exact h.topmost
  · rw [if_neg hempty] at hadd
    cases new with
    | none => exact absurd hadd (by simp)  -- the `KeyError`
    | some l =>
        rw [Option.getD_some] at hs
        by_cases he : l.isEmpty = true
        · simp only [if_pos he] at hadd
          obtain rfl := Except.ok.inj hadd
          exact h.skip (by rw [hs, List.isEmpty_iff.mp he])
        · simp only [if_neg he] at hadd
          rw [← hs] at hadd
          exact h.update (fun hnil => hempty (List.isEmpty_iff.mpr hnil)) hadd

end Fedservice.EntityStatement
