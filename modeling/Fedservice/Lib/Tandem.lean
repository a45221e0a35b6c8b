/-
  Fedservice.Lib.Tandem

  Two computations, each on a state of its own, that go the same way: from states
  that are related, both return, with results and states that are related, or both
  raise.

  One rule for each way to build a computation, and `Tandem.run` for runs: it is
  the induction that a comparison of two versions of a program comes down to.
-/

import Fedservice.Lib.ExState

namespace Fedservice.Lib

variable {ε σ τ σ' τ' ι α β γ δ : Type}

/-- Both have returned, with results related by `R` and states related by `Inv`, or both have
    raised, and left states related by `Err`. -/
inductive OutcomesRelated (Inv Err : σ → τ → Prop) (R : α → β → Prop) :
    EStateM.Result ε σ α → EStateM.Result ε τ β → Prop
  | ok {a : α} {b : β} {s : σ} {t : τ} (h : R a b) (hst : Inv s t) :
      OutcomesRelated Inv Err R (.ok a s) (.ok b t)
  | error (e e' : ε) {s : σ} {t : τ} (hst : Err s t) :
      OutcomesRelated Inv Err R (.error e s) (.error e' t)

/-- From states related by `Inv` both computations come to outcomes that are related. -/
def Tandem (Inv Err : σ → τ → Prop) (R : α → β → Prop) (m : EStateM ε σ α)
    (n : EStateM ε τ β) : Prop :=
  ∀ s t, Inv s t → OutcomesRelated Inv Err R (m s) (n t)

variable {Inv Err : σ → τ → Prop} {R : α → β → Prop} {S : γ → δ → Prop}

theorem OutcomesRelated.cases {r : EStateM.Result ε σ α} {r' : EStateM.Result ε τ β}
    (h : OutcomesRelated Inv Err R r r') :
    (∃ a s b t, r = .ok a s ∧ r' = .ok b t ∧ R a b ∧ Inv s t) ∨
      ∃ e s e' t, r = .error e s ∧ r' = .error e' t ∧ Err s t := by
  cases h with
  | ok h hst => exact Or.inl ⟨_, _, _, _, rfl, rfl, h, hst⟩
  | error e e' hst => exact Or.inr ⟨e, _, e', _, rfl, rfl, hst⟩

theorem OutcomesRelated.refl {Inv Err : σ → σ → Prop} {R : α → α → Prop} (hInv : ∀ s, Inv s s)
    (hErr : ∀ s, Err s s) (hR : ∀ a, R a a) (r : EStateM.Result ε σ α) :
    OutcomesRelated Inv Err R r r := by
  cases r with
  | ok a s => exact .ok (hR a) (hInv s)
  | error e s => exact .error e e (hErr s)

/-- Outcomes that are returned in the same cases, where nothing is asked of what a raise
    leaves. -/
theorem OutcomesRelated.of_exists_iff {r : EStateM.Result ε σ α} {r' : EStateM.Result ε τ β}
    (hiff : (∃ a s, r = .ok a s) ↔ ∃ b t, r' = .ok b t)
    (hok : ∀ a s b t, r = .ok a s → r' = .ok b t → R a b ∧ Inv s t) :
    OutcomesRelated Inv (fun _ _ => True) R r r' := by
  cases r with
  | ok a s =>
      obtain ⟨b, t, rfl⟩ := hiff.mp ⟨a, s, rfl⟩
      obtain ⟨hab, hst⟩ := hok a s b t rfl rfl
      exact .ok hab hst
  | error e s =>
      cases r' with
      | ok b t =>
          obtain ⟨a, s', ha⟩ := hiff.mpr ⟨b, t, rfl⟩
          exact absurd ha (by simp)
      | error e' t => exact .error e e' trivial

theorem tandem_pure {a : α} {b : β} (h : R a b) :
    Tandem Inv Err R (pure a : EStateM ε σ α) (pure b) :=
  fun _ _ hst => .ok h hst

theorem tandem_lift (herr : ∀ s t, Inv s t → Err s t) {x : Except ε α} {y : Except ε β}
    (h : Lockstep R x y) : Tandem Inv Err R (lift x : EStateM ε σ α) (lift y) := by
  intro s t hst
  cases h with
  | ok h => exact .ok h hst
  | error e e' => exact .error e e' (herr s t hst)

theorem tandem_get : Tandem Inv Err Inv (get : EStateM ε σ σ) get :=
  fun _ _ hst => .ok hst hst

theorem tandem_set {s : σ} {t : τ} (h : Inv s t) :
    Tandem Inv Err (fun _ _ => True) (set s : EStateM ε σ PUnit) (set t) :=
  fun _ _ _ => .ok trivial h

theorem tandem_modify {f : σ → σ} {g : τ → τ} (h : ∀ s t, Inv s t → Inv (f s) (g t)) :
    Tandem Inv Err (fun _ _ => True) (modify f : EStateM ε σ PUnit) (modify g) :=
  fun s t hst => .ok trivial (h s t hst)

/-- A computation and itself, from one state; what is known of its results may be kept. -/
theorem tandem_same {P : α → Prop} (m : EStateM ε σ α) (hP : ∀ s a t, m s = .ok a t → P a) :
    Tandem Eq Eq (fun a b => a = b ∧ P a) m m := by
  rintro s _ rfl
  cases hm : m s with
  | ok a t => exact .ok ⟨rfl, hP s a t hm⟩ rfl
  | error e t => exact .error e e rfl

/-- Sequencing rule. -/
theorem Tandem.bind {m : EStateM ε σ α} {n : EStateM ε τ β} {f : α → EStateM ε σ γ}
    {g : β → EStateM ε τ δ} (hmn : Tandem Inv Err R m n)
    (hfg : ∀ a b, R a b → Tandem Inv Err S (f a) (g b)) :
    Tandem Inv Err S (m >>= f) (n >>= g) := by
  intro s t hst
  rcases (hmn s t hst).cases with
    ⟨a, s', b, t', hm, hn, hab, hst'⟩ | ⟨e, s', e', t', hm, hn, hst'⟩
  · rw [bind_of_ok hm, bind_of_ok hn]
    exact hfg a b hab s' t' hst'
  · rw [bind_of_error hm, bind_of_error hn]
    exact .error e e' hst'

/-- The same case is taken on both sides. -/
theorem Tandem.ite {p q : Prop} [Decidable p] [Decidable q] (hpq : p ↔ q)
    {m m' : EStateM ε σ α} {n n' : EStateM ε τ β} (hpos : p → Tandem Inv Err R m n)
    (hneg : ¬ p → Tandem Inv Err R m' n') :
    Tandem Inv Err R (if p then m else m') (if q then n else n') := by
  by_cases h : p
  · rw [if_pos h, if_pos (hpq.mp h)]
    exact hpos h
  · rw [if_neg h, if_neg (fun hq => h (hpq.mpr hq))]
    exact hneg h

/-- Computations on components of the states. -/
theorem Tandem.zoom {view : σ' → σ} {put : σ → σ' → σ'} {view' : τ' → τ} {put' : τ → τ' → τ'}
    {Inv' Err' : σ' → τ' → Prop} {m : EStateM ε σ α} {n : EStateM ε τ β}
    (h : Tandem Inv Err R m n) (hview : ∀ s t, Inv' s t → Inv (view s) (view' t))
    (hput : ∀ a b s t, Inv a b → Inv' s t → Inv' (put a s) (put' b t))
    (herr : ∀ a b s t, Err a b → Inv' s t → Err' (put a s) (put' b t)) :
    Tandem Inv' Err' R (Lib.zoom view put m) (Lib.zoom view' put' n) := by
  intro s t hst
  rcases (h (view s) (view' t) (hview s t hst)).cases with
    ⟨a, s', b, t', hm, hn, hab, hst'⟩ | ⟨e, s', e', t', hm, hn, hst'⟩
  · rw [zoom_of_ok hm, zoom_of_ok hn]
    exact .ok hab (hput s' t' s t hst' hst)
  · rw [zoom_of_error hm, zoom_of_error hn]
    exact .error e e' (herr s' t' s t hst' hst)

/-- Run: the same inputs to both, one after the other, if they come to states that are
    related also where they raise. -/
theorem Tandem.run {op : ι → EStateM ε σ α} {op' : ι → EStateM ε τ β}
    (h : ∀ i, Tandem Inv Inv R (op i) (op' i)) {s : σ} {t : τ} (hst : Inv s t) (is : List ι) :
    Inv (runState op s is) (runState op' t is) ∧
      List.Forall₂ (OutcomesRelated Inv Inv R) (runOutcomes op s is) (runOutcomes op' t is) := by
  induction is generalizing s t with
  | nil => exact ⟨hst, .nil⟩
  | cons i is ih =>
      have hnext : Inv (finalState (op i s)) (finalState (op' i t)) := by
        rcases (h i s t hst).cases with
          ⟨a, s', b, t', hm, hn, -, hst'⟩ | ⟨e, s', e', t', hm, hn, hst'⟩
        · rw [hm, hn]
          exact hst'
        · rw [hm, hn]
          exact hst'
      obtain ⟨hlast, hall⟩ := ih hnext
      exact ⟨hlast, .cons (h i s t hst) hall⟩

end Fedservice.Lib
