/-
  Fedservice.Lib.ExState

  Reasoning about computations that mutate a state and may raise, with the
  mutations made before a raise kept: `EStateM` without backtracking.

  The inversion lemmas (`bind_eq_ok`, `zoom_eq_ok`) peel a sequence apart, `zoom`
  runs a computation on one component of a larger state, and a `run` is
  a sequence of calls that share the state, each one starting where the last
  one (however it ended) left it.  `run_invariant` is the induction over runs.
-/

import Mathlib.Data.List.Basic

namespace Fedservice.Lib

variable {ε σ τ ι α β : Type}

/-! ## Outcomes -/

/-- The state a computation ends in, whether it returned or raised. -/
def finalState : EStateM.Result ε σ α → σ
  | .ok _ s => s
  | .error _ s => s

@[simp] theorem finalState_ok (a : α) (s : σ) :
    finalState (.ok a s : EStateM.Result ε σ α) = s := rfl

@[simp] theorem finalState_error (e : ε) (s : σ) :
    finalState (.error e s : EStateM.Result ε σ α) = s := rfl

/-- The value returned, if the computation returned one. -/
def returned? : EStateM.Result ε σ α → Option α
  | .ok a _ => some a
  | .error _ _ => none

@[simp] theorem returned?_ok (a : α) (s : σ) :
    returned? (.ok a s : EStateM.Result ε σ α) = some a := rfl

@[simp] theorem returned?_error (e : ε) (s : σ) :
    returned? (.error e s : EStateM.Result ε σ α) = none := rfl

theorem returned?_eq_some {r : EStateM.Result ε σ α} {a : α} :
    returned? r = some a ↔ ∃ s, r = .ok a s := by
  cases r <;> simp

/-! ## Inversion of sequencing -/

/-- A sequence of fallible steps returns when each of them does. -/
theorem except_bind_eq_ok {x : Except ε α} {f : α → Except ε β} {b : β} :
    (x >>= f) = .ok b ↔ ∃ a, x = .ok a ∧ f a = .ok b := by
  cases x <;> simp [bind, Except.bind]

@[simp] theorem except_ok_bind {a : α} {f : α → Except ε β} : (Except.ok a >>= f) = f a := rfl

@[simp] theorem except_error_bind {e : ε} {f : α → Except ε β} :
    (Except.error e >>= f) = .error e := rfl

@[simp] theorem except_throw_ne_ok {e : ε} {a : α} :
    ¬ (throw e : Except ε α) = .ok a := by
  simp [throw, throwThe, MonadExceptOf.throw]

@[simp] theorem except_pure_eq_ok {a b : α} :
    (pure a : Except ε α) = .ok b ↔ a = b := by
  simp [pure, Except.pure]

theorem bind_eq_ok {x : EStateM ε σ α} {f : α → EStateM ε σ β} {s s' : σ} {b : β} :
    (x >>= f) s = .ok b s' ↔ ∃ a t, x s = .ok a t ∧ f a t = .ok b s' := by
  simp only [bind, EStateM.bind]
  cases x s <;> simp

theorem bind_of_ok {x : EStateM ε σ α} {f : α → EStateM ε σ β} {s t : σ} {a : α}
    (h : x s = .ok a t) : (x >>= f) s = f a t := by
  simp only [bind, EStateM.bind, h]

theorem bind_of_error {x : EStateM ε σ α} {f : α → EStateM ε σ β} {s t : σ} {e : ε}
    (h : x s = .error e t) : (x >>= f) s = .error e t := by
  simp only [bind, EStateM.bind, h]

theorem tryCatch_of_ok {x : EStateM ε σ α} {f : ε → EStateM ε σ α} {s t : σ} {a : α}
    (h : x s = .ok a t) : (tryCatch x f) s = .ok a t := by
  simp only [tryCatch, tryCatchThe, MonadExceptOf.tryCatch, EStateM.tryCatch, h]

theorem tryCatch_of_error {x : EStateM ε σ α} {f : ε → EStateM ε σ α} {s t : σ} {e : ε}
    (h : x s = .error e t) : (tryCatch x f) s = f e t := by
  simp only [tryCatch, tryCatchThe, MonadExceptOf.tryCatch, EStateM.tryCatch, h]
  rfl

@[simp] theorem pure_apply (a : α) (s : σ) :
    (pure a : EStateM ε σ α) s = .ok a s := rfl

@[simp] theorem throw_apply (e : ε) (s : σ) :
    (throw e : EStateM ε σ α) s = .error e s := rfl

/-- What is returned does not matter to the state. -/
theorem finalState_bind_pure {x : EStateM ε σ α} {f : α → β} {s : σ} :
    finalState ((x >>= fun a => pure (f a)) s) = finalState (x s) := by
  simp only [bind, EStateM.bind]
  cases x s <;> rfl

@[simp] theorem get_apply (s : σ) : (get : EStateM ε σ σ) s = .ok s s := rfl

@[simp] theorem set_apply (s t : σ) : (set t : EStateM ε σ PUnit) s = .ok ⟨⟩ t := rfl

/-- Run a pure fallible computation inside one with state. -/
def lift (x : Except ε α) : EStateM ε σ α := fun s =>
  match x with
  | .ok a => .ok a s
  | .error e => .error e s

@[simp] theorem lift_ok (a : α) (s : σ) :
    (lift (.ok a) : EStateM ε σ α) s = .ok a s := rfl

@[simp] theorem lift_error (e : ε) (s : σ) :
    (lift (.error e) : EStateM ε σ α) s = .error e s := rfl

theorem lift_eq_ok {x : Except ε α} {s s' : σ} {a : α} :
    (lift x : EStateM ε σ α) s = .ok a s' ↔ x = .ok a ∧ s' = s := by
  cases x <;> simp [lift, eq_comm]

@[simp] theorem finalState_lift (x : Except ε α) (s : σ) :
    finalState (lift x s : EStateM.Result ε σ α) = s := by
  cases x <;> rfl

/-! ## Computations in lockstep -/

section Lockstep

variable {γ δ : Type} {R : α → β → Prop} {S : γ → δ → Prop}

/-- Both computations succeed, with related results, or both fail. -/
inductive Lockstep (R : α → β → Prop) : Except ε α → Except ε β → Prop
  | ok {a : α} {b : β} (h : R a b) : Lockstep R (.ok a) (.ok b)
  | error (e e' : ε) : Lockstep R (.error e) (.error e')

namespace Lockstep

theorem refl {R : α → α → Prop} (hR : ∀ a, R a a) (x : Except ε α) : Lockstep R x x := by
  cases x with
  | ok a => exact .ok (hR a)
  | error e => exact .error e e

/-- Results may be told apart less. -/
theorem trans {T : β → γ → Prop} {U : α → γ → Prop} {x : Except ε α} {y : Except ε β}
    {z : Except ε γ} (hxy : Lockstep R x y) (hyz : Lockstep T y z)
    (hU : ∀ a b c, R a b → T b c → U a c) : Lockstep U x z := by
  cases hxy with
  | ok h =>
      cases hyz with
      | ok h' => exact .ok (hU _ _ _ h h')
  | error e e' =>
      cases hyz with
      | error _ e'' => exact .error e e''

/-- Sequencing rule. -/
theorem bind {x : Except ε α} {y : Except ε β} {f : α → Except ε γ} {g : β → Except ε δ}
    (hxy : Lockstep R x y) (hfg : ∀ a b, R a b → Lockstep S (f a) (g b)) :
    Lockstep S (x >>= f) (y >>= g) := by
  cases hxy with
  | ok h => exact hfg _ _ h
  | error e e' => exact .error e e'

/-- The same case is taken on both sides. -/
theorem ite {p : Prop} [Decidable p] {x x' : Except ε α} {y y' : Except ε β}
    (hpos : p → Lockstep R x y) (hneg : ¬ p → Lockstep R x' y') :
    Lockstep R (if p then x else x') (if p then y else y') := by
  by_cases h : p
  · rw [if_pos h, if_pos h]
    exact hpos h
  · rw [if_neg h, if_neg h]
    exact hneg h

/-- What succeeds on one side succeeds on the other. -/
theorem exists_of_ok {x : Except ε α} {y : Except ε β} (hxy : Lockstep R x y) {a : α}
    (h : x = .ok a) : ∃ b, y = .ok b ∧ R a b := by
  cases hxy with
  | ok hR => exact ⟨_, rfl, Except.ok.inj h ▸ hR⟩
  | error e e' => exact absurd h (by simp)

/-- Computations that succeed in the same cases, and then with related results. -/
theorem of_exists_iff {x : Except ε α} {y : Except ε β} (hiff : (∃ a, x = .ok a) ↔ ∃ b, y = .ok b)
    (hR : ∀ a b, x = .ok a → y = .ok b → R a b) : Lockstep R x y := by
  cases x with
  | ok a =>
      obtain ⟨b, rfl⟩ := hiff.mp ⟨a, rfl⟩
      exact .ok (hR a b rfl rfl)
  | error e =>
      cases y with
      | ok b =>
          obtain ⟨a, ha⟩ := hiff.mpr ⟨b, rfl⟩
          exact absurd ha (by simp)
      | error e' => exact .error e e'

theorem exists_iff {x : Except ε α} {y : Except ε β} (hxy : Lockstep R x y) :
    (∃ a, x = .ok a) ↔ ∃ b, y = .ok b := by
  cases hxy <;> simp

end Lockstep

end Lockstep

/-! ## Computations that are pure under an invariant -/

/-- What a computation returns or raises, without the state. -/
def outcome : EStateM.Result ε σ α → Except ε α
  | .ok a _ => .ok a
  | .error e _ => .error e

@[simp] theorem outcome_ok (a : α) (s : σ) :
    outcome (.ok a s : EStateM.Result ε σ α) = .ok a := rfl

@[simp] theorem outcome_error (e : ε) (s : σ) :
    outcome (.error e s : EStateM.Result ε σ α) = .error e := rfl

@[simp] theorem outcome_lift (x : Except ε α) (s : σ) :
    outcome (lift x s : EStateM.Result ε σ α) = x := by
  cases x <;> rfl

theorem outcome_eq_ok {r : EStateM.Result ε σ α} {a : α} :
    outcome r = .ok a ↔ ∃ s, r = .ok a s := by
  cases r <;> simp

theorem outcome_eq_error {r : EStateM.Result ε σ α} {e : ε} :
    outcome r = .error e ↔ ∃ s, r = .error e s := by
  cases r <;> simp

/-- From every state that meets `Inv` the computation `m` comes to `r`, and it
    keeps `Inv`, also where it raises. -/
def Yields (Inv : σ → Prop) (m : EStateM ε σ α) (r : Except ε α) : Prop :=
  ∀ s, Inv s → outcome (m s) = r ∧ Inv (finalState (m s))

theorem yields_pure {Inv : σ → Prop} (a : α) : Yields Inv (pure a : EStateM ε σ α) (.ok a) :=
  fun _ hs => ⟨rfl, hs⟩

theorem yields_throw {Inv : σ → Prop} (e : ε) : Yields Inv (throw e : EStateM ε σ α) (.error e) :=
  fun _ hs => ⟨rfl, hs⟩

theorem yields_lift {Inv : σ → Prop} (r : Except ε α) :
    Yields Inv (lift r : EStateM ε σ α) r := by
  intro s hs
  rw [outcome_lift, finalState_lift]
  exact ⟨rfl, hs⟩

/-- Sequencing rule: the steps in a row come to what their outcomes in a row do. -/
theorem Yields.bind {Inv : σ → Prop} {m : EStateM ε σ α} {r : Except ε α}
    {f : α → EStateM ε σ β} {g : α → Except ε β} (hm : Yields Inv m r)
    (hf : ∀ a, r = .ok a → Yields Inv (f a) (g a)) : Yields Inv (m >>= f) (r >>= g) := by
  intro s hs
  obtain ⟨hout, hinv⟩ := hm s hs
  cases hms : m s with
  | ok a t =>
      rw [hms] at hout hinv
      rw [bind_of_ok hms, ← hout]
      exact hf a hout.symm t hinv
  | error e t =>
      rw [hms] at hout hinv
      rw [bind_of_error hms, ← hout]
      exact ⟨rfl, hinv⟩

/-- The same, where the first step returns. -/
theorem Yields.bind_ok {Inv : σ → Prop} {m : EStateM ε σ α} {a : α} {f : α → EStateM ε σ β}
    {r : Except ε β} (hm : Yields Inv m (.ok a)) (hf : Yields Inv (f a) r) :
    Yields Inv (m >>= f) r := by
  refine hm.bind (g := fun _ => r) fun b hb => ?_
  obtain rfl := Except.ok.inj hb
  exact hf

/-- And where it raises. -/
theorem Yields.bind_error {Inv : σ → Prop} {m : EStateM ε σ α} {e : ε} {f : α → EStateM ε σ β}
    (hm : Yields Inv m (.error e)) : Yields Inv (m >>= f) (.error e) :=
  hm.bind (g := fun _ => .error e) fun _ hb => nomatch hb

/-! ## Computations that keep an invariant -/

/-- The computation `m` keeps `Inv`, also where it raises, and `Post` holds of what it
    returns. -/
def Ensures (Inv : σ → Prop) (m : EStateM ε σ α) (Post : α → Prop) : Prop :=
  ∀ s, Inv s → Inv (finalState (m s)) ∧ ∀ a t, m s = .ok a t → Post a

theorem ensures_pure {Inv : σ → Prop} {Post : α → Prop} {a : α} (h : Post a) :
    Ensures Inv (pure a : EStateM ε σ α) Post := by
  refine fun s hs => ⟨hs, fun b t heq => ?_⟩
  obtain ⟨rfl, -⟩ := EStateM.Result.ok.inj heq
  exact h

theorem ensures_throw {Inv : σ → Prop} {Post : α → Prop} (e : ε) :
    Ensures Inv (throw e : EStateM ε σ α) Post :=
  fun _ hs => ⟨hs, fun _ _ heq => absurd heq (by simp)⟩

theorem ensures_lift {Inv : σ → Prop} {Post : α → Prop} {x : Except ε α}
    (h : ∀ a, x = .ok a → Post a) : Ensures Inv (lift x : EStateM ε σ α) Post :=
  fun s hs => ⟨by rwa [finalState_lift], fun a _ heq => h a (lift_eq_ok.mp heq).1⟩

theorem ensures_get {Inv : σ → Prop} : Ensures Inv (get : EStateM ε σ σ) Inv := by
  refine fun s hs => ⟨hs, fun a t heq => ?_⟩
  obtain ⟨rfl, -⟩ := EStateM.Result.ok.inj heq
  exact hs

theorem ensures_set {Inv : σ → Prop} {t : σ} (ht : Inv t) :
    Ensures Inv (set t : EStateM ε σ PUnit) (fun _ => True) :=
  fun _ _ => ⟨ht, fun _ _ _ => trivial⟩

theorem ensures_modify {Inv : σ → Prop} {f : σ → σ} (hf : ∀ s, Inv s → Inv (f s)) :
    Ensures Inv (modify f : EStateM ε σ PUnit) (fun _ => True) :=
  fun s hs => ⟨hf s hs, fun _ _ _ => trivial⟩

/-- Sequencing rule: what follows may count on what the first step returned. -/
theorem Ensures.bind {Inv : σ → Prop} {m : EStateM ε σ α} {P : α → Prop}
    {f : α → EStateM ε σ β} {Q : β → Prop} (hm : Ensures Inv m P)
    (hf : ∀ a, P a → Ensures Inv (f a) Q) : Ensures Inv (m >>= f) Q := by
  intro s hs
  obtain ⟨hinv, hpost⟩ := hm s hs
  cases hms : m s with
  | ok a t =>
      rw [hms] at hinv
      rw [bind_of_ok hms]
      exact hf a (hpost a t hms) t hinv
  | error e t =>
      rw [hms] at hinv
      rw [bind_of_error hms]
      exact ⟨hinv, fun _ _ heq => absurd heq (by simp)⟩

/-- Where the computation returns, the invariant holds afterwards. -/
theorem Ensures.of_ok {Inv : σ → Prop} {m : EStateM ε σ α} {P : α → Prop} (h : Ensures Inv m P)
    {s t : σ} {a : α} (hs : Inv s) (hm : m s = .ok a t) : Inv t := by
  have hkept := (h s hs).1
  rwa [hm, finalState_ok] at hkept

theorem Ensures.mono {Inv : σ → Prop} {m : EStateM ε σ α} {P Q : α → Prop} (h : Ensures Inv m P)
    (himp : ∀ a, P a → Q a) : Ensures Inv m Q :=
  fun s hs => ⟨(h s hs).1, fun a t heq => himp a ((h s hs).2 a t heq)⟩

/-- Run `m` on the component of the state that `view` reads and `put` writes. -/
def zoom (view : σ → τ) (put : τ → σ → σ) (m : EStateM ε τ α) : EStateM ε σ α := fun s =>
  match m (view s) with
  | .ok a t => .ok a (put t s)
  | .error e t => .error e (put t s)

theorem zoom_eq_ok {view : σ → τ} {put : τ → σ → σ} {m : EStateM ε τ α} {s s' : σ} {a : α} :
    zoom view put m s = .ok a s' ↔ ∃ t, m (view s) = .ok a t ∧ s' = put t s := by
  simp only [zoom]
  cases m (view s) <;> simp [eq_comm]

theorem zoom_of_ok {view : σ → τ} {put : τ → σ → σ} {m : EStateM ε τ α} {s : σ} {t : τ} {a : α}
    (h : m (view s) = .ok a t) : zoom view put m s = .ok a (put t s) := by
  simp only [zoom, h]

theorem zoom_of_error {view : σ → τ} {put : τ → σ → σ} {m : EStateM ε τ α} {s : σ} {t : τ} {e : ε}
    (h : m (view s) = .error e t) : zoom view put m s = .error e (put t s) := by
  simp only [zoom, h]

/-- What a computation ensures on its component it ensures on the whole. -/
theorem Ensures.zoom {view : σ → τ} {put : τ → σ → σ} (hput : ∀ t s, view (put t s) = t)
    {Inv : τ → Prop} {m : EStateM ε τ α} {Post : α → Prop} (hm : Ensures Inv m Post) :
    Ensures (fun s => Inv (view s)) (zoom view put m) Post := by
  intro s hs
  obtain ⟨hinv, hpost⟩ := hm (view s) hs
  unfold Lib.zoom
  cases hms : m (view s) with
  | ok a t =>
      rw [hms] at hinv
      refine ⟨by simpa only [finalState_ok, hput] using hinv, fun b s' heq => ?_⟩
      obtain ⟨rfl, -⟩ := EStateM.Result.ok.inj heq
      exact hpost a t hms
  | error e t =>
      rw [hms] at hinv
      refine ⟨by simpa only [finalState_error, hput] using hinv, fun b s' heq => ?_⟩
      exact absurd heq (by simp)

/-- And it keeps an invariant of the whole that speaks of the component, if what it does to
    the component does no harm to the rest. -/
theorem Ensures.zoom_within {view : σ → τ} {put : τ → σ → σ} {Inv : τ → Prop} {Inv' : σ → Prop}
    {m : EStateM ε τ α} {Post : α → Prop} (hm : Ensures Inv m Post)
    (hview : ∀ s, Inv' s → Inv (view s)) (hput : ∀ t s, Inv t → Inv' s → Inv' (put t s)) :
    Ensures Inv' (Lib.zoom view put m) Post := by
  intro s hs
  obtain ⟨hinv, hpost⟩ := hm (view s) (hview s hs)
  unfold Lib.zoom
  cases hms : m (view s) with
  | ok a t =>
      rw [hms] at hinv
      refine ⟨hput t s hinv hs, fun b s' heq => ?_⟩
      obtain ⟨rfl, -⟩ := EStateM.Result.ok.inj heq
      exact hpost a t hms
  | error e t =>
      rw [hms] at hinv
      exact ⟨hput t s hinv hs, fun b s' heq => absurd heq (by simp)⟩

/-- A computation on a component that may be written without harm. -/
theorem ensures_zoom {view : σ → τ} {put : τ → σ → σ} {Inv : σ → Prop}
    (hput : ∀ t s, Inv s → Inv (put t s)) (m : EStateM ε τ α) :
    Ensures Inv (zoom view put m) (fun _ => True) := by
  refine fun s hs => ⟨?_, fun _ _ _ => trivial⟩
  unfold Lib.zoom
  cases m (view s) with
  | ok a t => exact hput t s hs
  | error e t => exact hput t s hs

/-- What a computation comes to on a part of the state it comes to on the whole, if the
    invariant of the whole speaks of that part. -/
theorem Yields.zoom {view : σ → τ} {put : τ → σ → σ} {Inv : τ → Prop} {Inv' : σ → Prop}
    {m : EStateM ε τ α} {r : Except ε α} (h : Yields Inv m r) (hview : ∀ s, Inv' s → Inv (view s))
    (hput : ∀ t s, Inv t → Inv' s → Inv' (put t s)) : Yields Inv' (Lib.zoom view put m) r := by
  intro s hs
  obtain ⟨hout, hinv⟩ := h (view s) (hview s hs)
  unfold Lib.zoom
  cases hm : m (view s) with
  | ok a t =>
      rw [hm] at hout hinv
      exact ⟨hout, hput t s hinv hs⟩
  | error e t =>
      rw [hm] at hout hinv
      exact ⟨hout, hput t s hinv hs⟩

/-! ## Runs: sequences of calls sharing the state -/

/-- The state left by a sequence of calls of `op`, one for each input. -/
def runState (op : ι → EStateM ε σ α) : σ → List ι → σ
  | s, [] => s
  | s, i :: is => runState op (finalState (op i s)) is

/-- The outcomes of a sequence of calls of `op`, in order. -/
def runOutcomes (op : ι → EStateM ε σ α) : σ → List ι → List (EStateM.Result ε σ α)
  | _, [] => []
  | s, i :: is => op i s :: runOutcomes op (finalState (op i s)) is

/-- Every call of the run is made in a state and with an input that meet `P`. -/
def RunMeets (op : ι → EStateM ε σ α) (P : σ → ι → Prop) : σ → List ι → Prop
  | _, [] => True
  | s, i :: is => P s i ∧ RunMeets op P (finalState (op i s)) is

@[simp] theorem runState_nil (op : ι → EStateM ε σ α) (s : σ) : runState op s [] = s := rfl

@[simp] theorem runState_cons (op : ι → EStateM ε σ α) (s : σ) (i : ι) (is : List ι) :
    runState op s (i :: is) = runState op (finalState (op i s)) is := rfl

theorem runState_append (op : ι → EStateM ε σ α) (s : σ) (is js : List ι) :
    runState op s (is ++ js) = runState op (runState op s is) js := by
  induction is generalizing s with
  | nil => rfl
  | cons i is ih => exact ih (finalState (op i s))

/-- Invariant rule for runs: an invariant that every call meeting `P` preserves
    holds at the end, and what such a call guarantees (`Q`) every call of the
    run does. -/
theorem run_invariant {op : ι → EStateM ε σ α} {P Q : σ → ι → Prop} (Inv : σ → Prop)
    (hstep : ∀ s i, Inv s → P s i → Inv (finalState (op i s)) ∧ Q s i)
    {s : σ} (is : List ι) (h0 : Inv s) (hmeets : RunMeets op P s is) :
    Inv (runState op s is) ∧ RunMeets op Q s is := by
  induction is generalizing s with
  | nil => exact ⟨h0, trivial⟩
  | cons i is ih =>
      obtain ⟨hp, hrest⟩ := hmeets
      obtain ⟨hinv, hq⟩ := hstep s i h0 hp
      obtain ⟨hlast, hall⟩ := ih hinv hrest
      exact ⟨hlast, hq, hall⟩

/-- The invariant rule for calls that keep it by themselves, on the inputs of the run. -/
theorem run_invariant_of_mem {op : ι → EStateM ε σ α} {Q : σ → ι → Prop} (Inv : σ → Prop)
    {is : List ι} (hstep : ∀ i ∈ is, ∀ s, Inv s → Inv (finalState (op i s)) ∧ Q s i)
    {s : σ} (h0 : Inv s) : Inv (runState op s is) ∧ RunMeets op Q s is := by
  induction is generalizing s with
  | nil => exact ⟨h0, trivial⟩
  | cons i is ih =>
      obtain ⟨hinv, hq⟩ := hstep i (List.mem_cons_self ..) s h0
      obtain ⟨hlast, hall⟩ := ih (fun j hj => hstep j (List.mem_cons_of_mem i hj)) hinv
      exact ⟨hlast, hq, hall⟩

/-- An invariant that every call keeps holds after every run. -/
theorem Ensures.runState {op : ι → EStateM ε σ α} {Inv : σ → Prop} {Post : ι → α → Prop}
    (h : ∀ i, Ensures Inv (op i) (Post i)) {s : σ} (hs : Inv s) (is : List ι) :
    Inv (runState op s is) := by
  induction is generalizing s with
  | nil => exact hs
  | cons i is ih => exact ih (h i s hs).1

/-- What every call returns when the invariant holds, it returns in every run. -/
theorem Ensures.runOutcomes {op : ι → EStateM ε σ α} {Inv : σ → Prop} {Post : α → Prop} {s : σ}
    (hs : Inv s) {is : List ι} (h : ∀ i ∈ is, Ensures Inv (op i) Post) {a : α} {t : σ}
    (hmem : .ok a t ∈ runOutcomes op s is) : Post a := by
  induction is generalizing s with
  | nil => exact absurd hmem List.not_mem_nil
  | cons i is ih =>
      obtain ⟨hinv, hpost⟩ := h i (List.mem_cons_self ..) s hs
      rcases List.mem_cons.mp hmem with heq | hmem
      · exact hpost a t heq.symm
      · exact ih hinv (fun j hj => h j (List.mem_cons_of_mem i hj)) hmem

/-- What every call of a run guarantees of its outcome holds of all outcomes. -/
theorem RunMeets.outcomes {op : ι → EStateM ε σ α} {Post : EStateM.Result ε σ α → Prop}
    {s : σ} {is : List ι} (h : RunMeets op (fun s i => Post (op i s)) s is) :
    ∀ r ∈ runOutcomes op s is, Post r := by
  induction is generalizing s with
  | nil => exact fun r hr => absurd hr List.not_mem_nil
  | cons i is ih =>
      intro r hr
      rcases List.mem_cons.mp hr with rfl | hr
      · exact h.1
      · exact ih h.2 r hr

/-- What the calls of a run leave in a log, `log` giving the entries of one call. -/
def runLog (op : ι → EStateM ε σ α) (log : σ → ι → List β) : σ → List ι → List β
  | _, [] => []
  | s, i :: is => log s i ++ runLog op log (finalState (op i s)) is

/-- All entries of the log are as wanted exactly when those of each call are. -/
theorem forall_mem_runLog {op : ι → EStateM ε σ α} {log : σ → ι → List β} {Want : β → Prop}
    {s : σ} {is : List ι} :
    (∀ b ∈ runLog op log s is, Want b) ↔
      RunMeets op (fun s i => ∀ b ∈ log s i, Want b) s is := by
  induction is generalizing s with
  | nil => simp [runLog, RunMeets]
  | cons i is ih =>
      rw [runLog, RunMeets, List.forall_mem_append, ih]

/-- Two conditions on calls that agree under an invariant, which the calls that meet one
    of them keep, agree on every run. -/
theorem runMeets_iff_of_invariant {op : ι → EStateM ε σ α} {P Q : σ → ι → Prop} (Inv : σ → Prop)
    (hiff : ∀ s i, Inv s → (P s i ↔ Q s i))
    (hkeep : ∀ s i, Inv s → P s i → Inv (finalState (op i s))) {s : σ} (h0 : Inv s)
    (is : List ι) : RunMeets op P s is ↔ RunMeets op Q s is := by
  induction is generalizing s with
  | nil => exact Iff.rfl
  | cons i is ih =>
      rw [RunMeets, RunMeets, hiff s i h0]
      exact and_congr_right fun hq => ih (hkeep s i h0 ((hiff s i h0).mpr hq))

/-- Two conditions on calls that agree on the inputs of a run agree on the run. -/
theorem runMeets_congr {op : ι → EStateM ε σ α} {P Q : σ → ι → Prop} {s : σ} {is : List ι}
    (h : ∀ i ∈ is, ∀ s, P s i ↔ Q s i) : RunMeets op P s is ↔ RunMeets op Q s is := by
  induction is generalizing s with
  | nil => exact Iff.rfl
  | cons i is ih =>
      rw [RunMeets, RunMeets, h i (List.mem_cons_self ..),
        ih fun j hj => h j (List.mem_cons_of_mem i hj)]

end Fedservice.Lib
