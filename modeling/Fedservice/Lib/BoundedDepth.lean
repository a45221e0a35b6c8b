/-
  Fedservice.Lib.BoundedDepth

  A recursion along a relation that is given so many levels of a stack, and
  fails when they are used up.  With enough levels it succeeds exactly where
  every walk along the relation ends and each point on the way is in order
  (`exists_iff`).
-/

import Mathlib.Data.Finset.Lattice.Fold
import Fedservice.Lib.Acyclic

namespace Fedservice.Lib

open Relation

variable {α : Type}

/-- `succeeds depth x`: the recursion gets through from `x`, given `depth` levels.  It does if
    `x` is in order and it gets through, with one level less, from all that `r` leads to. -/
structure BoundedDepth (s : Finset α) (r : α → α → Prop) (inOrder : α → Prop)
    (succeeds : Nat → α → Prop) : Prop where
  closed : ∀ x ∈ s, ∀ y, r x y → y ∈ s
  zero : ∀ x ∈ s, ¬ succeeds 0 x
  succ : ∀ depth, ∀ x ∈ s,
    succeeds (depth + 1) x ↔ inOrder x ∧ ∀ y, r x y → succeeds depth y

namespace BoundedDepth

variable {s : Finset α} {r : α → α → Prop} {inOrder : α → Prop} {succeeds : Nat → α → Prop}
  (h : BoundedDepth s r inOrder succeeds)

include h

theorem mem_of_reaches {x y : α} (hx : x ∈ s) (hreach : ReflTransGen r x y) : y ∈ s := by
  induction hreach with
  | refl => exact hx
  | tail _ hstep ih => exact h.closed _ ih _ hstep

/-- A deeper stack does no harm. -/
theorem mono {depth depth' : Nat} (hle : depth ≤ depth') {x : α} (hx : x ∈ s)
    (hsucceeds : succeeds depth x) : succeeds depth' x := by
  induction depth generalizing depth' x with
  | zero => exact absurd hsucceeds (h.zero x hx)
  | succ depth ih =>
      obtain ⟨depth', rfl⟩ : ∃ n, depth' = n + 1 := ⟨depth' - 1, by omega⟩
      obtain ⟨horder, hnext⟩ := (h.succ depth x hx).mp hsucceeds
      refine (h.succ depth' x hx).mpr ⟨horder, fun y hy => ?_⟩
      exact ih (by omega) (h.closed x hx y hy) (hnext y hy)

/-- Each level of the stack is one step of a walk. -/
theorem acc_of_succeeds {depth : Nat} {x : α} (hx : x ∈ s) (hsucceeds : succeeds depth x) :
    Acc (flip r) x := by
  induction depth generalizing x with
  | zero => exact absurd hsucceeds (h.zero x hx)
  | succ depth ih =>
      refine Acc.intro x fun y (hy : r x y) => ?_
      exact ih (h.closed x hx y hy) (((h.succ depth x hx).mp hsucceeds).2 y hy)

/-- It gets to all that can be reached. -/
theorem inOrder_of_succeeds {depth : Nat} {x y : α} (hx : x ∈ s) (hsucceeds : succeeds depth x)
    (hreach : ReflTransGen r x y) : inOrder y := by
  induction hreach using ReflTransGen.head_induction_on generalizing depth with
  | refl =>
      cases depth with
      | zero => exact absurd hsucceeds (h.zero y hx)
      | succ depth => exact ((h.succ depth y hx).mp hsucceeds).1
  | @head x z hstep _ ih =>
      cases depth with
      | zero => exact absurd hsucceeds (h.zero x hx)
      | succ depth =>
          exact ih (h.closed x hx z hstep) (((h.succ depth x hx).mp hsucceeds).2 z hstep)

/-- Where every walk ends, some stack is deep enough. -/
theorem succeeds_of_acc {x : α} (hacc : Acc (flip r) x) (hx : x ∈ s)
    (horder : ∀ y, ReflTransGen r x y → inOrder y) : ∃ depth, succeeds depth x := by
  induction hacc with
  | intro x _ ih =>
      -- for each point a depth, and for all of them the largest
      have hdepth : ∀ y ∈ s, ∃ depth, r x y → succeeds depth y := by
        intro y hy
        by_cases hstep : r x y
        · obtain ⟨depth, hdepth⟩ :=
            ih y hstep hy fun z hz => horder z (ReflTransGen.head hstep hz)
          exact ⟨depth, fun _ => hdepth⟩
        · exact ⟨0, fun hyes => absurd hyes hstep⟩
      choose! depthOf hdepthOf using hdepth
      refine ⟨s.sup depthOf + 1, (h.succ _ x hx).mpr ⟨horder x .refl, fun y hstep => ?_⟩⟩
      have hy := h.closed x hx y hstep
      exact h.mono (Finset.le_sup hy) hy (hdepthOf y hy hstep)

/-- Where no point that is reached leads back to itself, a level for each point is enough. -/
theorem succeeds_card {x : α} (hcycle : NoCycleFrom r x) (hx : x ∈ s)
    (horder : ∀ y, ReflTransGen r x y → inOrder y) : succeeds s.card x := by
  classical
  let reached (x : α) : Finset α := s.filter (ReflTransGen r x)
  -- fewer points are reached from one step further, the one it started from being left behind
  have hlevels : ∀ n, ∀ x ∈ s, (reached x).card ≤ n → NoCycleFrom r x →
      (∀ y, ReflTransGen r x y → inOrder y) → succeeds n x := by
    intro n
    induction n with
    | zero =>
        intro x hx hcard _ _
        have hself : x ∈ reached x := Finset.mem_filter.mpr ⟨hx, .refl⟩
        rw [Finset.card_eq_zero.mp (Nat.le_zero.mp hcard)] at hself
        exact absurd hself (Finset.notMem_empty x)
    | succ n ih =>
        intro x hx hcard hcycle horder
        refine (h.succ n x hx).mpr ⟨horder x .refl, fun y hstep => ?_⟩
        have hfewer : reached y ⊂ reached x := by
          refine Finset.ssubset_iff_subset_ne.mpr ⟨fun z hz => ?_, fun heq => ?_⟩
          · obtain ⟨hz, hreach⟩ := Finset.mem_filter.mp hz
            exact Finset.mem_filter.mpr ⟨hz, ReflTransGen.head hstep hreach⟩
          · have hback : x ∈ reached y := heq ▸ Finset.mem_filter.mpr ⟨hx, .refl⟩
            exact hcycle x .refl (TransGen.head' hstep (Finset.mem_filter.mp hback).2)
        have hlt := Finset.card_lt_card hfewer
        exact ih y (h.closed x hx y hstep) (by omega) (hcycle.step hstep)
          fun z hz => horder z (ReflTransGen.head hstep hz)
  exact hlevels s.card x hx (Finset.card_le_card (Finset.filter_subset _ s)) hcycle horder

/-- With enough levels the recursion gets through exactly if no point that is reached leads
    back to itself, and all of them are in order. -/
theorem exists_iff {x : α} (hx : x ∈ s) :
    (∃ depth, succeeds depth x) ↔
      NoCycleFrom r x ∧ ∀ y, ReflTransGen r x y → inOrder y := by
  rw [← acc_iff_noCycleFrom s fun y => h.mem_of_reaches hx]
  constructor
  · rintro ⟨depth, hsucceeds⟩
    exact ⟨h.acc_of_succeeds hx hsucceeds, fun y => h.inOrder_of_succeeds hx hsucceeds⟩
  · rintro ⟨hacc, horder⟩
    exact h.succeeds_of_acc hacc hx horder

end BoundedDepth

end Fedservice.Lib
