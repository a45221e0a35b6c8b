/-
  Fedservice.Lib.Acyclic

  Walks along a relation: where a walk reaches finitely many points, it ends
  however it is continued exactly when none of these points leads back to
  itself.
-/

import Mathlib.Data.Fintype.Card
import Mathlib.Data.Fintype.EquivFin

namespace Fedservice.Lib

open Relation

variable {α : Type} {r : α → α → Prop} {x : α}

/-- No walk from `x` comes to a point that leads back to itself. -/
def NoCycleFrom (r : α → α → Prop) (x : α) : Prop :=
  ∀ y, ReflTransGen r x y → ¬ TransGen r y y

theorem NoCycleFrom.step {y : α} (h : NoCycleFrom r x) (hstep : r x y) : NoCycleFrom r y :=
  fun z hz => h z (ReflTransGen.head hstep hz)

/-- Fewer steps make no new cycles. -/
theorem NoCycleFrom.mono {r' : α → α → Prop} (h : NoCycleFrom r x) (hle : ∀ y z, r' y z → r y z) :
    NoCycleFrom r' x := by
  intro y hreach hcycle
  exact h y (ReflTransGen.mono hle x y hreach) (TransGen.mono hle y y hcycle)

/-- Fewer steps from the points that can be come to make no new cycles. -/
theorem NoCycleFrom.mono_on {r' : α → α → Prop} {s : Set α} (h : NoCycleFrom r x) (hx : x ∈ s)
    (hle : ∀ y ∈ s, ∀ z, r' y z → r y z ∧ z ∈ s) : NoCycleFrom r' x := by
  have hwalk : ∀ y ∈ s, ∀ z, TransGen r' y z → TransGen r y z ∧ z ∈ s := by
    intro y hy z hreach
    induction hreach with
    | single hstep =>
        obtain ⟨hstep', hmem⟩ := hle y hy _ hstep
        exact ⟨TransGen.single hstep', hmem⟩
    | tail _ hstep ih =>
        obtain ⟨hstep', hmem⟩ := hle _ ih.2 _ hstep
        exact ⟨ih.1.tail hstep', hmem⟩
  intro y hreach hcycle
  rcases reflTransGen_iff_eq_or_transGen.mp hreach with rfl | hreach
  · exact h y .refl (hwalk y hx y hcycle).1
  · obtain ⟨hreach', hy⟩ := hwalk x hx y hreach
    exact h y hreach'.to_reflTransGen (hwalk y hy y hcycle).1

/-- Where every step goes down a level there are no cycles. -/
theorem noCycleFrom_of_level {s : Finset α} (level : α → Nat)
    (hdown : ∀ y ∈ s, ∀ z, r y z → z ∈ s ∧ level z < level y) (hx : x ∈ s) : NoCycleFrom r x := by
  have hwalk : ∀ y ∈ s, ∀ z, TransGen r y z → z ∈ s ∧ level z < level y := by
    intro y hy z hreach
    induction hreach with
    | single hstep => exact hdown y hy _ hstep
    | tail _ hstep ih =>
        obtain ⟨hmem, hlt⟩ := ih
        obtain ⟨hmem', hlt'⟩ := hdown _ hmem _ hstep
        exact ⟨hmem', hlt'.trans hlt⟩
  intro y hreach hcycle
  have hy : y ∈ s := by
    rcases reflTransGen_iff_eq_or_transGen.mp hreach with rfl | hreach
    · exact hx
    · exact (hwalk x hx y hreach).1
  exact lt_irrefl _ (hwalk y hy y hcycle).2

/-- Where every walk ends, a point does not lead back to itself. -/
theorem not_transGen_of_acc (h : Acc (flip r) x) : ¬ TransGen r x x := by
  have hacc : Acc (TransGen (flip r)) x := h.transGen
  clear h
  induction hacc with
  | intro y _ ih =>
      intro hcycle
      have hback : TransGen (flip r) y y := transGen_swap.mpr hcycle
      exact ih y hback hcycle

/-- Every walk from `x` ends exactly when it meets no cycle. -/
theorem acc_iff_noCycleFrom (s : Finset α) (hs : ∀ y, ReflTransGen r x y → y ∈ s) :
    Acc (flip r) x ↔ NoCycleFrom r x := by
  constructor
  · -- what is reached can be walked from for no longer than what it is reached from
    intro hacc y hy
    have hacc' : Acc (flip r) y := by
      induction hy with
      | refl => exact hacc
      | tail _ hstep ih => exact ih.inv hstep
    exact not_transGen_of_acc hacc'
  · intro hcycle
    -- a transitive irreflexive relation on finitely many points is well-founded
    let Reached := {y // ReflTransGen r x y}
    have hfinite : Finite Reached := by
      have hsub : ∀ y : Reached, y.1 ∈ s := fun y => hs y.1 y.2
      exact Finite.of_injective (fun y => (⟨y.1, hsub y⟩ : s))
        (fun a b hab => Subtype.ext (congrArg (fun z : s => z.1) hab))
    let above : Reached → Reached → Prop := fun a b => TransGen r b.1 a.1
    have : IsTrans Reached above := ⟨fun _ _ _ hab hbc => hbc.trans hab⟩
    have : Std.Irrefl above := ⟨fun a => hcycle a.1 a.2⟩
    have hwf : WellFounded above := Finite.wellFounded_of_trans_of_irrefl above
    have hall : ∀ a : Reached, Acc (flip r) a.1 := by
      intro a
      induction a using hwf.induction with
      | _ a ih =>
          refine Acc.intro _ fun y (hy : r a.1 y) => ?_
          exact ih ⟨y, a.2.tail hy⟩ (TransGen.single hy)
    exact hall ⟨x, ReflTransGen.refl⟩

/-- A walk that leaves `P` for good leaves it at a last point. -/
theorem exists_last_of_reflTransGen {P : α → Prop} {y : α} (h : ReflTransGen r x y) (hx : P x)
    (hy : ¬ P y) : ∃ a b, ReflTransGen r x a ∧ P a ∧ r a b ∧ ¬ P b ∧
      ReflTransGen (fun c d => r c d ∧ ¬ P c ∧ ¬ P d) b y := by
  induction h with
  | refl => exact absurd hx hy
  | @tail z y hwalk hstep ih =>
      by_cases hz : P z
      · exact ⟨z, y, hwalk, hz, hstep, hy, .refl⟩
      · obtain ⟨a, b, hbefore, ha, hleave, hb, hafter⟩ := ih hz
        exact ⟨a, b, hbefore, ha, hleave, hb, hafter.tail ⟨hstep, hz, hy⟩⟩

end Fedservice.Lib
