/-
  Fedservice.Lib.Routes

  Routes along a relation: from a point, one step after the other, to a point that
  leads nowhere.
-/

import Fedservice.Lib.Acyclic

namespace Fedservice.Lib

open Relation

variable {α : Type} {r : α → α → Prop}

/-- The points that are come by on a route from `x`, down to the last one. -/
inductive Route (r : α → α → Prop) : α → List α → Prop
  | last {x a : α} (hstep : r x a) (hend : ∀ b, ¬ r a b) : Route r x [a]
  | step {x a : α} {route : List α} (hstep : r x a) (hroute : Route r a route) :
      Route r x (a :: route)

namespace Route

theorem ne_nil {x : α} {route : List α} (h : Route r x route) : route ≠ [] := by
  cases h <;> simp

/-- The first step of a route, which ends there or goes on. -/
theorem cons_iff {x a : α} {route : List α} :
    Route r x (a :: route) ↔ r x a ∧ ((route = [] ∧ ∀ b, ¬ r a b) ∨ Route r a route) := by
  constructor
  · intro h
    cases h with
    | last hstep hend => exact ⟨hstep, Or.inl ⟨rfl, hend⟩⟩
    | step hstep hroute => exact ⟨hstep, Or.inr hroute⟩
  · rintro ⟨hstep, ⟨rfl, hend⟩ | hroute⟩
    · exact .last hstep hend
    · exact .step hstep hroute

/-- All that is come by is reached. -/
theorem reaches {x a : α} {route : List α} (h : Route r x route) (ha : a ∈ route) :
    TransGen r x a := by
  induction h with
  | last hstep _ =>
      obtain rfl := List.mem_singleton.mp ha
      exact TransGen.single hstep
  | step hstep _ ih =>
      rcases List.mem_cons.mp ha with rfl | ha
      · exact TransGen.single hstep
      · exact TransGen.head hstep (ih ha)

/-- A route ends where nothing follows. -/
theorem ends {x a : α} {route : List α} (h : Route r x route) (ha : a ∈ route.getLast?) :
    ∀ b, ¬ r a b := by
  induction h with
  | last _ hend =>
      obtain rfl : _ = a := by simpa using ha
      exact hend
  | step _ hroute ih =>
      refine ih ?_
      obtain ⟨b, rest, rfl⟩ := List.exists_cons_of_ne_nil hroute.ne_nil
      simpa [List.getLast?_cons_cons] using ha

/-- Relations that agree where a walk can come to have the same routes. -/
theorem of_agree {r' : α → α → Prop} {s : Set α} (hagree : ∀ y ∈ s, ∀ z, r y z ↔ r' y z)
    (hclosed : ∀ y ∈ s, ∀ z, r y z → z ∈ s) {x : α} (hx : x ∈ s) {route : List α}
    (h : Route r x route) : Route r' x route := by
  induction h with
  | @last x a hstep hend =>
      have ha : a ∈ s := hclosed x hx a hstep
      exact .last ((hagree x hx a).mp hstep) fun b hb => hend b ((hagree a ha b).mpr hb)
  | @step x a route hstep _ ih =>
      exact .step ((hagree x hx a).mp hstep) (ih (hclosed x hx a hstep))

end Route

end Fedservice.Lib
