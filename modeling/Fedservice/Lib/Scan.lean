/-
  Fedservice.Lib.Scan

  Looking for an element from the front of a list, where some elements end the
  search before they are looked at: `scan stop accept`.  What it finds is decided
  by the first element that is accepted and those in front of it, so that
  elements which neither stop nor are accepted may be left out.
-/

import Mathlib.Data.List.TakeWhile

namespace Fedservice.Lib

variable {α : Type} {stop accept keep : α → Bool}

/-- Whether an element is accepted before one stops the search. -/
def scan (stop accept : α → Bool) : List α → Bool
  | [] => false
  | a :: l => if stop a then false else if accept a then true else scan stop accept l

@[simp] theorem scan_nil : scan stop accept [] = false := rfl

theorem scan_cons {a : α} {l : List α} :
    scan stop accept (a :: l) =
      if stop a then false else if accept a then true else scan stop accept l := rfl

/-- The search succeeds exactly if neither the first element that is accepted nor one in front of
    it stops. -/
theorem scan_eq_true_iff {l : List α} :
    scan stop accept l = true ↔
      ∃ a, l.find? accept = some a ∧ stop a = false ∧
        ∀ b ∈ l.takeWhile (fun b => !accept b), stop b = false := by
  induction l with
  | nil => simp
  | cons x l ih =>
      rw [scan_cons]
      cases hstop : stop x with
      | true =>
          cases haccept : accept x <;> simp [haccept, hstop]
      | false =>
          cases haccept : accept x with
          | true => simp [haccept, hstop]
          | false => simp [haccept, hstop, ih]

/-- Where nothing is accepted the search fails. -/
theorem scan_eq_false {l : List α} (h : ∀ a ∈ l, accept a = false) :
    scan stop accept l = false := by
  rw [Bool.eq_false_iff]
  intro htrue
  obtain ⟨a, hfind, -⟩ := scan_eq_true_iff.mp htrue
  have haccept := List.find?_some hfind
  rw [h a (List.mem_of_find?_eq_some hfind)] at haccept
  exact Bool.noConfusion haccept

/-- What stands in front of the first element that is accepted, among some elements with all the
    accepted ones. -/
theorem takeWhile_not_filter (hkeep : ∀ a, accept a = true → keep a = true) (l : List α) :
    (l.filter keep).takeWhile (fun b => !accept b) =
      (l.takeWhile (fun b => !accept b)).filter keep := by
  induction l with
  | nil => rfl
  | cons x l ih =>
      cases haccept : accept x with
      | true => simp [haccept, hkeep x haccept]
      | false => cases hk : keep x <;> simp [haccept, hk, ih]

theorem find?_filter_of_accept (hkeep : ∀ a, accept a = true → keep a = true) (l : List α) :
    (l.filter keep).find? accept = l.find? accept := by
  rw [List.find?_filter]
  congr
  funext a
  cases haccept : accept a with
  | true => simp [hkeep a haccept]
  | false => simp

/-- A search among some elements with all the accepted ones succeeds in the whole list too,
    unless one of the others stops it. -/
theorem scan_eq_true_iff_filter (hkeep : ∀ a, accept a = true → keep a = true) {l : List α} :
    scan stop accept l = true ↔
      scan stop accept (l.filter keep) = true ∧
        ∀ b ∈ l.takeWhile (fun b => !accept b), keep b = false → stop b = false := by
  rw [scan_eq_true_iff, scan_eq_true_iff, find?_filter_of_accept hkeep,
    takeWhile_not_filter hkeep]
  constructor
  · rintro ⟨a, hfind, ha, hbefore⟩
    exact ⟨⟨a, hfind, ha, fun b hb => hbefore b (List.mem_filter.mp hb).1⟩,
      fun b hb _ => hbefore b hb⟩
  · rintro ⟨⟨a, hfind, ha, hkept⟩, hothers⟩
    refine ⟨a, hfind, ha, fun b hb => ?_⟩
    cases hk : keep b with
    | true => exact hkept b (List.mem_filter.mpr ⟨hb, hk⟩)
    | false => exact hothers b hb hk

end Fedservice.Lib
