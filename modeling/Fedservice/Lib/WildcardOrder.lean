/-
  Fedservice.Lib.WildcardOrder

  Words over an alphabet with a wildcard letter, compared from the front: a
  word refines a pattern when it is at least as long and either agrees with it
  all the way or first differs from it where the pattern has the wildcard.
  Patterns are words themselves, and refinement is a preorder on them
  (`refines_refl`, `refines_trans`).
-/

import Mathlib.Data.List.Basic

namespace Fedservice.Lib

variable {α : Type} [DecidableEq α] (wild : α)

/-- No difference as far as both go, or the first one is at a wildcard of the
    second word. -/
def agrees : List α → List α → Bool
  | x :: xs, y :: ys => if x = y then agrees xs ys else decide (y = wild)
  | _, _ => true

/-- `a` is at least as specific as the pattern `b`. -/
def refines (a b : List α) : Bool := decide (b.length ≤ a.length) && agrees wild a b

theorem agrees_refl (a : List α) : agrees wild a a = true := by
  induction a with
  | nil => rfl
  | cons x xs ih => rw [agrees, if_pos rfl, ih]

theorem refines_refl (a : List α) : refines wild a a = true := by
  rw [refines, agrees_refl, decide_eq_true (Nat.le_refl _), Bool.and_self]

theorem agrees_trans : ∀ {a b c : List α}, b.length ≤ a.length → c.length ≤ b.length →
    agrees wild a b = true → agrees wild b c = true → agrees wild a c = true
  | a, _, [], _, _, _, _ => by cases a <;> rfl
  | _, [], _ :: _, _, hbc, _, _ => absurd hbc (by simp)
  | [], _ :: _, _ :: _, hab, _, _, _ => absurd hab (by simp)
  | x :: xs, y :: ys, z :: zs, hab, hbc, h1, h2 => by
      simp only [List.length_cons, Nat.add_le_add_iff_right] at hab hbc
      simp only [agrees] at h1 h2 ⊢
      by_cases hxy : x = y
      · subst hxy
        rw [if_pos rfl] at h1
        by_cases hxz : x = z
        · rw [if_pos hxz] at h2 ⊢
          exact agrees_trans hab hbc h1 h2
        · rw [if_neg hxz] at h2 ⊢
          exact h2
      · rw [if_neg hxy, decide_eq_true_eq] at h1
        by_cases hyz : y = z
        · subst hyz
          rw [if_neg hxy, decide_eq_true_eq]
          exact h1
        · -- a pattern that differs from the wildcard `y` would itself have it there
          rw [if_neg hyz, decide_eq_true_eq] at h2
          exact absurd (h1.trans h2.symm) hyz

theorem refines_trans {a b c : List α} (h1 : refines wild a b = true)
    (h2 : refines wild b c = true) : refines wild a c = true := by
  simp only [refines, Bool.and_eq_true, decide_eq_true_eq] at h1 h2 ⊢
  exact ⟨Nat.le_trans h2.1 h1.1, agrees_trans wild h1.1 h2.1 h1.2 h2.2⟩

/-! ## Patterns without the wildcard, and with it at the end -/

/-- Without the wildcard there is no difference only where the pattern leads. -/
theorem agrees_iff_leads : ∀ {a b : List α}, b.length ≤ a.length → wild ∉ b →
    (agrees wild a b = true ↔ b <+: a)
  | a, [], _, _ => by cases a <;> simp [agrees]
  | [], _ :: _, hlen, _ => absurd hlen (by simp)
  | x :: xs, y :: ys, hlen, hwild => by
      rw [List.mem_cons, not_or] at hwild
      have ih := agrees_iff_leads (Nat.le_of_succ_le_succ hlen) hwild.2
      rw [agrees, List.cons_prefix_cons]
      by_cases hxy : x = y
      · rw [if_pos hxy, ih]
        exact ⟨fun h => ⟨hxy.symm, h⟩, fun h => h.2⟩
      · simp [hxy, Ne.symm hxy, Ne.symm hwild.1]

/-- A wildcard at the end of the pattern agrees with any letter. -/
theorem agrees_concat_iff_leads : ∀ {a b : List α}, b.length < a.length → wild ∉ b →
    (agrees wild a (b ++ [wild]) = true ↔ b <+: a)
  | [], _, hlen, _ => absurd hlen (Nat.not_lt_zero _)
  | x :: xs, [], _, _ => by
      by_cases hx : x = wild <;> cases xs <;> simp [agrees, hx]
  | x :: xs, y :: ys, hlen, hwild => by
      rw [List.mem_cons, not_or] at hwild
      have ih := agrees_concat_iff_leads (Nat.lt_of_succ_lt_succ hlen) hwild.2
      rw [List.cons_append, agrees, List.cons_prefix_cons]
      by_cases hxy : x = y
      · rw [if_pos hxy, ih]
        exact ⟨fun h => ⟨hxy.symm, h⟩, fun h => h.2⟩
      · simp [hxy, Ne.symm hxy, Ne.symm hwild.1]

/-- A pattern without the wildcard is refined by what it leads. -/
theorem refines_iff_prefix {a b : List α} (hwild : wild ∉ b) :
    refines wild a b = true ↔ b <+: a := by
  rw [refines, Bool.and_eq_true, decide_eq_true_eq]
  constructor
  · rintro ⟨hlen, h⟩
    exact (agrees_iff_leads wild hlen hwild).mp h
  · intro h
    exact ⟨h.length_le, (agrees_iff_leads wild h.length_le hwild).mpr h⟩

/-- With the wildcard at its end it asks for one more letter. -/
theorem refines_concat_iff_prefix {a b : List α} (hwild : wild ∉ b) :
    refines wild a (b ++ [wild]) = true ↔ b <+: a ∧ b.length < a.length := by
  rw [refines, Bool.and_eq_true, decide_eq_true_eq, List.length_append, List.length_singleton]
  constructor
  · rintro ⟨hlen, h⟩
    exact ⟨(agrees_concat_iff_leads wild hlen hwild).mp h, hlen⟩
  · rintro ⟨h, hlen⟩
    exact ⟨hlen, (agrees_concat_iff_leads wild hlen hwild).mpr h⟩

end Fedservice.Lib
