/-
  Fedservice.Lib.UpdateEach

  A walk over keys in which the step at a key reads and writes only what is
  stored there, and may fail.  A walk that gets through a list without
  repetitions leaves at each key what its step says of what was there at the
  start, so in which order the keys were visited does not show in the result.
  A walk that only tests keeps the elements that are accepted.
-/

import Fedservice.Lib.ExState
import Mathlib.Logic.Function.Basic

namespace Fedservice.Lib

variable {κ β ε : Type} [DecidableEq κ]

/-- Run `f k` on what is stored at `k`, for one key after the other. -/
def updateEach (f : κ → β → Except ε β) : List κ → (κ → β) → Except ε (κ → β)
  | [], s => .ok s
  | k :: ks, s => do
      let b ← f k (s k)
      updateEach f ks (Function.update s k b)

variable {f : κ → β → Except ε β} {ks ks' : List κ} {s s' : κ → β}

/-- Step and run: the result of a walk, key by key. -/
theorem updateEach_eq_ok (hnodup : ks.Nodup) :
    updateEach f ks s = .ok s' ↔
      (∀ k ∈ ks, f k (s k) = .ok (s' k)) ∧ ∀ k, k ∉ ks → s' k = s k := by
  -- a later step finds at its key what was there at the start
  induction ks generalizing s with
  | nil =>
      constructor
      · intro h
        obtain rfl := Except.ok.inj h
        exact ⟨fun k hk => absurd hk List.not_mem_nil, fun _ _ => rfl⟩
      · rintro ⟨-, hframe⟩
        have hs : s' = s := funext (fun k => hframe k List.not_mem_nil)
        rw [hs]
        rfl
  | cons k ks ih =>
      obtain ⟨hnot, hnodup⟩ := List.nodup_cons.mp hnodup
      rw [updateEach, except_bind_eq_ok]
      constructor
      · rintro ⟨b, hb, hrest⟩
        obtain ⟨hall, hframe⟩ := (ih hnodup).mp hrest
        have hk : s' k = b := by rw [hframe k hnot, Function.update_self]
        refine ⟨fun c hc => ?_, fun c hc => ?_⟩
        · rcases List.mem_cons.mp hc with rfl | hc
          · rw [hb, hk]
          · have hne : c ≠ k := fun h => hnot (h ▸ hc)
            rw [← hall c hc, Function.update_of_ne hne]
        · obtain ⟨hne, hc⟩ := not_or.mp (fun h => hc (List.mem_cons.mpr h))
          rw [hframe c hc, Function.update_of_ne hne]
      · rintro ⟨hall, hframe⟩
        refine ⟨s' k, hall k List.mem_cons_self, (ih hnodup).mpr ⟨fun c hc => ?_, fun c hc => ?_⟩⟩
        · have hne : c ≠ k := fun h => hnot (h ▸ hc)
          rw [Function.update_of_ne hne]
          exact hall c (List.mem_cons_of_mem k hc)
        · by_cases hck : c = k
          · rw [hck, Function.update_self]
          · rw [Function.update_of_ne hck]
            exact hframe c (fun h => (List.mem_cons.mp h).elim hck hc)

/-- A walk gets through exactly if every step does on what was there at the start. -/
theorem exists_updateEach_iff (hnodup : ks.Nodup) :
    (∃ s', updateEach f ks s = .ok s') ↔ ∀ k ∈ ks, ∃ b, f k (s k) = .ok b := by
  induction ks generalizing s with
  | nil => exact ⟨fun _ k hk => absurd hk List.not_mem_nil, fun _ => ⟨s, rfl⟩⟩
  | cons k ks ih =>
      obtain ⟨hnot, hnodup⟩ := List.nodup_cons.mp hnodup
      have hsame : ∀ b, ∀ c ∈ ks, Function.update s k b c = s c := by
        intro b c hc
        have hne : c ≠ k := fun h => hnot (h ▸ hc)
        exact Function.update_of_ne hne b s
      rw [List.forall_mem_cons]
      constructor
      · rintro ⟨s', h⟩
        obtain ⟨b, hb, hrest⟩ := except_bind_eq_ok.mp h
        refine ⟨⟨b, hb⟩, fun c hc => ?_⟩
        rw [← hsame b c hc]
        exact (ih hnodup).mp ⟨s', hrest⟩ c hc
      · rintro ⟨⟨b, hb⟩, hall⟩
        obtain ⟨s', h⟩ : ∃ s', updateEach f ks (Function.update s k b) = .ok s' :=
          (ih hnodup).mpr (fun c hc => (hsame b c hc).symm ▸ hall c hc)
        exact ⟨s', except_bind_eq_ok.mpr ⟨b, hb, h⟩⟩

/-- The order of the walk does not show in its result. -/
theorem updateEach_perm (hperm : ks.Perm ks') (hnodup : ks.Nodup)
    (h : updateEach f ks s = .ok s') : updateEach f ks' s = .ok s' := by
  obtain ⟨hall, hframe⟩ := (updateEach_eq_ok hnodup).mp h
  refine (updateEach_eq_ok (hperm.nodup_iff.mp hnodup)).mpr ⟨fun k hk => ?_, fun k hk => ?_⟩
  · exact hall k (hperm.mem_iff.mpr hk)
  · exact hframe k (fun hmem => hk (hperm.mem_iff.mp hmem))

/-- A walk fails with an error of one of its steps. -/
theorem updateEach_eq_error {e : ε} (h : updateEach f ks s = .error e) :
    ∃ k ∈ ks, ∃ b, f k b = .error e := by
  induction ks generalizing s with
  | nil => exact absurd h (by simp [updateEach])
  | cons k ks ih =>
      rw [updateEach] at h
      cases hstep : f k (s k) with
      | error e' =>
          rw [hstep, except_error_bind] at h
          obtain rfl := Except.error.inj h
          exact ⟨k, List.mem_cons_self, s k, hstep⟩
      | ok b =>
          rw [hstep, except_ok_bind] at h
          obtain ⟨c, hc, hfc⟩ := ih h
          exact ⟨c, List.mem_cons_of_mem k hc, hfc⟩

/-! ## What a test keeps -/

section KeepEach

variable {α : Type} {test : α → Except ε Bool} {l kept : List α}

/-- The elements that a test accepts, where the test may fail. -/
def keepEach (test : α → Except ε Bool) : List α → Except ε (List α)
  | [] => .ok []
  | a :: l => do
      let accepted ← test a
      let kept ← keepEach test l
      return if accepted then a :: kept else kept

/-- What is kept, if it gets through, -/
theorem mem_of_keepEach (h : keepEach test l = .ok kept) (a : α) :
    a ∈ kept ↔ a ∈ l ∧ test a = .ok true := by
  induction l generalizing kept with
  | nil =>
      obtain rfl := Except.ok.inj h
      simp
  | cons b l ih =>
      obtain ⟨accepted, htest, h⟩ := except_bind_eq_ok.mp h
      obtain ⟨rest, hrest, h⟩ := except_bind_eq_ok.mp h
      obtain rfl := except_pure_eq_ok.mp h
      have hih := ih hrest
      cases accepted with
      | true =>
          rw [if_pos rfl, List.mem_cons, List.mem_cons, hih]
          constructor
          · rintro (rfl | ⟨ha, haccept⟩)
            · exact ⟨Or.inl rfl, htest⟩
            · exact ⟨Or.inr ha, haccept⟩
          · rintro ⟨rfl | ha, haccept⟩
            · exact Or.inl rfl
            · exact Or.inr ⟨ha, haccept⟩
      | false =>
          rw [if_neg Bool.false_ne_true, List.mem_cons, hih]
          constructor
          · rintro ⟨ha, haccept⟩
            exact ⟨Or.inr ha, haccept⟩
          · rintro ⟨rfl | ha, haccept⟩
            · rw [htest] at haccept
              exact absurd (Except.ok.inj haccept) Bool.false_ne_true
            · exact ⟨ha, haccept⟩

/-- and it does exactly if every test does. -/
theorem exists_keepEach_iff :
    (∃ kept, keepEach test l = .ok kept) ↔ ∀ a ∈ l, ∃ accepted, test a = .ok accepted := by
  induction l with
  | nil => exact ⟨fun _ a ha => absurd ha List.not_mem_nil, fun _ => ⟨[], rfl⟩⟩
  | cons b l ih =>
      rw [List.forall_mem_cons, ← ih]
      constructor
      · rintro ⟨kept, h⟩
        obtain ⟨accepted, htest, h⟩ := except_bind_eq_ok.mp h
        obtain ⟨rest, hrest, -⟩ := except_bind_eq_ok.mp h
        exact ⟨⟨accepted, htest⟩, rest, hrest⟩
      · rintro ⟨⟨accepted, htest⟩, rest, hrest⟩
        exact ⟨_, except_bind_eq_ok.mpr ⟨accepted, htest,
          except_bind_eq_ok.mpr ⟨rest, hrest, rfl⟩⟩⟩

end KeepEach

/-! ## Checking each element -/

section CheckEach

variable {α : Type} {check : α → Except ε Unit} {l : List α}

/-- `for a in l: check(a)`. -/
def checkEach (check : α → Except ε Unit) : List α → Except ε Unit
  | [] => .ok ()
  | a :: l => do
      check a
      checkEach check l

theorem checkEach_eq_ok_iff : checkEach check l = .ok () ↔ ∀ a ∈ l, check a = .ok () := by
  induction l with
  | nil => exact ⟨fun _ a ha => absurd ha List.not_mem_nil, fun _ => rfl⟩
  | cons b l ih =>
      rw [List.forall_mem_cons, ← ih]
      constructor
      · intro h
        obtain ⟨⟨⟩, hb, hl⟩ := except_bind_eq_ok.mp h
        exact ⟨hb, hl⟩
      · rintro ⟨hb, hl⟩
        exact except_bind_eq_ok.mpr ⟨(), hb, hl⟩

/-- What the loop raises a check has raised. -/
theorem exists_check_of_checkEach {e : ε} (h : checkEach check l = .error e) :
    ∃ a ∈ l, check a = .error e := by
  induction l with
  | nil => exact absurd h (by simp [checkEach])
  | cons b l ih =>
      rw [checkEach] at h
      cases hb : check b with
      | error e' =>
          rw [hb] at h
          obtain rfl := Except.error.inj h
          exact ⟨b, List.mem_cons_self, hb⟩
      | ok u =>
          rw [hb] at h
          obtain ⟨a, ha, hcheck⟩ := ih h
          exact ⟨a, List.mem_cons_of_mem b ha, hcheck⟩

end CheckEach

/-! ## How far a walk gets -/

section Reached

variable {α : Type} {passes passes' meets meets' : α → Prop}

/-- Each element that a walk gets to meets a condition, where it goes on from an element if
    that one passes. -/
def AllReached (passes meets : α → Prop) : List α → Prop
  | [] => True
  | a :: l => meets a ∧ (passes a → AllReached passes meets l)

theorem allReached_congr {l : List α} (hpasses : ∀ a ∈ l, (passes a ↔ passes' a))
    (hmeets : ∀ a ∈ l, (meets a ↔ meets' a)) :
    AllReached passes meets l ↔ AllReached passes' meets' l := by
  induction l with
  | nil => exact Iff.rfl
  | cons a l ih =>
      obtain ⟨hp, hpasses⟩ := List.forall_mem_cons.mp hpasses
      obtain ⟨hm, hmeets⟩ := List.forall_mem_cons.mp hmeets
      rw [AllReached, AllReached, hm, hp, ih hpasses hmeets]

end Reached

end Fedservice.Lib
