/-
  Fedservice.Lib.KeyedSet

  Finite sets whose elements are told apart by a key: `KeyedSet key` is a list
  without two elements of one key, the way a hash set holds at most one of the
  elements that compare equal.  Membership is membership of the key, so that
  every question about sets reduces to `Finset`-like facts about keys.

  A `HashOrder` is an order in which a hash set may be walked: some permutation
  of its elements, not specified further.
-/

import Mathlib.Data.List.Nodup
import Mathlib.Data.List.Perm.Basic

namespace Fedservice.Lib

/-! ## Sets up to a key -/

/-- A finite set of `α`, with at most one element for each key. -/
structure KeyedSet {α β : Type} (key : α → β) where
  elems : List α
  nodup : (elems.map key).Nodup

namespace KeyedSet

variable {α β : Type} {key : α → β}

instance : Membership α (KeyedSet key) := ⟨fun s a => key a ∈ s.elems.map key⟩

theorem mem_def {s : KeyedSet key} {a : α} : a ∈ s ↔ key a ∈ s.elems.map key := Iff.rfl

theorem mem_of_mem_elems {s : KeyedSet key} {a : α} (h : a ∈ s.elems) : a ∈ s :=
  List.mem_map_of_mem h

/-- Membership only looks at the key. -/
theorem mem_congr {s : KeyedSet key} {a b : α} (h : key a = key b) : a ∈ s ↔ b ∈ s := by
  rw [mem_def, mem_def, h]

instance : EmptyCollection (KeyedSet key) := ⟨⟨[], List.nodup_nil⟩⟩

/-- Whether the set has no element (its truth value is the negation). -/
def isEmpty (s : KeyedSet key) : Bool := s.elems.isEmpty

theorem isEmpty_iff {s : KeyedSet key} : s.isEmpty = true ↔ ∀ a : α, a ∉ s := by
  obtain ⟨elems, hn⟩ := s
  cases elems with
  | nil => simp [isEmpty, mem_def]
  | cons x xs =>
      simp only [isEmpty, List.isEmpty_cons, Bool.false_eq_true, false_iff, not_forall,
        Classical.not_not]
      exact ⟨x, mem_of_mem_elems (List.mem_cons_self ..)⟩

/-- The members of `s` that satisfy `p`. -/
def filter (p : α → Bool) (s : KeyedSet key) : KeyedSet key :=
  ⟨s.elems.filter p, s.nodup.sublist (List.Sublist.map key List.filter_sublist)⟩

/-- Filtering by a property of the key is the expected set. -/
theorem mem_filter {p : α → Bool} {s : KeyedSet key} {b : α}
    (hp : ∀ a c, key a = key c → p a = p c) : b ∈ s.filter p ↔ b ∈ s ∧ p b = true := by
  simp only [mem_def, filter, List.mem_map, List.mem_filter]
  constructor
  · rintro ⟨a, ⟨ha, hpa⟩, hk⟩
    exact ⟨⟨a, ha, hk⟩, by rw [← hp a b hk]; exact hpa⟩
  · rintro ⟨⟨a, ha, hk⟩, hpb⟩
    exact ⟨a, ⟨ha, by rw [hp a b hk]; exact hpb⟩, hk⟩

variable [DecidableEq β]

instance (a : α) (s : KeyedSet key) : Decidable (a ∈ s) :=
  inferInstanceAs (Decidable (key a ∈ s.elems.map key))

/-- Add an element unless one with its key is there. -/
def insert (a : α) (s : KeyedSet key) : KeyedSet key :=
  if h : a ∈ s then s
  else ⟨s.elems ++ [a], by
    rw [List.map_append, List.map_singleton, List.nodup_append]
    exact ⟨s.nodup, List.nodup_singleton _, fun x hx y hy =>
      fun hxy => h (by rw [List.mem_singleton] at hy; rw [mem_def, ← hy, ← hxy]; exact hx)⟩⟩

theorem mem_insert {a b : α} {s : KeyedSet key} :
    b ∈ s.insert a ↔ key b = key a ∨ b ∈ s := by
  unfold insert
  by_cases h : a ∈ s
  · rw [dif_pos h]
    exact ⟨Or.inr, fun hb => hb.elim (fun hk => (mem_congr hk).mpr h) id⟩
  · rw [dif_neg h, mem_def, mem_def, List.map_append, List.mem_append, List.map_singleton,
      List.mem_singleton, or_comm]

/-- The set of the elements of a list, the first of those with one key kept. -/
def ofList (key : α → β) (l : List α) : KeyedSet key :=
  l.foldl (fun s a => s.insert a) ∅

theorem mem_foldl_insert {l : List α} {s : KeyedSet key} {b : α} :
    b ∈ l.foldl (fun s a => s.insert a) s ↔ b ∈ s ∨ key b ∈ l.map key := by
  induction l generalizing s with
  | nil => simp
  | cons a l ih =>
      rw [List.foldl_cons, ih, mem_insert, List.map_cons, List.mem_cons]
      tauto

theorem mem_ofList {l : List α} {b : α} : b ∈ ofList key l ↔ key b ∈ l.map key := by
  rw [ofList, mem_foldl_insert]
  simp [mem_def, EmptyCollection.emptyCollection]

theorem mem_elems_foldl_insert {l : List α} {s : KeyedSet key} {b : α}
    (h : b ∈ (l.foldl (fun s a => s.insert a) s).elems) : b ∈ s.elems ∨ b ∈ l := by
  induction l generalizing s with
  | nil => exact Or.inl h
  | cons a l ih =>
      rw [List.foldl_cons] at h
      rcases ih h with h | h
      · unfold insert at h
        split at h
        · exact Or.inl h
        · rcases List.mem_append.mp h with h | h
          · exact Or.inl h
          · rw [List.mem_singleton.mp h]
            exact Or.inr (List.mem_cons_self ..)
      · exact Or.inr (List.mem_cons_of_mem _ h)

/-- What a set made of a list holds is in the list. -/
theorem mem_elems_ofList {l : List α} {b : α} (h : b ∈ (ofList key l).elems) : b ∈ l :=
  (mem_elems_foldl_insert h).resolve_left List.not_mem_nil

/-- Elements of both sets, as the first one has them. -/
def inter (s t : KeyedSet key) : KeyedSet key := s.filter (fun a => decide (a ∈ t))

/-- Elements of `s` that are not in `t`. -/
def sdiff (s t : KeyedSet key) : KeyedSet key := s.filter (fun a => decide (a ∉ t))

/-- Elements of either set. -/
def union (s t : KeyedSet key) : KeyedSet key := t.elems.foldl (fun s a => s.insert a) s

theorem mem_inter {s t : KeyedSet key} {b : α} : b ∈ s.inter t ↔ b ∈ s ∧ b ∈ t := by
  rw [inter, mem_filter (fun a c h => by simp only [mem_congr h]), decide_eq_true_eq]

theorem mem_sdiff {s t : KeyedSet key} {b : α} : b ∈ s.sdiff t ↔ b ∈ s ∧ b ∉ t := by
  rw [sdiff, mem_filter (fun a c h => by simp only [mem_congr h]), decide_eq_true_eq]

theorem mem_union {s t : KeyedSet key} {b : α} : b ∈ s.union t ↔ b ∈ s ∨ b ∈ t := by
  rw [union, mem_foldl_insert]
  exact Iff.rfl

theorem mem_elems_inter {s t : KeyedSet key} {b : α} (h : b ∈ (s.inter t).elems) :
    b ∈ s.elems :=
  (List.mem_filter.mp h).1

theorem mem_elems_union {s t : KeyedSet key} {b : α} (h : b ∈ (s.union t).elems) :
    b ∈ s.elems ∨ b ∈ t.elems :=
  mem_elems_foldl_insert h

/-- An empty difference is an inclusion. -/
theorem sdiff_isEmpty_iff {s t : KeyedSet key} :
    (s.sdiff t).isEmpty = true ↔ ∀ a ∈ s, a ∈ t := by
  rw [isEmpty_iff]
  constructor
  · exact fun h a ha => Classical.byContradiction fun hn => h a (mem_sdiff.mpr ⟨ha, hn⟩)
  · exact fun h a ha => (mem_sdiff.mp ha).2 (h a (mem_sdiff.mp ha).1)

end KeyedSet

/-! ## The order a hash set is walked in -/

/-- How hash sets are walked: each list of elements in some order. -/
structure HashOrder where
  arrange : {α : Type} → List α → List α
  perm : ∀ {α : Type} (l : List α), (arrange l).Perm l

namespace HashOrder

/-- Walking in the order of insertion. -/
def insertion : HashOrder := ⟨fun l => l, fun _ => List.Perm.refl _⟩

variable {α β : Type} (ho : HashOrder)

@[simp] theorem mem_arrange {l : List α} {a : α} : a ∈ ho.arrange l ↔ a ∈ l :=
  (ho.perm l).mem_iff

theorem nodup_arrange {l : List α} (h : l.Nodup) : (ho.arrange l).Nodup :=
  (ho.perm l).nodup_iff.mpr h

end HashOrder

end Fedservice.Lib
