/-
  Fedservice.Py.Json

  The values a parsed JSON document is made of, and what the built-in
  operations of the language do with them: `==`, truth value, iteration, `in`,
  `set()` and `isinstance(_, list)`.  Numbers are integers (no claim of an
  entity statement that this code looks at is fractional).

  `==` is equality of normal forms: a boolean equals the number it stands for
  and the order of the entries of an object does not matter.
-/

import Fedservice.Lib.KeyedSet
import Mathlib.Data.List.Sort

namespace Fedservice.Py

open Fedservice.Lib

/-- A JSON value. -/
inductive Json where
  | null
  | bool (b : Bool)
  | num (n : Int)
  | str (s : String)
  | arr (xs : List Json)
  | obj (fields : List (String × Json))

namespace Json

/-! ## Structural equality is decidable -/

mutual

def beq : Json → Json → Bool
  | .null, .null => true
  | .bool a, .bool b => a == b
  | .num a, .num b => a == b
  | .str a, .str b => a == b
  | .arr xs, .arr ys => beqList xs ys
  | .obj xs, .obj ys => beqFields xs ys
  | _, _ => false

def beqList : List Json → List Json → Bool
  | [], [] => true
  | x :: xs, y :: ys => beq x y && beqList xs ys
  | _, _ => false

def beqFields : List (String × Json) → List (String × Json) → Bool
  | [], [] => true
  | (k, x) :: xs, (l, y) :: ys => k == l && beq x y && beqFields xs ys
  | _, _ => false

end

mutual

theorem eq_of_beq : ∀ {a b : Json}, beq a b = true → a = b
  | .null, b, h => by cases b <;> simp_all [beq]
  | .bool a, b, h => by cases b <;> simp_all [beq]
  | .num a, b, h => by cases b <;> simp_all [beq]
  | .str a, b, h => by cases b <;> simp_all [beq]
  | .arr xs, b, h => by
      cases b <;> simp only [beq, Bool.false_eq_true] at h
      rw [eq_of_beqList h]
  | .obj xs, b, h => by
      cases b <;> simp only [beq, Bool.false_eq_true] at h
      rw [eq_of_beqFields h]

theorem eq_of_beqList : ∀ {xs ys : List Json}, beqList xs ys = true → xs = ys
  | [], ys, h => by cases ys <;> simp_all [beqList]
  | x :: xs, ys, h => by
      cases ys <;> simp only [beqList, Bool.false_eq_true, Bool.and_eq_true] at h
      rw [eq_of_beq h.1, eq_of_beqList h.2]

theorem eq_of_beqFields : ∀ {xs ys : List (String × Json)}, beqFields xs ys = true → xs = ys
  | [], ys, h => by cases ys <;> simp_all [beqFields]
  | (k, x) :: xs, ys, h => by
      cases ys <;> simp only [beqFields, Bool.false_eq_true, Bool.and_eq_true, beq_iff_eq] at h
      rw [h.1.1, eq_of_beq h.1.2, eq_of_beqFields h.2]

end

mutual

theorem beq_self : ∀ a : Json, beq a a = true
  | .null => rfl
  | .bool _ | .num _ | .str _ => by simp [beq]
  | .arr xs => by rw [beq]; exact beqList_self xs
  | .obj xs => by rw [beq]; exact beqFields_self xs

theorem beqList_self : ∀ xs : List Json, beqList xs xs = true
  | [] => rfl
  | x :: xs => by rw [beqList, beq_self x, beqList_self xs]; rfl

theorem beqFields_self : ∀ xs : List (String × Json), beqFields xs xs = true
  | [] => rfl
  | (k, x) :: xs => by rw [beqFields, beq_self x, beqFields_self xs]; simp

end

instance : DecidableEq Json := fun a b =>
  decidable_of_iff (beq a b = true) ⟨eq_of_beq, fun h => h ▸ beq_self a⟩

/-! ## Equality of values -/

mutual

/-- The normal form that `==` compares. -/
def norm : Json → Json
  | .null => .null
  | .bool b => .num (if b then 1 else 0)
  | .num n => .num n
  | .str s => .str s
  | .arr xs => .arr (normList xs)
  | .obj fields => .obj ((normFields fields).insertionSort (fun a b => a.1 ≤ b.1))

def normList : List Json → List Json
  | [] => []
  | x :: xs => norm x :: normList xs

def normFields : List (String × Json) → List (String × Json)
  | [] => []
  | (k, x) :: xs => (k, norm x) :: normFields xs

end

/-- `a == b`. -/
def eqv (a b : Json) : Bool := decide (a.norm = b.norm)

theorem eqv_iff {a b : Json} : a.eqv b = true ↔ a.norm = b.norm := decide_eq_true_iff

@[simp] theorem eqv_refl (a : Json) : a.eqv a = true := eqv_iff.mpr rfl

theorem normList_eq_map (xs : List Json) : normList xs = xs.map norm := by
  induction xs with
  | nil => rfl
  | cons x xs ih => rw [normList, ih, List.map_cons]

/-! ## Built-in operations -/

/-- `bool(a)`. -/
def truthy : Json → Bool
  | .null => false
  | .bool b => b
  | .num n => n != 0
  | .str s => s != ""
  | .arr xs => !xs.isEmpty
  | .obj fields => !fields.isEmpty

/-- `isinstance(a, list)`. -/
def isList : Json → Bool
  | .arr _ => true
  | _ => false

/-- Whether `hash(a)` is defined: lists and dictionaries have no hash. -/
def hashable : Json → Bool
  | .arr _ | .obj _ => false
  | _ => true

/-- The characters of a string, as the strings iteration over it gives. -/
def chars (s : String) : List Json := s.toList.map (fun c => .str (String.singleton c))

/-- What iteration over a value gives; `none` where it is not iterable. -/
def iter? : Json → Option (List Json)
  | .arr xs => some xs
  | .str s => some (chars s)
  | .obj fields => some (fields.map (fun e => .str e.1))
  | _ => none

/-- A value is a list exactly when it is an array. -/
theorem isList_iff {a : Json} : a.isList = true ↔ ∃ xs, a = .arr xs := by
  cases a <;> simp [isList]

end Json

/-- The sets of JSON values. -/
abbrev JsonSet := KeyedSet Json.norm

end Fedservice.Py
