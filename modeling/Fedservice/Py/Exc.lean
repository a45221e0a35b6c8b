/-
  Fedservice.Py.Exc

  The exceptions the modelled code raises or lets through, and the built-in
  operations on JSON values that can raise.
-/

import Fedservice.Py.Json
import Fedservice.Lib.Dict

namespace Fedservice.Py

open Fedservice.Lib

/-- A piece of a formatted string: literal text or an interpolated value. -/
inductive Fmt where
  | lit (text : String)
  | val (value : Json)
deriving DecidableEq

/-- The text of an exception, `f"..{value}.."` kept in pieces. -/
abbrev Message := List Fmt

/-- An exception. -/
inductive Exc where
  | policyError (message : Message)
  | noTrustedChains
  | noTrustedClaims (message : Message)
  | missingKey
  | badSignature
  | missingPage (message : Message)
  | connectionError
  | failedConfigurationRetrieval
  | valueError (message : Message)
  | typeError
  | keyError (key : String)
  | indexError
  | attributeError (name : String)
  | unknownEntity (entityId : String)
  | recursionError
  | signatureFailure (message : Message)
  | capabilitiesMisMatch (claim : String)
  | invalidRedirectUri (message : Message)
  | systemError (message : Message)
  | oidcServiceError
  /-- A `while` loop of the source that does not end within the fuel given. -/
  | outOfFuel
deriving DecidableEq

/-- `PolicyError` is raised. -/
def RaisesPolicyError {α : Type} (x : Except Exc α) : Prop := ∃ text, x = .error (.policyError text)

@[simp] theorem not_raisesPolicyError_ok {α : Type} (a : α) :
    ¬ RaisesPolicyError (.ok a : Except Exc α) := by
  simp [RaisesPolicyError]

@[simp] theorem raisesPolicyError_throw {α : Type} (text : Message) :
    RaisesPolicyError (throw (.policyError text) : Except Exc α) := ⟨text, rfl⟩

/-- A sequence raises it where the first step does, or else the second. -/
theorem raisesPolicyError_bind {α β : Type} {x : Except Exc α} {f : α → Except Exc β} :
    RaisesPolicyError (x >>= f) ↔
      RaisesPolicyError x ∨ ∃ a, x = .ok a ∧ RaisesPolicyError (f a) := by
  cases x <;> simp [RaisesPolicyError]

/-- `d[k]`. -/
def item {α : Type} (d : Dict α) (k : String) : Except Exc α :=
  match d.lookup k with
  | some v => .ok v
  | none => .error (.keyError k)

theorem item_eq_ok {α : Type} {d : Dict α} {k : String} {v : α} :
    item d k = .ok v ↔ d.lookup k = some v := by
  unfold item
  cases d.lookup k <;> simp

theorem not_raisesPolicyError_item {α : Type} {d : Dict α} {k : String} :
    ¬ RaisesPolicyError (item d k) := by
  unfold item
  cases d.lookup k <;> simp [RaisesPolicyError]

namespace Json

/-- `set(a)`. -/
def toSet (a : Json) : Except Exc JsonSet :=
  match a.iter? with
  | none => .error .typeError
  | some xs => if xs.all hashable then .ok (KeyedSet.ofList norm xs) else .error .typeError

/-- `{a}`. -/
def singletonSet (a : Json) : Except Exc JsonSet :=
  if a.hashable then .ok (KeyedSet.ofList norm [a]) else .error .typeError

/-- `set(a)` for a list, `{a}` for anything else. -/
def asSet (a : Json) : Except Exc JsonSet :=
  if a.isList then a.toSet else a.singletonSet

theorem asSet_of_isList {a : Json} (h : a.isList = true) : a.asSet = a.toSet := if_pos h

theorem toSet_eq_ok {a : Json} {s : JsonSet} :
    a.toSet = .ok s ↔
      ∃ xs, a.iter? = some xs ∧ (∀ x ∈ xs, x.hashable = true) ∧ KeyedSet.ofList norm xs = s := by
  unfold toSet
  cases a.iter? with
  | none => simp
  | some xs =>
      simp only [Option.some.injEq, exists_eq_left', ← List.all_eq_true]
      by_cases hh : xs.all hashable <;> simp [hh]

theorem not_raisesPolicyError_toSet {a : Json} : ¬ RaisesPolicyError a.toSet := by
  unfold toSet
  cases a.iter? with
  | none => simp [RaisesPolicyError]
  | some xs =>
      simp only
      split <;> simp [RaisesPolicyError]

theorem not_raisesPolicyError_asSet {a : Json} : ¬ RaisesPolicyError a.asSet := by
  unfold asSet singletonSet
  split
  · exact not_raisesPolicyError_toSet
  · split <;> simp [RaisesPolicyError]

/-- Whether the characters `xs` occur in a row in `ys`. -/
def isSubstring (xs ys : List Char) : Bool := ys.tails.any (fun t => xs.isPrefixOf t)

/-- `a in container`. -/
def isIn (a container : Json) : Except Exc Bool :=
  match container with
  | .arr xs => .ok (xs.any (fun x => x.eqv a))
  | .obj fields => if a.hashable then .ok (fields.any (fun e => (Json.str e.1).eqv a))
      else .error .typeError
  | .str s => match a with
      | .str t => .ok (isSubstring t.toList s.toList)
      | _ => .error .typeError
  | _ => .error .typeError

/-- The values a value holds: those of a list, otherwise itself. -/
def held : Json → List Json
  | .arr xs => xs
  | a => [a]

/-- `x` is one of the values that `a` holds, up to `==`. -/
def Holds (a x : Json) : Prop := ∃ y ∈ a.held, y.norm = x.norm

/-- `x` is one of the values that iteration over `a` gives, up to `==`. -/
def Lists (a x : Json) : Prop := ∃ ys, a.iter? = some ys ∧ ∃ y ∈ ys, y.norm = x.norm

/-- What a value holds shows in its normal form, -/
theorem holds_iff_mem_held_norm {a x : Json} : a.Holds x ↔ x.norm ∈ a.norm.held := by
  cases a <;> simp [Holds, held, norm, normList_eq_map, eq_comm]

/-- so equal values hold the same. -/
theorem holds_congr {a b x : Json} (h : a.norm = b.norm) : a.Holds x ↔ b.Holds x := by
  rw [holds_iff_mem_held_norm, holds_iff_mem_held_norm, h]

/-- A list lists the values it holds. -/
@[simp] theorem lists_arr {xs : List Json} {x : Json} :
    (Json.arr xs).Lists x ↔ (Json.arr xs).Holds x := by
  simp [Lists, Holds, iter?, held]

/-- A value that is not a list holds itself. -/
theorem holds_of_not_isList {a x : Json} (h : a.isList = false) : a.Holds x ↔ a.norm = x.norm := by
  have hheld : a.held = [a] := by
    cases a with
    | arr xs => exact absurd h (by simp [isList])
    | _ => rfl
  simp [Holds, hheld]

/-- Membership in `set(a)`. -/
theorem mem_toSet {a x : Json} {s : JsonSet} (h : a.toSet = .ok s) : x ∈ s ↔ a.Lists x := by
  obtain ⟨xs, hit, -, rfl⟩ := toSet_eq_ok.mp h
  rw [KeyedSet.mem_ofList, List.mem_map, Lists, hit]
  simp

theorem mem_singletonSet {a x : Json} {s : JsonSet} (h : a.singletonSet = .ok s) :
    x ∈ s ↔ a.norm = x.norm := by
  unfold singletonSet at h
  by_cases hh : a.hashable
  · simp only [hh, if_true, Except.ok.injEq] at h
    rw [← h, KeyedSet.mem_ofList]
    simp [eq_comm]
  · simp [hh] at h

theorem mem_asSet {a x : Json} {s : JsonSet} (h : a.asSet = .ok s) : x ∈ s ↔ a.Holds x := by
  unfold asSet at h
  cases hl : a.isList with
  | true =>
      obtain ⟨xs, rfl⟩ := isList_iff.mp hl
      rw [if_pos hl] at h
      rw [mem_toSet h, lists_arr]
  | false =>
      rw [if_neg (by simp [hl])] at h
      rw [mem_singletonSet h, holds_of_not_isList hl]

/-- What a set holds has a hash. -/
theorem hashable_of_toSet {a : Json} {s : JsonSet} (h : a.toSet = .ok s) :
    ∀ y ∈ s.elems, y.hashable = true := by
  obtain ⟨xs, -, hh, rfl⟩ := toSet_eq_ok.mp h
  exact fun y hy => hh y (KeyedSet.mem_elems_ofList hy)

/-- A list can be read as a set exactly if what it holds has a hash. -/
theorem exists_toSet_arr {xs : List Json} :
    (∃ s, (Json.arr xs).toSet = .ok s) ↔ ∀ x ∈ xs, x.hashable = true := by
  simp [toSet_eq_ok, iter?]

theorem isIn_arr {a : Json} {xs : List Json} :
    a.isIn (.arr xs) = .ok true ↔ (Json.arr xs).Holds a := by
  simp [isIn, eqv_iff, Holds, held]

end Json

/-- `list(s)` of a set: its elements in the order the set is walked. -/
def listOf (ho : HashOrder) (s : JsonSet) : Json := .arr (ho.arrange s.elems)

/-- The values of `list(s)` are the members of `s`. -/
theorem holds_listOf (ho : HashOrder) {s : JsonSet} {x : Json} :
    (listOf ho s).Holds x ↔ x ∈ s := by
  simp only [listOf, Json.Holds, Json.held, HashOrder.mem_arrange, KeyedSet.mem_def, List.mem_map]

/-- A set whose elements have a hash, written as a list, reads as the same set. -/
theorem toSet_listOf (ho : HashOrder) {s : JsonSet} (h : ∀ y ∈ s.elems, y.hashable = true) :
    ∃ t, (listOf ho s).toSet = .ok t ∧ ∀ x, x ∈ t ↔ x ∈ s := by
  have hread : ∃ t, (listOf ho s).toSet = .ok t :=
    Json.exists_toSet_arr.mpr (fun y hy => h y (ho.mem_arrange.mp hy))
  obtain ⟨t, ht⟩ := hread
  refine ⟨t, ht, fun x => ?_⟩
  rw [Json.mem_toSet ht, ← holds_listOf ho]
  exact Json.lists_arr

end Fedservice.Py
