/-
  Fedservice.Lib.Dict

  String-keyed dictionaries: Mathlib's association lists without duplicate
  keys, with the operations of a `dict` that are not there already.
-/

import Fedservice.Lib.UpdateEach
import Mathlib.Data.List.AList

namespace Fedservice.Lib

/-- A dictionary with string keys. -/
abbrev Dict (α : Type) := AList (fun _ : String => α)

namespace Dict

variable {α : Type}

/-- The dictionary display `{k: v, ..}`, a later entry of a key winning. -/
def ofList (l : List (String × α)) : Dict α :=
  l.foldl (fun d e => d.insert e.1 e.2) ∅

/-- `d.update(e)`: the entries of `e` override those of `d`. -/
def update (d e : Dict α) : Dict α := e ∪ d

/-- Whether the dictionary has no entry (its truth value is the negation). -/
def isEmpty (d : Dict α) : Bool := d.entries.isEmpty

theorem lookup_of_isEmpty {d : Dict α} (h : d.isEmpty = true) (k : String) :
    d.lookup k = none := by
  rw [AList.lookup_eq_none, AList.mem_keys, AList.keys, List.isEmpty_iff.mp h]
  exact List.not_mem_nil

theorem isEmpty_iff_lookup {d : Dict α} : d.isEmpty = true ↔ ∀ k, d.lookup k = none := by
  refine ⟨lookup_of_isEmpty, fun h => List.isEmpty_iff.mpr ?_⟩
  have hkeys : d.keys = [] := List.eq_nil_iff_forall_not_mem.mpr fun k hk =>
    AList.lookup_eq_none.mp (h k) (AList.mem_keys.mpr hk)
  exact List.map_eq_nil_iff.mp hkeys

theorem update_of_isEmpty {d : Dict α} (h : d.isEmpty = true) (e : Dict α) : d.update e = e := by
  have hnothing : d = ∅ := AList.ext (List.isEmpty_iff.mp h)
  rw [hnothing]
  exact AList.union_empty

theorem mem_iff_lookup {d : Dict α} {k : String} : k ∈ d ↔ ∃ v, d.lookup k = some v := by
  rw [← AList.lookup_isSome, Option.isSome_iff_exists]

/-- Inserting at a key: one lookup lemma for both cases. -/
theorem lookup_insert' (d : Dict α) (k k' : String) (v : α) :
    (d.insert k v).lookup k' = if k' = k then some v else d.lookup k' := by
  by_cases h : k' = k
  · rw [if_pos h, h, AList.lookup_insert]
  · rw [if_neg h, AList.lookup_insert_ne h]

/-- Erasing a key: one lookup lemma for both cases. -/
theorem lookup_erase' (d : Dict α) (k k' : String) :
    (d.erase k).lookup k' = if k' = k then none else d.lookup k' := by
  by_cases h : k' = k
  · rw [if_pos h, h, AList.lookup_erase]
  · rw [if_neg h, AList.lookup_erase_ne h]

/-- What is found after an insertion was inserted, or was there before. -/
theorem lookup_insert_eq_some {d : Dict α} {k k' : String} {v v' : α} :
    (d.insert k v).lookup k' = some v' ↔
      k' = k ∧ v' = v ∨ k' ≠ k ∧ d.lookup k' = some v' := by
  rw [lookup_insert']
  by_cases h : k' = k
  · simp [h, eq_comm]
  · simp [h]

/-- What is found after an erasure is not what was erased. -/
theorem lookup_erase_eq_some {d : Dict α} {k k' : String} {v : α} :
    (d.erase k).lookup k' = some v ↔ k' ≠ k ∧ d.lookup k' = some v := by
  rw [lookup_erase']
  by_cases h : k' = k <;> simp [h]

/-- What is found after an update. -/
theorem lookup_update (d e : Dict α) (k : String) :
    (d.update e).lookup k = (e.lookup k).or (d.lookup k) := by
  unfold update
  by_cases h : k ∈ e
  · obtain ⟨v, hv⟩ := mem_iff_lookup.mp h
    rw [AList.lookup_union_left h, hv, Option.some_or]
  · rw [AList.lookup_union_right h, AList.lookup_eq_none.mpr h, Option.none_or]

/-- What is found after entries have been inserted that were looked through. -/
theorem lookup_foldl_insert {β : Type} (f : α → Option β) {l : List (Sigma fun _ : String => α)}
    (hnodup : l.NodupKeys) (d : Dict β) (k : String) :
    ((l.filterMap fun e => (f e.2).map fun v => (e.1, v)).foldl
      (fun d e => d.insert e.1 e.2) d).lookup k = ((l.dlookup k).bind f).or (d.lookup k) := by
  induction l generalizing d with
  | nil => rfl
  | cons e l ih =>
      obtain ⟨name, a⟩ := e
      obtain ⟨hnew, hrest⟩ := List.nodupKeys_cons.mp hnodup
      rw [List.filterMap_cons]
      by_cases hk : k = name
      · obtain rfl := hk
        have hnone : l.dlookup k = none := List.dlookup_eq_none.mpr hnew
        rw [List.dlookup_cons_eq, Option.bind_some]
        cases f a with
        | none => rw [Option.map_none, ih hrest, hnone, Option.bind_none]
        | some v =>
            rw [Option.map_some, List.foldl_cons, ih hrest, hnone, Option.bind_none,
              Option.none_or, Option.some_or]
            exact AList.lookup_insert d
      · rw [List.dlookup_cons_ne _ _ hk]
        cases f a with
        | none => rw [Option.map_none, ih hrest]
        | some v => rw [Option.map_some, List.foldl_cons, ih hrest, AList.lookup_insert_ne hk]

/-- What is found in a dictionary that is made of the entries of one, looked through. -/
theorem lookup_ofList_filterMap {β : Type} (f : α → Option β) (d : Dict α) (k : String) :
    (ofList (d.entries.filterMap fun e => (f e.2).map fun v => (e.1, v))).lookup k =
      (d.lookup k).bind f := by
  rw [ofList, lookup_foldl_insert f d.nodupKeys, AList.lookup_empty, Option.or_none]
  rfl

/-! ## Entries that are related -/

/-- Of related entries there are none, or both. -/
theorem rel_cases {β : Type} {R : α → β → Prop} {a : Option α} {b : Option β}
    (h : Option.Rel R a b) :
    (a = none ∧ b = none) ∨ ∃ v w, a = some v ∧ b = some w ∧ R v w := by
  cases h with
  | none => exact Or.inl ⟨rfl, rfl⟩
  | some hvw => exact Or.inr ⟨_, _, rfl, rfl, hvw⟩

theorem rel_refl {R : α → α → Prop} (hR : ∀ v, R v v) (a : Option α) : Option.Rel R a a := by
  cases a with
  | none => exact .none
  | some v => exact .some (hR v)

theorem rel_symm {R : α → α → Prop} (hR : ∀ v w, R v w → R w v) {a b : Option α}
    (h : Option.Rel R a b) : Option.Rel R b a := by
  cases h with
  | none => exact .none
  | some hvw => exact .some (hR _ _ hvw)

theorem rel_trans {R : α → α → Prop} (hR : ∀ u v w, R u v → R v w → R u w) {a b c : Option α}
    (h₁ : Option.Rel R a b) (h₂ : Option.Rel R b c) : Option.Rel R a c := by
  cases h₁ with
  | none => exact h₂
  | some huv =>
      cases h₂ with
      | some hvw => exact .some (hR _ _ _ huv hvw)

/-- Related entries at one key, and at the others as before. -/
theorem rel_lookup_insert {β : Type} {R : α → β → Prop} {d : Dict α} {d' : Dict β}
    (h : ∀ k, Option.Rel R (d.lookup k) (d'.lookup k)) (k : String) {v : α} {w : β}
    (hvw : R v w) (k' : String) :
    Option.Rel R ((d.insert k v).lookup k') ((d'.insert k w).lookup k') := by
  rw [lookup_insert', lookup_insert']
  by_cases hk : k' = k
  · rw [if_pos hk, if_pos hk]
    exact .some hvw
  · rw [if_neg hk, if_neg hk]
    exact h k'

/-! ## Filling a dictionary in a loop -/

variable {ε ι : Type} {key : ι → String} {f : ι → Except ε α}

/-- `for i in is: d[key(i)] = f(i)`. -/
def insertEach (key : ι → String) (f : ι → Except ε α) :
    List ι → Dict α → Except ε (Dict α)
  | [], d => .ok d
  | i :: is, d => do insertEach key f is (d.insert (key i) (← f i))

/-- After the loop the keys that were walked have their value, the others are as
    they were. -/
theorem insertEach_eq_ok (hkey : Function.Injective key) {is : List ι} {d d' : Dict α}
    (h : insertEach key f is d = .ok d') :
    (∀ i ∈ is, ∃ v, f i = .ok v ∧ d'.lookup (key i) = some v) ∧
      ∀ k, (∀ i ∈ is, k ≠ key i) → d'.lookup k = d.lookup k := by
  induction is generalizing d with
  | nil =>
      obtain rfl := Except.ok.inj h
      exact ⟨fun i hi => absurd hi List.not_mem_nil, fun _ _ => rfl⟩
  | cons i is ih =>
      obtain ⟨v, hv, h⟩ := except_bind_eq_ok.mp h
      obtain ⟨hall, hframe⟩ := ih h
      constructor
      · intro j hj
        by_cases hrest : j ∈ is
        · exact hall j hrest
        · obtain rfl : j = i := (List.mem_cons.mp hj).resolve_right hrest
          refine ⟨v, hv, ?_⟩
          rw [hframe (key j) (fun j' hj' hk => hrest (hkey hk ▸ hj')), AList.lookup_insert]
      · intro k hk
        rw [hframe k (fun j hj => hk j (List.mem_cons_of_mem _ hj)),
          AList.lookup_insert_ne (hk i (List.mem_cons_self ..))]

/-- The loop gets to its end exactly if every value can be had. -/
theorem exists_insertEach_iff {is : List ι} {d : Dict α} :
    (∃ d', insertEach key f is d = .ok d') ↔ ∀ i ∈ is, ∃ v, f i = .ok v := by
  induction is generalizing d with
  | nil => exact ⟨fun _ i hi => absurd hi List.not_mem_nil, fun _ => ⟨d, rfl⟩⟩
  | cons i is ih =>
      constructor
      · rintro ⟨d', h⟩
        obtain ⟨v, hv, h⟩ := except_bind_eq_ok.mp h
        exact List.forall_mem_cons.mpr ⟨⟨v, hv⟩, ih.mp ⟨d', h⟩⟩
      · intro hall
        obtain ⟨⟨v, hv⟩, hrest⟩ := List.forall_mem_cons.mp hall
        rw [insertEach, hv, except_ok_bind]
        exact ih.mpr hrest

/-- A loop that does not get there stops at a value that cannot be had. -/
theorem insertEach_eq_error {is : List ι} {d : Dict α} {e : ε}
    (h : insertEach key f is d = .error e) : ∃ i ∈ is, f i = .error e := by
  induction is generalizing d with
  | nil => exact absurd h (by simp [insertEach])
  | cons i is ih =>
      rw [insertEach] at h
      cases hv : f i with
      | error e' =>
          rw [hv, except_error_bind, Except.error.injEq] at h
          exact ⟨i, List.mem_cons_self .., by rw [hv, h]⟩
      | ok v =>
          rw [hv, except_ok_bind] at h
          obtain ⟨j, hj, herror⟩ := ih h
          exact ⟨j, List.mem_cons_of_mem _ hj, herror⟩

/-! ## The keys of the values that a test keeps -/

variable {test : α → Except ε Bool}

theorem mem_keys_of_keepEach {d : Dict α} {kept : List (Sigma fun _ : String => α)}
    (h : keepEach (fun e => test e.2) d.entries = .ok kept) (k : String) :
    k ∈ kept.map (·.1) ↔ ∃ v, d.lookup k = some v ∧ test v = .ok true := by
  simp only [List.mem_map, mem_of_keepEach h, Sigma.exists, exists_and_right, exists_eq_right,
    ← AList.mem_lookup_iff, Option.mem_def]

theorem exists_keepEach_entries_iff {d : Dict α} :
    (∃ kept, keepEach (fun e => test e.2) d.entries = .ok kept) ↔
      ∀ k v, d.lookup k = some v → ∃ b, test v = .ok b := by
  rw [exists_keepEach_iff, Sigma.forall]
  simp only [← AList.mem_lookup_iff, Option.mem_def]

end Dict

end Fedservice.Lib
