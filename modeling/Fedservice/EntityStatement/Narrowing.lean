/-
  Fedservice.EntityStatement.Narrowing

  `more_specific` is a preorder on http(s) URLs, and the lists of names follow
  it: where each entry of one list refines an entry of another (`Narrows`), the
  first admits no subject that the second rejects.  Merging the names of a
  subordinate into a list with `update_specs` narrows it
  (`narrows_updateSpecs`), and so does the loop of `add_constraints` once the
  list is not empty (`narrows_addConstraint`).
-/

import Fedservice.EntityStatement.ConstraintLookups

namespace Fedservice.EntityStatement

open Fedservice.Lib Fedservice.Py

/-! ## The order -/

/-- Only http(s) URLs have labels. -/
theorem isHttp_of_labels {url : EntityId} {l : List Label} (h : labels url = .ok l) :
    IsHttp url := by
  unfold labels removeScheme at h
  simp only [List.isPrefixOf_iff_prefix] at h
  by_cases hs : "https://".toList <+: url.toList
  · exact Or.inl hs
  · by_cases hp : "http://".toList <+: url.toList
    · exact Or.inr hp
    · rw [if_neg hs, if_neg hp] at h
      exact absurd h (by simp [bind, Except.bind])

/-- What `more_specific` compares without an error are http(s) URLs. -/
theorem isHttp_of_moreSpecific {a b : EntityId} {r : Bool} (h : moreSpecific a b = .ok r) :
    IsHttp a ∧ IsHttp b := by
  obtain ⟨x, y, hx, hy, -⟩ := moreSpecific_eq_ok.mp h
  exact ⟨isHttp_of_labels hx, isHttp_of_labels hy⟩

theorem Matches.refl {a : EntityId} (h : IsHttp a) : Matches a a := by
  obtain ⟨x, hx⟩ := exists_labels h
  exact matches_iff.mpr ⟨x, x, hx, hx, refines_refl [] x⟩

/-! ## Lists that narrow others -/

/-- Each entry of `upd` refines an entry of `old`. -/
def Narrows (upd old : List EntityId) : Prop := ∀ e ∈ upd, ∃ o ∈ old, Matches e o

theorem Narrows.refl {l : List EntityId} (hl : ∀ e ∈ l, IsHttp e) : Narrows l l :=
  fun e he => ⟨e, he, .refl (hl e he)⟩

/-- `update_specs` puts in refinements of old entries only, and keeps the other old ones. -/
theorem narrows_updateSpecs {new old upd : List EntityId} (hold : ∀ e ∈ old, IsHttp e)
    (h : updateSpecs new old = .ok upd) : Narrows upd old := by
  intro e he
  rcases (mem_updateSpecs h).mp he with ⟨o, ho, -, hm⟩ | ⟨hkept, -⟩
  · exact ⟨o, ho, hm⟩
  · exact ⟨e, hkept, .refl (hold e hkept)⟩

/-- The loop of `add_constraints` for one key narrows a list that is not empty. -/
theorem narrows_addConstraint {key : String} {new : Option (List EntityId)}
    {running running' : List EntityId} (hrun : ∀ e ∈ running, IsHttp e) (hne : running ≠ [])
    (h : addConstraint key new running = .ok running') : Narrows running' running := by
  unfold addConstraint at h
  rw [if_neg (by simpa using hne)] at h
  cases new with
  | none => exact absurd h (by simp)  -- the `KeyError`
  | some names =>
      by_cases hempty : names.isEmpty = true
      · simp only [if_pos hempty] at h
        obtain rfl := Except.ok.inj h
        exact .refl hrun
      · simp only [if_neg hempty] at h
        exact narrows_updateSpecs hrun h

/-- A subject that matches an entry matches what the entry refines. -/
theorem Narrows.of_permitted {upd old : List EntityId} (h : Narrows upd old)
    (hold : ∀ e ∈ old, IsHttp e) {sub : EntityId} (hp : permitted sub upd = .ok true) :
    permitted sub old = .ok true := by
  obtain ⟨e, he, hsub⟩ := matchesSome_eq_true hp
  obtain ⟨o, ho, hm⟩ := h e he
  exact (matchesSome_eq_true_iff (isHttp_of_moreSpecific hsub).1 hold).mpr ⟨o, ho, hsub.trans hm⟩

/-- A subject that the wider list rejects is rejected by the narrower one. -/
theorem Narrows.of_rejected {upd old : List EntityId} (h : Narrows upd old)
    (hold : ∀ e ∈ old, IsHttp e) {sub : EntityId} (hr : permitted sub old = .ok false) :
    permitted sub upd = .ok false := by
  cases old with
  | nil =>
      -- nothing refines an entry of the empty list
      obtain rfl : upd = [] := List.eq_nil_iff_forall_not_mem.mpr fun e he => by
        obtain ⟨o, ho, -⟩ := h e he
        exact List.not_mem_nil ho
      exact hr
  | cons o rest =>
      have hsub : IsHttp sub :=
        (isHttp_of_moreSpecific (matchesSome_eq_false hr o (List.mem_cons_self ..))).1
      have hupd : ∀ e ∈ upd, IsHttp e := by
        intro e he
        obtain ⟨o', -, hm⟩ := h e he
        exact (isHttp_of_moreSpecific hm).1
      refine (matchesSome_eq_false_iff hsub hupd).mpr fun e he hm => ?_
      obtain ⟨o', ho', hm'⟩ := h e he
      exact (matchesSome_eq_false_iff hsub hold).mp hr o' ho' (hm.trans hm')

/-! ## Merged names -/

/-- `more_specific` is a preorder on http(s) URLs, and no list of such URLs that `update_specs`
    returns admits a subject the old list does not; nor does what `add_constraints` makes of a
    permitted list that is not empty. -/
theorem moreSpecific_preorder_narrowing :
    (∀ a, IsHttp a → moreSpecific a a = .ok true) ∧
    (∀ a b c, IsHttp a → IsHttp b → IsHttp c →
      moreSpecific a b = .ok true → moreSpecific b c = .ok true → moreSpecific a c = .ok true) ∧
    (∀ new old : List EntityId, (∀ e ∈ new, IsHttp e) → (∀ e ∈ old, IsHttp e) →
      ∃ upd, updateSpecs new old = .ok upd ∧
        ∀ s, permitted s upd = .ok true → permitted s old = .ok true) ∧
    ∀ (new : NamingConstraints) (old upd : NamingState),
      (∀ e ∈ old.permitted, IsHttp e) → old.permitted ≠ [] → addConstraints new old = .ok upd →
        ∀ s, permitted s old.permitted = .ok false → permitted s upd.permitted = .ok false := by
  refine ⟨fun a => Matches.refl, fun a b c _ _ _ => Matches.trans, ?_, ?_⟩
  · intro new old hnew hold
    obtain ⟨upd, hupd⟩ := exists_updateSpecs hnew hold
    exact ⟨upd, hupd, fun s => (narrows_updateSpecs hold hupd).of_permitted hold⟩
  · intro new old upd hold hne hadd s hrejected
    obtain ⟨perm, hperm, hadd⟩ := except_bind_eq_ok.mp hadd
    obtain ⟨excl, -, hadd⟩ := except_bind_eq_ok.mp hadd
    obtain rfl := except_pure_eq_ok.mp hadd
    exact (narrows_addConstraint hold hne hperm).of_rejected hold hrejected

/-- With the domain permitted above, a subordinate that lists another domain besides a host of
    its own gets no further than its host. -/
theorem narrowing_keeps_domain :
    moreSpecific "https://a.op.example.org" "https://a.op.example.org" = .ok true ∧
    moreSpecific "https://a.op.example.org" "https://.example.org" = .ok true ∧
    (∃ upd, updateSpecs ["https://op.example.org", "https://other.com"]
        ["https://.example.org"] = .ok upd ∧
      ∀ s, permitted s upd = .ok true → permitted s ["https://.example.org"] = .ok true) ∧
    permitted "https://other.com" ["https://op.example.org"] = .ok false := by
  have hall := moreSpecific_preorder_narrowing
  refine ⟨hall.1 _ (by decide), ?_, ?_, ?_⟩
  · exact hall.2.1 _ "https://op.example.org" _ (by decide) (by decide) (by decide) (by decide)
      (by decide)
  · exact hall.2.2.1 _ _ (by decide) (by decide)
  · exact hall.2.2.2 ⟨some ["https://op.example.org", "https://other.com"], none⟩
      ⟨["https://.example.org"], []⟩ ⟨["https://op.example.org"], []⟩ (by decide) (by decide) rfl _
      (by decide)

end Fedservice.EntityStatement
