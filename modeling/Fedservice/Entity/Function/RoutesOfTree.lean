/-
  Fedservice.Entity.Function.RoutesOfTree

  The chains of a collected tree by the routes they come down: the authorities from
  the entity upwards.  In a federation where everybody answers and nobody is an
  authority above itself these are the routes along the authority hints, each once,
  and a chain is what is said along its route.
-/

import Fedservice.Entity.Function.CollectionTermination
import Fedservice.Entity.Function.CompleteChains
import Fedservice.Lib.Routes

namespace Fedservice.Entity.Function

open Fedservice.Lib Fedservice.Py Fedservice.EntityStatement Relation

variable {Key : Type}

/-! ## Distinct authorities -/

/-- The keys of the dictionary. -/
def Tree.authorities (t : Tree Key) : List EntityId := t.entries.map (·.1)

@[simp] theorem Tree.authorities_empty : (Tree.empty : Tree Key).authorities = [] := rfl

@[simp] theorem Tree.authorities_blocked (a : EntityId) (others : Tree Key) :
    (Tree.blocked a others).authorities = a :: others.authorities := rfl

@[simp] theorem Tree.authorities_branch (a : EntityId) (s : Token Key) (above others : Tree Key) :
    (Tree.branch a s above others).authorities = a :: others.authorities := rfl

/-- An authority that is set keeps its place, or comes last. -/
theorem Tree.authorities_set (t : Tree Key) (a : EntityId)
    (value : Option (Token Key × Tree Key)) :
    (t.set a value).authorities =
      if a ∈ t.authorities then t.authorities else t.authorities ++ [a] := by
  induction t with
  | empty => cases value <;> simp [Tree.set]
  | blocked b others ih =>
      by_cases hset : b = a
      · cases value <;> simp [Tree.set, hset]
      · have hother : a ≠ b := fun heq => hset heq.symm
        by_cases hmem : a ∈ others.authorities <;> simp [Tree.set, hset, hother, ih, hmem]
  | branch b s above others _ ih =>
      by_cases hset : b = a
      · cases value <;> simp [Tree.set, hset]
      · have hother : a ≠ b := fun heq => hset heq.symm
        by_cases hmem : a ∈ others.authorities <;> simp [Tree.set, hset, hother, ih, hmem]

/-- Setting an entry keeps the authorities distinct. -/
theorem Tree.nodup_authorities_set {t : Tree Key} (h : t.authorities.Nodup) (a : EntityId)
    (value : Option (Token Key × Tree Key)) : (t.set a value).authorities.Nodup := by
  rw [Tree.authorities_set]
  by_cases hmem : a ∈ t.authorities
  · rw [if_pos hmem]
    exact h
  · rw [if_neg hmem, List.nodup_append_comm]
    exact List.nodup_cons.mpr ⟨hmem, h⟩

theorem nodup_authorities_growTree {branchOf : EntityId → Except Exc (Option (Token Key × Tree Key))}
    {t t' : Tree Key} {hints : List EntityId} (h : growTree branchOf t hints = .ok t')
    (hnodup : t.authorities.Nodup) : t'.authorities.Nodup := by
  induction hints generalizing t with
  | nil =>
      obtain rfl := except_pure_eq_ok.mp h
      exact hnodup
  | cons a rest ih =>
      obtain ⟨value, -, h⟩ := except_bind_eq_ok.mp h
      exact ih h (Tree.nodup_authorities_set hnodup a value)

theorem nodup_authorities_superiors [DecidableEq Key] {env : CollectorEnv Key} {stopAt x : EntityId}
    {depth : Nat} {config : Statement Key} {tree : Tree Key}
    (h : superiors env stopAt (depth + 1) x (some config) = .ok tree) : tree.authorities.Nodup := by
  rw [superiors] at h
  cases hhints : config.authorityHints with
  | none =>
      simp only [hhints, except_pure_eq_ok] at h
      rw [← h]
      exact List.nodup_nil
  | some hints =>
      simp only [hhints] at h
      by_cases hstop : config.iss = stopAt
      · rw [if_pos hstop, except_pure_eq_ok] at h
        rw [← h]
        exact List.nodup_nil
      · rw [if_neg hstop] at h
        exact nodup_authorities_growTree h List.nodup_nil

/-! ## Routes -/

/-- The route that a chain comes down, from the entity upwards. -/
def routeOf (c : List (EntityId × Token Key)) : List EntityId := (c.map (·.1)).reverse

/-- The routes of the chains. -/
def Tree.routes (t : Tree Key) : List (List EntityId) := t.chains.map routeOf

theorem routeOf_concat (c : List (EntityId × Token Key)) (a : EntityId) (s : Token Key) :
    routeOf (c ++ [(a, s)]) = a :: routeOf c := by
  simp [routeOf]

/-- The routes that go through one entry. -/
def routesThrough (above : Tree Key) (a : EntityId) : List (List EntityId) :=
  if above.isEmpty then [[a]] else above.routes.map (a :: ·)

theorem routeOf_chainsThrough (above : Tree Key) (a : EntityId) (s : Token Key) :
    (chainsThrough above a s).map routeOf = routesThrough above a := by
  unfold chainsThrough routesThrough
  by_cases hempty : above.isEmpty = true
  · rw [if_pos hempty, if_pos hempty]
    rfl
  · rw [if_neg hempty, if_neg hempty, List.map_map, Tree.routes, List.map_map]
    exact List.map_congr_left fun c _ => routeOf_concat c a s

theorem Tree.routes_branch (a : EntityId) (s : Token Key) (above others : Tree Key) :
    (Tree.branch a s above others).routes = routesThrough above a ++ others.routes := by
  have hsplit : (Tree.branch a s above others).chains = chainsThrough above a s ++ others.chains := by
    rw [Tree.chains, chainsThrough]
    cases above.isEmpty <;> rfl
  rw [Tree.routes, hsplit, List.map_append, routeOf_chainsThrough]
  rfl

/-- A route is empty, from a blocked entry, or goes through an entry: it ends there, or goes on
    along a route of the tree above. -/
theorem Tree.mem_routes {t : Tree Key} {route : List EntityId} :
    route ∈ t.routes ↔ (∃ a, (a, none) ∈ t.entries ∧ route = []) ∨
      ∃ a s above, (a, some (s, above)) ∈ t.entries ∧ ∃ rest, route = a :: rest ∧
        ((above.entries = [] ∧ rest = []) ∨ rest ∈ above.routes) := by
  constructor
  · intro hroute
    obtain ⟨c, hc, rfl⟩ := List.mem_map.mp hroute
    rcases Tree.mem_chains.mp hc with ⟨a, hnone, rfl⟩ | ⟨a, s, above, hentry, hthrough⟩
    · exact Or.inl ⟨a, hnone, rfl⟩
    · refine Or.inr ⟨a, s, above, hentry, ?_⟩
      rcases mem_chainsThrough.mp hthrough with ⟨hempty, rfl⟩ | ⟨upper, hupper, rfl⟩
      · exact ⟨[], rfl, Or.inl ⟨hempty, rfl⟩⟩
      · exact ⟨routeOf upper, routeOf_concat upper a s, Or.inr (List.mem_map_of_mem hupper)⟩
  · rintro (⟨a, hnone, rfl⟩ | ⟨a, s, above, hentry, rest, rfl, ⟨hempty, rfl⟩ | hrest⟩)
    · exact List.mem_map.mpr ⟨[], Tree.mem_chains.mpr (Or.inl ⟨a, hnone, rfl⟩), rfl⟩
    · have hthrough : [(a, s)] ∈ chainsThrough above a s :=
        mem_chainsThrough.mpr (Or.inl ⟨hempty, rfl⟩)
      exact List.mem_map.mpr
        ⟨_, Tree.mem_chains.mpr (Or.inr ⟨a, s, above, hentry, hthrough⟩), rfl⟩
    · obtain ⟨upper, hupper, rfl⟩ := List.mem_map.mp hrest
      have hthrough : upper ++ [(a, s)] ∈ chainsThrough above a s :=
        mem_chainsThrough.mpr (Or.inr ⟨upper, hupper, rfl⟩)
      exact List.mem_map.mpr ⟨_, Tree.mem_chains.mpr (Or.inr ⟨a, s, above, hentry, hthrough⟩),
        routeOf_concat upper a s⟩

/-- Where the authorities are distinct, on every level, so are the routes. -/
theorem Tree.nodup_routes {t : Tree Key} (hopen : ∀ a, (a, none) ∉ t.entries)
    (hnodup : t.authorities.Nodup)
    (habove : ∀ a s above, (a, some (s, above)) ∈ t.entries → above.routes.Nodup) :
    t.routes.Nodup := by
  induction t with
  | empty => exact List.nodup_nil
  | blocked a others _ => exact absurd (List.mem_cons_self ..) (hopen a)
  | branch a s above others _ ih =>
      obtain ⟨ha, hothers⟩ := List.nodup_cons.mp hnodup
      have hopen' : ∀ b, (b, none) ∉ others.entries := fun b hb =>
        hopen b (List.mem_cons_of_mem _ hb)
      rw [Tree.routes_branch]
      refine List.Nodup.append ?_ ?_ ?_
      · have hhere := habove a s above (List.mem_cons_self ..)
        unfold routesThrough
        by_cases hempty : above.isEmpty = true
        · rw [if_pos hempty]
          exact List.nodup_singleton _
        · rw [if_neg hempty]
          exact hhere.map fun _ _ heq => (List.cons.inj heq).2
      · exact ih hopen' hothers fun b s' above' hb => habove b s' above' (List.mem_cons_of_mem _ hb)
      · -- the routes of other entries begin with other authorities
        intro route hroute hother
        obtain ⟨b, hb, rest, rfl⟩ : ∃ b ∈ others.authorities, ∃ rest, route = b :: rest := by
          rcases Tree.mem_routes.mp hother with ⟨b, hnone, -⟩ | ⟨b, s', above', hb, rest, rfl, -⟩
          · exact absurd hnone (hopen' b)
          · exact ⟨b, List.mem_map.mpr ⟨_, hb, rfl⟩, rest, rfl⟩
        unfold routesThrough at hroute
        have heq : b = a := by
          by_cases hempty : above.isEmpty = true
          · rw [if_pos hempty, List.mem_singleton] at hroute
            exact (List.cons.inj hroute).1
          · rw [if_neg hempty] at hroute
            obtain ⟨_, -, heq⟩ := List.mem_map.mp hroute
            exact (List.cons.inj heq).1.symm
        exact ha (heq ▸ hb)

/-! ## What is said along a route -/

variable [DecidableEq Key] {env : CollectorEnv Key} {entities : Finset EntityId}
  {stopAt : EntityId}

/-- What an authority says about an entity, if that is a JWS. -/
def said (env : CollectorEnv Key) (e a : EntityId) : Option (SignedStatement Key) :=
  match statementAbout env e a with
  | .ok (some token) => factory token
  | _ => none

/-- What is said along a route, from the top down to the statement about `e`. -/
def saidAlong (env : CollectorEnv Key) : EntityId → List EntityId → List (SignedStatement Key)
  | _, [] => []
  | e, a :: route => saidAlong env a route ++ (said env e a).toList

theorem said_of_statementAbout {e a : EntityId} {s : SignedStatement Key}
    (h : statementAbout env e a = .ok (some (.jws s))) : said env e a = some s := by
  rw [said, h]
  rfl

/-- Where nobody is an authority above itself every entry of the tree is a branch, with what
    the authority says and the tree of its superiors. -/
theorem branch_of_mem (h : Answering env entities) {depth : Nat} {x a : EntityId}
    (hx : x ∈ entities) (hcycle : NoCycleFrom (Lists env stopAt) x) {config : SelfSigned Key}
    (hconfig : configuration env x = .ok config) {tree : Tree Key}
    (htree : superiors env stopAt (depth + 1) x (some config.payload) = .ok tree)
    {value : Option (Token Key × Tree Key)} (hmem : (a, value) ∈ tree.entries) :
    ∃ config' s above, value = some (.jws s, above) ∧ Lists env stopAt x a ∧
      said env x a = some s ∧ configuration env a = .ok config' ∧
      superiors env stopAt depth a (some config'.payload) = .ok above := by
  rcases entry_cases h hx hconfig htree hmem with
    ⟨-, -, hself⟩ | ⟨config', s, above, rfl, hrefers, hconfig', habove⟩
  · exact absurd (TransGen.single hself) (hcycle x .refl)
  · obtain ⟨-, hsaid, -⟩ := branch_eq_some ((mem_superiors htree).mp hmem).2
    obtain ⟨-, s', rfl⟩ := statementAbout_eq_some hsaid
    exact ⟨config', s', above, rfl, hrefers.1, said_of_statementAbout hsaid, hconfig', habove⟩

/-- The tree of an entity that lists nobody is empty, and no other is. -/
theorem superiors_isEmpty_iff {depth : Nat} {x : EntityId} {config : SelfSigned Key}
    (hconfig : configuration env x = .ok config) {tree : Tree Key}
    (htree : superiors env stopAt depth x (some config.payload) = .ok tree) :
    tree.isEmpty = true ↔ ∀ a, ¬ Lists env stopAt x a := by
  cases depth with
  | zero => exact absurd htree (by simp [superiors])
  | succ depth =>
      rw [Tree.isEmpty_iff]
      constructor
      · rintro hempty a ⟨config', hconfig', hhint⟩
        obtain rfl := Except.ok.inj (hconfig.symm.trans hconfig')
        obtain ⟨value, hmem⟩ := exists_mem_superiors htree hhint
        rw [hempty] at hmem
        exact absurd hmem List.not_mem_nil
      · intro hnone
        refine List.eq_nil_iff_forall_not_mem.mpr fun entry hmem => ?_
        have hmem' : (entry.1, entry.2) ∈ tree.entries := hmem
        exact hnone entry.1 ⟨config, hconfig, ((mem_superiors htree).mp hmem').1⟩

theorem Lists.mem (h : Steady env entities) {x a : EntityId} (hx : x ∈ entities)
    (hlists : Lists env stopAt x a) : a ∈ entities := by
  obtain ⟨config, hconfig, -, hhint⟩ := hlists
  exact h.closed x hx config hconfig a hhint

/-- The routes of the tree are those along the authority hints, -/
theorem mem_routes_iff (h : Answering env entities) {depth : Nat} {x : EntityId}
    (hx : x ∈ entities) (hcycle : NoCycleFrom (Lists env stopAt) x) {config : SelfSigned Key}
    (hconfig : configuration env x = .ok config) {tree : Tree Key}
    (htree : superiors env stopAt depth x (some config.payload) = .ok tree)
    {route : List EntityId} : route ∈ tree.routes ↔ Route (Lists env stopAt) x route := by
  induction depth generalizing x config tree route with
  | zero => exact absurd htree (by simp [superiors])
  | succ depth ih =>
      -- the routes through the entry of an authority, by those of the level above
      have habove : ∀ {a s above}, (a, some (s, above)) ∈ tree.entries → Lists env stopAt x a ∧
          (above.entries = [] ↔ ∀ b, ¬ Lists env stopAt a b) ∧
          ∀ rest, rest ∈ above.routes ↔ Route (Lists env stopAt) a rest := by
        intro a s above hentry
        obtain ⟨config', s', above', heq, hlists, -, hconfig', htree'⟩ :=
          branch_of_mem h hx hcycle hconfig htree hentry
        obtain ⟨-, rfl⟩ := Prod.mk.inj (Option.some.inj heq)
        refine ⟨hlists, ?_, fun rest =>
          ih (hlists.mem h.toSteady hx) (hcycle.step hlists) hconfig' htree'⟩
        rw [← Tree.isEmpty_iff, superiors_isEmpty_iff hconfig' htree']
      constructor
      · intro hroute
        rcases Tree.mem_routes.mp hroute with ⟨a, hnone, -⟩ | ⟨a, s, above, hentry, rest, rfl, hrest⟩
        · obtain ⟨_, _, _, heq, -⟩ := branch_of_mem h hx hcycle hconfig htree hnone
          exact absurd heq (by simp)
        · obtain ⟨hlists, hempty, hroutes⟩ := habove hentry
          refine Route.cons_iff.mpr ⟨hlists, ?_⟩
          rcases hrest with ⟨hnone, rfl⟩ | hrest
          · exact Or.inl ⟨rfl, hempty.mp hnone⟩
          · exact Or.inr ((hroutes rest).mp hrest)
      · intro hroute
        obtain ⟨a, rest, rfl⟩ := List.exists_cons_of_ne_nil hroute.ne_nil
        obtain ⟨⟨own, hown, hhint⟩, hrest⟩ := Route.cons_iff.mp hroute
        obtain rfl := Except.ok.inj (hconfig.symm.trans hown)
        obtain ⟨value, hentry⟩ := exists_mem_superiors htree hhint
        obtain ⟨_, s, above, rfl, -⟩ := branch_of_mem h hx hcycle hconfig htree hentry
        obtain ⟨-, hempty, hroutes⟩ := habove hentry
        refine Tree.mem_routes.mpr (Or.inr ⟨a, .jws s, above, hentry, rest, rfl, ?_⟩)
        rcases hrest with ⟨rfl, hend⟩ | hrest
        · exact Or.inl ⟨hempty.mpr hend, rfl⟩
        · exact Or.inr ((hroutes rest).mpr hrest)

/-- each of them once, -/
theorem nodup_routes (h : Answering env entities) {depth : Nat} {x : EntityId}
    (hx : x ∈ entities) (hcycle : NoCycleFrom (Lists env stopAt) x) {config : SelfSigned Key}
    (hconfig : configuration env x = .ok config) {tree : Tree Key}
    (htree : superiors env stopAt depth x (some config.payload) = .ok tree) :
    tree.routes.Nodup := by
  induction depth generalizing x config tree with
  | zero => exact absurd htree (by simp [superiors])
  | succ depth ih =>
      refine Tree.nodup_routes (fun a hnone => ?_) (nodup_authorities_superiors htree)
        fun a s above hentry => ?_
      · obtain ⟨_, _, _, heq, -⟩ := branch_of_mem h hx hcycle hconfig htree hnone
        exact absurd heq (by simp)
      · obtain ⟨config', _, _, heq, hlists, -, hconfig', habove⟩ :=
          branch_of_mem h hx hcycle hconfig htree hentry
        obtain ⟨-, rfl⟩ := Prod.mk.inj (Option.some.inj heq)
        exact ih (hlists.mem h.toSteady hx) (hcycle.step hlists) hconfig' habove

/-- and a chain is what is said along its route. -/
theorem chain_eq_saidAlong (h : Answering env entities) {depth : Nat} {x : EntityId}
    (hx : x ∈ entities) (hcycle : NoCycleFrom (Lists env stopAt) x) {config : SelfSigned Key}
    (hconfig : configuration env x = .ok config) {tree : Tree Key}
    (htree : superiors env stopAt depth x (some config.payload) = .ok tree)
    {c : List (EntityId × Token Key)} (hc : c ∈ tree.chains) :
    c.map (·.2) = (saidAlong env x (routeOf c)).map .jws := by
  induction depth generalizing x config tree c with
  | zero => exact absurd htree (by simp [superiors])
  | succ depth ih =>
      rcases Tree.mem_chains.mp hc with ⟨a, hnone, -⟩ | ⟨a, s, above, hentry, hchain⟩
      · obtain ⟨_, _, _, heq, -⟩ := branch_of_mem h hx hcycle hconfig htree hnone
        exact absurd heq (by simp)
      · obtain ⟨config', s', _, heq, hlists, hsaid, hconfig', habove⟩ :=
          branch_of_mem h hx hcycle hconfig htree hentry
        obtain ⟨rfl, rfl⟩ := Prod.mk.inj (Option.some.inj heq)
        rcases mem_chainsThrough.mp hchain with ⟨-, rfl⟩ | ⟨upper, hupper, rfl⟩
        · simp [routeOf, saidAlong, hsaid]
        · have hih := ih (hlists.mem h.toSteady hx) (hcycle.step hlists) hconfig' habove hupper
          rw [routeOf_concat, saidAlong, hsaid, List.map_append, hih]
          simp

/-- The chains that `tree2chains` makes of a collected tree, by its routes. -/
theorem tree2chains_eq_map_routes (h : Answering env entities) {depth : Nat} {x : EntityId}
    (hx : x ∈ entities) (hcycle : NoCycleFrom (Lists env stopAt) x) {config : SelfSigned Key}
    (hconfig : configuration env x = .ok config) {tree : Tree Key}
    (htree : superiors env stopAt depth x (some config.payload) = .ok tree) :
    tree2chains tree = tree.routes.map fun route => (saidAlong env x route).map .jws := by
  rw [tree2chains_eq, Tree.routes, List.map_map]
  exact List.map_congr_left fun c hc => chain_eq_saidAlong h hx hcycle hconfig htree hc

end Fedservice.Entity.Function
