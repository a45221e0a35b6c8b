/-
  Fedservice.Entity.Function.CompleteChains

  Where the chains of a collected tree begin.  A branch that is `None` (a trust
  anchor that lists itself, or an authority that cannot be asked) becomes an empty
  prefix, which the statements below it then extend: the chain begins with what
  the entity that lists the authority says.  `NoDeadEnd` says of what is published
  when every chain begins with a statement issued by a top.
-/

import Fedservice.Entity.Function.CollectTrustChains
import Fedservice.Entity.Function.SteadyFederation
import Fedservice.Entity.Function.TreeOfSuperiors
import Mathlib.Data.Finset.Lattice.Fold

namespace Fedservice.Entity.Function

open Fedservice.Lib Fedservice.Py Fedservice.EntityStatement Relation

variable {Key : Type}

/-! ## Chains with the authorities that were asked -/

/-- `tree2chains`, each statement with the authority it was asked from. -/
def Tree.chains : Tree Key → List (List (EntityId × Token Key))
  | .empty => []
  | .blocked _ others => [] :: others.chains
  | .branch authority statement above others =>
      if above.isEmpty then [(authority, statement)] :: others.chains
      else above.chains.map (· ++ [(authority, statement)]) ++ others.chains

theorem tree2chains_eq (t : Tree Key) : tree2chains t = t.chains.map (·.map (·.2)) := by
  induction t with
  | empty => rfl
  | blocked a others ih => rw [tree2chains, Tree.chains, ih]; rfl
  | branch a s above others ihabove ih =>
      rw [tree2chains, Tree.chains]
      by_cases hempty : above.isEmpty = true
      · rw [if_pos hempty, if_pos hempty, ih]
        rfl
      · rw [if_neg hempty, if_neg hempty, ih, ihabove, List.map_append, List.map_map, List.map_map]
        congr 1
        refine List.map_congr_left fun c _ => ?_
        simp

/-- The chains that come down through one entry. -/
def chainsThrough (above : Tree Key) (authority : EntityId) (statement : Token Key) :
    List (List (EntityId × Token Key)) :=
  if above.isEmpty then [[(authority, statement)]]
  else above.chains.map (· ++ [(authority, statement)])

/-- A chain is empty, from a blocked entry, or comes down through an entry. -/
theorem Tree.mem_chains {t : Tree Key} {c : List (EntityId × Token Key)} :
    c ∈ t.chains ↔ (∃ a, (a, none) ∈ t.entries ∧ c = []) ∨
      ∃ a s above, (a, some (s, above)) ∈ t.entries ∧ c ∈ chainsThrough above a s := by
  induction t with
  | empty => simp [Tree.chains, Tree.entries]
  | blocked a others ih =>
      simp only [Tree.chains, Tree.entries, List.mem_cons, ih, Prod.mk.injEq, reduceCtorEq,
        and_false, false_or, and_true]
      constructor
      · rintro (rfl | ⟨b, hb, rfl⟩ | h)
        · exact Or.inl ⟨a, Or.inl rfl, rfl⟩
        · exact Or.inl ⟨b, Or.inr hb, rfl⟩
        · exact Or.inr h
      · rintro (⟨b, -, rfl⟩ | h)
        · exact Or.inl rfl
        · exact Or.inr (Or.inr h)
  | branch a s above others _ ih =>
      have hsplit : c ∈ (Tree.branch a s above others).chains ↔
          c ∈ chainsThrough above a s ∨ c ∈ others.chains := by
        rw [Tree.chains, chainsThrough]
        cases above.isEmpty <;> simp
      rw [hsplit, ih]
      simp only [Tree.entries, List.mem_cons, Prod.mk.injEq, reduceCtorEq, and_false, false_or,
        Option.some.injEq]
      constructor
      · rintro (h | h | ⟨b, s', above', hb, h⟩)
        · exact Or.inr ⟨a, s, above, Or.inl ⟨rfl, rfl, rfl⟩, h⟩
        · exact Or.inl h
        · exact Or.inr ⟨b, s', above', Or.inr hb, h⟩
      · rintro (h | ⟨b, s', above', ⟨rfl, rfl, rfl⟩ | hb, h⟩)
        · exact Or.inr (Or.inl h)
        · exact Or.inl h
        · exact Or.inr (Or.inr ⟨b, s', above', hb, h⟩)

theorem mem_chainsThrough {above : Tree Key} {a : EntityId} {s : Token Key}
    {c : List (EntityId × Token Key)} :
    c ∈ chainsThrough above a s ↔ (above.entries = [] ∧ c = [(a, s)]) ∨
      ∃ upper ∈ above.chains, c = upper ++ [(a, s)] := by
  unfold chainsThrough
  by_cases hempty : above.isEmpty = true
  · -- nothing above: nothing comes down from there
    have hnone : above.chains = [] := by
      cases above with
      | empty => rfl
      | _ => exact absurd hempty (by simp [Tree.isEmpty])
    rw [if_pos hempty, List.mem_singleton, hnone]
    simp [Tree.isEmpty_iff.mp hempty]
  · have hsome : above.entries ≠ [] := fun hnil => hempty (Tree.isEmpty_iff.mpr hnil)
    rw [if_neg hempty, List.mem_map]
    simp [hsome, eq_comm]

/-! ## Going up -/

variable [DecidableEq Key] {env : CollectorEnv Key} {entities : Finset EntityId}
  {stopAt : EntityId}

/-- An authority without a fetch endpoint: its branch cannot be collected. -/
def NoEndpoint (env : CollectorEnv Key) (a : EntityId) : Prop :=
  ∃ endpoint, fetchEndpoint env a = .ok endpoint ∧ endpoint.truthy = false

/-- An authority that `e` lists and that gets no branch: a trust anchor that lists
    itself, or one whose branch cannot be collected. -/
def CannotAsk (env : CollectorEnv Key) (e a : EntityId) : Prop :=
  (e = a ∧ e ∈ env.trustAnchors) ∨ NoEndpoint env a

/-- The collector goes on from `x` to `a`. -/
def Climbs (env : CollectorEnv Key) (stopAt x a : EntityId) : Prop :=
  Lists env stopAt x a ∧ ¬ CannotAsk env x a

/-- A top of the tree: the entity to stop at, a trust anchor, or an entity without
    superiors. -/
def Top (env : CollectorEnv Key) (stopAt a : EntityId) : Prop :=
  a = stopAt ∨ a ∈ env.trustAnchors ∨
    ∃ config, configuration env a = .ok config ∧ config.payload.authorityHints.getD [] = []

/-- The collector does not go on from `a`, or not to everybody that `a` lists. -/
def EndsAt (env : CollectorEnv Key) (stopAt a : EntityId) : Prop :=
  (∀ b, ¬ Lists env stopAt a b) ∨ ∃ b, Lists env stopAt a b ∧ CannotAsk env a b

/-- The chain begins with a statement that a top issued, and not just below a branch
    that could not be collected. -/
def Complete (env : CollectorEnv Key) (stopAt : EntityId) (c : List (EntityId × Token Key)) :
    Prop :=
  ∃ a s rest, c = (a, .jws s) :: rest ∧ Top env stopAt s.payload.iss ∧
    ∀ b, Lists env stopAt a b → (a = b ∧ a ∈ env.trustAnchors) ∨ ¬ NoEndpoint env b

/-- What `b` publishes and what it says about `x`, where a chain that comes down from
    `b` to `x` is complete. -/
structure EndsWell (env : CollectorEnv Key) (stopAt x b : EntityId) : Prop where
  /-- Everybody that `b` lists can be asked, but for a trust anchor that lists itself. -/
  listed : ∀ c, Lists env stopAt b c → (b = c ∧ b ∈ env.trustAnchors) ∨ ¬ NoEndpoint env c
  /-- Where the collector does not go on, `b` speaks in its own name or in a top's. -/
  issuer : EndsAt env stopAt b → ∀ s, statementAbout env x b = .ok (some (.jws s)) →
    s.payload.iss = b ∨ Top env stopAt s.payload.iss
  /-- Who goes by the name of the entity to stop at, and speaks in its own, is a top. -/
  stop : ∀ own, configuration env b = .ok own → own.payload.iss = stopAt →
    ∀ s, statementAbout env x b = .ok (some (.jws s)) → s.payload.iss = b → Top env stopAt b

/-- The collector, on its way up from `e`, asks `b` about `x`. -/
def AsksAbout (env : CollectorEnv Key) (stopAt e : EntityId) (config : Statement Key)
    (x b : EntityId) : Prop :=
  (x = e ∧ Hints stopAt config b) ∨
    ∃ a, Hints stopAt config a ∧ ReflTransGen (Climbs env stopAt) a x ∧ Climbs env stopAt x b

/-- Everybody that the entity lists can be asked, and who is asked on the way up from it
    lists nobody who cannot be, and speaks in its own name. -/
structure NoDeadEnd (env : CollectorEnv Key) (stopAt e : EntityId) (config : Statement Key) :
    Prop where
  first : ∀ a, Hints stopAt config a → ¬ CannotAsk env e a
  above : ∀ x b, AsksAbout env stopAt e config x b → EndsWell env stopAt x b

theorem cannotAsk_of_branch {above : EntityId → Option (Statement Key) → Except Exc (Tree Key)}
    {e a : EntityId} (h : branch env above e a = .ok none) : CannotAsk env e a := by
  unfold branch at h
  by_cases hself : (e = a && decide (e ∈ env.trustAnchors)) = true
  · exact Or.inl (by simpa using hself)
  · rw [if_neg hself] at h
    obtain ⟨found, hsaid, h⟩ := except_bind_eq_ok.mp h
    cases found with
    | none =>
        obtain ⟨endpoint, hendpoint, hsaid⟩ := except_bind_eq_ok.mp hsaid
        -- a statement was asked for, and gives a branch
        by_cases htruthy : endpoint.truthy = true
        · simp only [htruthy, Bool.not_true, Bool.false_eq_true, if_false] at hsaid
          obtain ⟨answer, -, hsaid⟩ := except_bind_eq_ok.mp hsaid
          obtain ⟨statement, -, hsaid⟩ := except_bind_eq_ok.mp hsaid
          exact absurd (except_pure_eq_ok.mp hsaid) (by simp)
        · exact Or.inr ⟨endpoint, hendpoint, by simpa using htruthy⟩
    | some token =>
        obtain ⟨config, -, h⟩ := except_bind_eq_ok.mp h
        obtain ⟨tree, -, h⟩ := except_bind_eq_ok.mp h
        exact absurd (except_pure_eq_ok.mp h) (by simp)

/-- A branch is of an authority that could be asked, with what it said, and its
    configuration is current and gives the tree above it. -/
theorem of_branch_eq_some {depth : Nat} {e a : EntityId} {s : Token Key} {above : Tree Key}
    (h : branch env (superiors env stopAt depth) e a = .ok (some (s, above))) :
    ¬ CannotAsk env e a ∧ statementAbout env e a = .ok (some s) ∧
      ∃ config, configuration env a = .ok config ∧
        superiors env stopAt depth a (some config.payload) = .ok above := by
  obtain ⟨hself, hsaid, config, hconfig, htree⟩ := branch_eq_some h
  refine ⟨?_, hsaid, config, hconfig, ?_⟩
  · rintro (hanchor | ⟨endpoint, hendpoint, hfalse⟩)
    · exact hself hanchor
    · rw [statementAbout, hendpoint, except_ok_bind, hfalse] at hsaid
      exact absurd (except_pure_eq_ok.mp hsaid) (by simp)
  · by_cases hcurrent : isCurrent env config.payload = true
    · rwa [if_pos hcurrent] at htree
    · rw [if_neg hcurrent] at htree
      cases depth <;> exact absurd htree (by simp [superiors])

/-! ## Where chains begin -/

omit [DecidableEq Key] in
theorem ne_nil_of_mem_chainsThrough {above : Tree Key} {a : EntityId} {s : Token Key}
    {c : List (EntityId × Token Key)} (h : c ∈ chainsThrough above a s) : c ≠ [] := by
  rcases mem_chainsThrough.mp h with ⟨-, rfl⟩ | ⟨upper, -, rfl⟩ <;> simp

/-- An authority that is listed and can be asked has a branch. -/
theorem exists_branch {depth : Nat} {a b : EntityId} {config : Statement Key} {above : Tree Key}
    (habove : superiors env stopAt (depth + 1) a (some config) = .ok above)
    (hhint : Hints stopAt config b) (hask : ¬ CannotAsk env a b) :
    ∃ s' above' config', (b, some (s', above')) ∈ above.entries ∧
      statementAbout env a b = .ok (some s') ∧ configuration env b = .ok config' ∧
      superiors env stopAt depth b (some config'.payload) = .ok above' := by
  obtain ⟨value, hmem⟩ := exists_mem_superiors habove hhint
  have hvalue := ((mem_superiors habove).mp hmem).2
  cases value with
  | none => exact absurd (cannotAsk_of_branch hvalue) hask
  | some p =>
      obtain ⟨s', above'⟩ := p
      obtain ⟨-, hsaid, config', hconfig', habove'⟩ := of_branch_eq_some hvalue
      exact ⟨s', above', config', hmem, hsaid, hconfig', habove'⟩

/-- One that cannot be asked is blocked. -/
theorem blocked_of_cannotAsk {depth : Nat} {a b : EntityId} {config : Statement Key}
    {above : Tree Key} (habove : superiors env stopAt (depth + 1) a (some config) = .ok above)
    (hhint : Hints stopAt config b) (hask : CannotAsk env a b) :
    (b, none) ∈ above.entries := by
  obtain ⟨value, hmem⟩ := exists_mem_superiors habove hhint
  have hvalue := ((mem_superiors habove).mp hmem).2
  cases value with
  | none => exact hmem
  | some p => exact absurd hask (of_branch_eq_some hvalue).1

theorem lists_iff {a b : EntityId} {config : SelfSigned Key}
    (hconfig : configuration env a = .ok config) :
    Lists env stopAt a b ↔ Hints stopAt config.payload b := by
  constructor
  · rintro ⟨config', hconfig', hhint⟩
    rw [hconfig, Except.ok.injEq] at hconfig'
    rwa [hconfig']
  · exact fun hhint => ⟨config, hconfig, hhint⟩

/-- Going up from `a`, from which `s` was heard, `s'` is heard from `b`. -/
def Heard (env : CollectorEnv Key) (stopAt a : EntityId) (s : Token Key) (b : EntityId)
    (s' : Token Key) : Prop :=
  (b = a ∧ s' = s) ∨ ∃ x, ReflTransGen (Climbs env stopAt) a x ∧ Climbs env stopAt x b ∧
    statementAbout env x b = .ok (some s')

theorem Heard.reach {a b : EntityId} {s s' : Token Key} (h : Heard env stopAt a s b s') :
    ReflTransGen (Climbs env stopAt) a b := by
  rcases h with ⟨rfl, -⟩ | ⟨x, hreach, hclimbs, -⟩
  · exact ReflTransGen.refl
  · exact hreach.tail hclimbs

/-- What is heard above an authority that `a` lists is heard above `a`. -/
theorem Heard.head {a a' b : EntityId} {s s₁ s' : Token Key} (hclimbs : Climbs env stopAt a a')
    (hsaid : statementAbout env a a' = .ok (some s₁)) (h : Heard env stopAt a' s₁ b s') :
    Heard env stopAt a s b s' := by
  rcases h with ⟨rfl, rfl⟩ | ⟨x, hreach, hlast, hlastSaid⟩
  · exact Or.inr ⟨a, ReflTransGen.refl, hclimbs, hsaid⟩
  · exact Or.inr ⟨x, hreach.head hclimbs, hlast, hlastSaid⟩

/-- It is heard from `a` itself, or above somebody that `a` lists. -/
theorem Heard.cases_head {a b : EntityId} {s s' : Token Key} (h : Heard env stopAt a s b s') :
    (b = a ∧ s' = s) ∨ ∃ a', Climbs env stopAt a a' ∧
      ∀ s₁, statementAbout env a a' = .ok (some s₁) → Heard env stopAt a' s₁ b s' := by
  rcases h with hhere | ⟨x, hreach, hlast, hlastSaid⟩
  · exact Or.inl hhere
  · rcases ReflTransGen.cases_head hreach with rfl | ⟨a', hfirst, hrest⟩
    · refine Or.inr ⟨b, hlast, fun s₁ hsaid => Or.inl ⟨rfl, ?_⟩⟩
      rw [hlastSaid] at hsaid
      exact Option.some.inj (Except.ok.inj hsaid)
    · exact Or.inr ⟨a', hfirst, fun s₁ _ => Or.inr ⟨x, hrest, hlast, hlastSaid⟩⟩

/-- Where the chains begin that come down through an authority: with what is heard from
    everybody above it, itself included, where the collector does not go on. -/
theorem begins_iff {depth : Nat} {a : EntityId} {config : SelfSigned Key}
    (hconfig : configuration env a = .ok config) {above : Tree Key}
    (habove : superiors env stopAt depth a (some config.payload) = .ok above) (s : Token Key)
    {b : EntityId} {s' : Token Key} :
    (∃ c ∈ chainsThrough above a s, ∃ rest, c = (b, s') :: rest) ↔
      Heard env stopAt a s b s' ∧ EndsAt env stopAt b := by
  induction depth generalizing a config above s with
  | zero => exact absurd habove (by simp [superiors])
  | succ depth ih =>
      constructor
      · rintro ⟨c, hc, rest, hbegin⟩
        rcases mem_chainsThrough.mp hc with ⟨hnil, rfl⟩ | ⟨upper, hupper, rfl⟩
        · -- nobody above `a`
          obtain ⟨rfl, rfl⟩ := Prod.mk.inj (List.cons.inj hbegin).1
          refine ⟨Or.inl ⟨rfl, rfl⟩, Or.inl fun b hlists => ?_⟩
          obtain ⟨value, hmem⟩ := exists_mem_superiors habove ((lists_iff hconfig).mp hlists)
          rw [hnil] at hmem
          exact absurd hmem List.not_mem_nil
        · rcases Tree.mem_chains.mp hupper with ⟨b', hmem, rfl⟩ | ⟨b', s₁, above₁, hmem, hthrough⟩
          · -- somebody above `a` that could not be asked
            obtain ⟨rfl, rfl⟩ := Prod.mk.inj (List.cons.inj hbegin).1
            obtain ⟨hhint, hvalue⟩ := (mem_superiors habove).mp hmem
            exact ⟨Or.inl ⟨rfl, rfl⟩,
              Or.inr ⟨b', (lists_iff hconfig).mpr hhint, cannotAsk_of_branch hvalue⟩⟩
          · obtain ⟨hhint, hvalue⟩ := (mem_superiors habove).mp hmem
            obtain ⟨hask, hsaid, config', hconfig', habove'⟩ := of_branch_eq_some hvalue
            obtain ⟨first, upper, rfl⟩ :=
              List.exists_cons_of_ne_nil (ne_nil_of_mem_chainsThrough hthrough)
            obtain ⟨rfl, -⟩ := List.cons.inj hbegin
            obtain ⟨hheard, hends⟩ := (ih hconfig' habove' s₁).mp ⟨_, hthrough, upper, rfl⟩
            exact ⟨hheard.head ⟨(lists_iff hconfig).mpr hhint, hask⟩ hsaid, hends⟩
      · rintro ⟨hheard, hends⟩
        -- the chain is built from the top down, as far as the climb goes
        rcases hheard.cases_head with ⟨rfl, rfl⟩ | ⟨b', ⟨hlists, hask⟩, hrest⟩
        · refine ⟨[(b, s')], mem_chainsThrough.mpr ?_, [], rfl⟩
          rcases hends with hnobody | ⟨b', hlists, hask⟩
          · refine Or.inl ⟨List.eq_nil_iff_forall_not_mem.mpr fun entry hmem => ?_, rfl⟩
            exact hnobody entry.1 ((lists_iff hconfig).mpr ((mem_superiors habove).mp hmem).1)
          · have hmem := blocked_of_cannotAsk habove ((lists_iff hconfig).mp hlists) hask
            exact Or.inr ⟨[], Tree.mem_chains.mpr (Or.inl ⟨b', hmem, rfl⟩), rfl⟩
        · obtain ⟨s₁, above₁, config', hmem, hsaid, hconfig', habove'⟩ :=
            exists_branch habove ((lists_iff hconfig).mp hlists) hask
          obtain ⟨c, hc, rest, rfl⟩ := (ih hconfig' habove' s₁).mpr ⟨hrest s₁ hsaid, hends⟩
          have hchain : (b, s') :: rest ∈ above.chains :=
            Tree.mem_chains.mpr (Or.inr ⟨b', s₁, above₁, hmem, hc⟩)
          exact ⟨_, mem_chainsThrough.mpr (Or.inr ⟨_, hchain, rfl⟩), rest ++ [(a, s)], rfl⟩

/-- What a chain is like that begins with what `b` says about `x`. -/
theorem endsWell_iff {x b : EntityId} {own : SelfSigned Key} {s : SignedStatement Key}
    (hown : configuration env b = .ok own) (hsaid : statementAbout env x b = .ok (some (.jws s))) :
    EndsWell env stopAt x b ↔ (EndsAt env stopAt b → Top env stopAt s.payload.iss ∧
      ∀ c, Lists env stopAt b c → (b = c ∧ b ∈ env.trustAnchors) ∨ ¬ NoEndpoint env c) := by
  have hsame : ∀ {s'}, statementAbout env x b = .ok (some (.jws s')) → s' = s := by
    intro s' hs'
    rw [hsaid] at hs'
    exact (Token.jws.inj (Option.some.inj (Except.ok.inj hs'))).symm
  constructor
  · intro hwell hends
    refine ⟨?_, hwell.listed⟩
    rcases hwell.issuer hends s hsaid with hiss | htop
    · rw [hiss]
      -- `b` lists nobody, or somebody who cannot be asked
      rcases hends with hnobody | ⟨c, hlists, ⟨-, hanchor⟩ | hnone⟩
      · by_cases hstop : own.payload.iss = stopAt
        · exact hwell.stop own hown hstop s hsaid hiss
        · refine Or.inr (Or.inr ⟨own, hown, List.eq_nil_iff_forall_not_mem.mpr fun c hc => ?_⟩)
          exact hnobody c ((lists_iff hown).mpr ⟨hstop, hc⟩)
      · exact Or.inr (Or.inl hanchor)
      · rcases hwell.listed c hlists with ⟨-, hanchor⟩ | hnot
        · exact Or.inr (Or.inl hanchor)
        · exact absurd hnone hnot
    · exact htop
  · intro hends
    refine ⟨fun c hlists => ?_, fun hend s' hs' => ?_, fun own' hown' hstop s' hs' hiss => ?_⟩
    · by_cases hask : CannotAsk env b c
      · exact (hends (Or.inr ⟨c, hlists, hask⟩)).2 c hlists
      · exact Or.inr fun hnone => hask (Or.inr hnone)
    · rw [hsame hs']
      exact Or.inr (hends hend).1
    · have hend : EndsAt env stopAt b :=
        Or.inl fun c hlists => ((lists_iff hown').mp hlists).1 hstop
      obtain rfl := hsame hs'
      rw [← hiss]
      exact (hends hend).1

/-- Who can be reached in a tree has a configuration. -/
theorem configuration_of_reach {depth : Nat} {a b : EntityId} {config : SelfSigned Key}
    (hconfig : configuration env a = .ok config) {above : Tree Key}
    (habove : superiors env stopAt depth a (some config.payload) = .ok above)
    (hreach : ReflTransGen (Climbs env stopAt) a b) : ∃ own, configuration env b = .ok own := by
  induction depth generalizing a config above with
  | zero => exact absurd habove (by simp [superiors])
  | succ depth ih =>
      rcases ReflTransGen.cases_head hreach with rfl | ⟨b', ⟨hlists, hask⟩, hrest⟩
      · exact ⟨config, hconfig⟩
      · obtain ⟨s', above', config', -, -, hconfig', habove'⟩ :=
          exists_branch habove ((lists_iff hconfig).mp hlists) hask
        exact ih hconfig' habove' hrest

/-- And says something about whoever it is asked about. -/
theorem statementAbout_of_climbs {depth : Nat} {a x b : EntityId} {config : SelfSigned Key}
    (hconfig : configuration env a = .ok config) {above : Tree Key}
    (habove : superiors env stopAt depth a (some config.payload) = .ok above)
    (hreach : ReflTransGen (Climbs env stopAt) a x) (hclimbs : Climbs env stopAt x b) :
    ∃ s, statementAbout env x b = .ok (some (.jws s)) := by
  induction depth generalizing a config above with
  | zero => exact absurd habove (by simp [superiors])
  | succ depth ih =>
      rcases ReflTransGen.cases_head hreach with rfl | ⟨b', ⟨hlists, hask⟩, hrest⟩
      · obtain ⟨s', above', config', -, hsaid, -, -⟩ :=
          exists_branch habove ((lists_iff hconfig).mp hclimbs.1) hclimbs.2
        obtain ⟨-, s, rfl⟩ := statementAbout_eq_some hsaid
        exact ⟨s, hsaid⟩
      · obtain ⟨s', above', config', -, -, hconfig', habove'⟩ :=
          exists_branch habove ((lists_iff hconfig).mp hlists) hask
        exact ih hconfig' habove' hrest

/-- All chains of a tree are complete exactly where there is no dead end. -/
theorem all_complete_iff {depth : Nat} {e : EntityId} {config : Statement Key} {tree : Tree Key}
    (htree : superiors env stopAt depth e (some config) = .ok tree) :
    (∀ c ∈ tree.chains, Complete env stopAt c) ↔ NoDeadEnd env stopAt e config := by
  cases depth with
  | zero => exact absurd htree (by simp [superiors])
  | succ depth =>
      constructor
      · intro hall
        have hfirst : ∀ a, Hints stopAt config a → ¬ CannotAsk env e a := by
          intro a hhint hask
          have hmem := blocked_of_cannotAsk htree hhint hask
          obtain ⟨_, _, _, hnil, -⟩ := hall [] (Tree.mem_chains.mpr (Or.inl ⟨a, hmem, rfl⟩))
          exact absurd hnil (by simp)
        -- what is heard where the collector does not go on begins a chain
        have hheard : ∀ {a b s s' above config'}, (a, some (s, above)) ∈ tree.entries →
            configuration env a = .ok config' →
            superiors env stopAt depth a (some config'.payload) = .ok above →
            Heard env stopAt a s b (.jws s') → EndsAt env stopAt b →
            Top env stopAt s'.payload.iss ∧ ∀ c, Lists env stopAt b c →
              (b = c ∧ b ∈ env.trustAnchors) ∨ ¬ NoEndpoint env c := by
          intro a b s s' above config' hmem hconfig' habove hheard hends
          obtain ⟨c, hc, rest, rfl⟩ := (begins_iff hconfig' habove s).mpr ⟨hheard, hends⟩
          obtain ⟨_, _, _, heq, hcomplete⟩ :=
            hall _ (Tree.mem_chains.mpr (Or.inr ⟨a, s, above, hmem, hc⟩))
          obtain ⟨rfl, hs⟩ := Prod.mk.inj (List.cons.inj heq).1
          obtain rfl := Token.jws.inj hs
          exact hcomplete
        refine ⟨hfirst, ?_⟩
        rintro x b (⟨rfl, hhint⟩ | ⟨a, hhint, hreach, hclimbs⟩)
        · obtain ⟨s, above, config', hmem, hsaid, hconfig', habove⟩ :=
            exists_branch htree hhint (hfirst b hhint)
          obtain ⟨-, s, rfl⟩ := statementAbout_eq_some hsaid
          exact (endsWell_iff hconfig' hsaid).mpr
            (hheard hmem hconfig' habove (Or.inl ⟨rfl, rfl⟩))
        · obtain ⟨s, above, config', hmem, -, hconfig', habove⟩ :=
            exists_branch htree hhint (hfirst a hhint)
          obtain ⟨own, hown⟩ := configuration_of_reach hconfig' habove (hreach.tail hclimbs)
          obtain ⟨s', hsaid⟩ := statementAbout_of_climbs hconfig' habove hreach hclimbs
          exact (endsWell_iff hown hsaid).mpr
            (hheard hmem hconfig' habove (Or.inr ⟨x, hreach, hclimbs, hsaid⟩))
      · intro hdead c hc
        rcases Tree.mem_chains.mp hc with ⟨a, hmem, rfl⟩ | ⟨a, s, above, hmem, hthrough⟩
        · obtain ⟨hhint, hvalue⟩ := (mem_superiors htree).mp hmem
          exact absurd (cannotAsk_of_branch hvalue) (hdead.first a hhint)
        · obtain ⟨hhint, hvalue⟩ := (mem_superiors htree).mp hmem
          obtain ⟨-, hfirst, config', hconfig', habove⟩ := of_branch_eq_some hvalue
          obtain ⟨⟨b, s'⟩, rest, rfl⟩ :=
            List.exists_cons_of_ne_nil (ne_nil_of_mem_chainsThrough hthrough)
          obtain ⟨hheard, hends⟩ := (begins_iff hconfig' habove s).mp ⟨_, hthrough, rest, rfl⟩
          obtain ⟨own, hown⟩ := configuration_of_reach hconfig' habove hheard.reach
          -- it is what `b` says about somebody on the way
          obtain ⟨x, hasked, hsaid⟩ : ∃ x, AsksAbout env stopAt e config x b ∧
              statementAbout env x b = .ok (some s') := by
            rcases hheard with ⟨rfl, rfl⟩ | ⟨x, hreach, hclimbs, hsaid⟩
            · exact ⟨e, Or.inl ⟨rfl, hhint⟩, hfirst⟩
            · exact ⟨x, Or.inr ⟨a, hhint, hreach, hclimbs⟩, hsaid⟩
          obtain ⟨-, s, rfl⟩ := statementAbout_eq_some hsaid
          exact ⟨b, s, rest, rfl,
            (endsWell_iff hown hsaid).mp (hdead.above x b hasked) hends⟩

/-! ## The chains that are returned -/

/-- The chains that `collect_trust_chains` returns are those of a collected tree, and
    they are complete exactly where there is no dead end. -/
theorem returned_chains_complete_iff (h : Steady env entities) {e : EntityId} (he : e ∈ entities)
    {token : Token Key} {hints : List EntityId} {chains : List (List (Token Key))}
    {config : SelfSigned Key}
    (hlisted : ∀ a ∈ (collectedFor token hints config).authorityHints.getD [], a ∈ entities)
    {st st' : CollectorState Key} (hst : Reflects env entities st)
    (hreturn : collectTrustChains env e token stopAt hints st = .ok (chains, some config) st') :
    ∃ tree, collectFor env e token stopAt hints st = .ok (some (tree, config)) st' ∧
      chains = tree.chains.map (·.map (·.2)) ∧
      ((∀ c ∈ tree.chains, Complete env stopAt c) ↔
        NoDeadEnd env stopAt e (collectedFor token hints config)) := by
  obtain ⟨found, st₁, hcollect, hreturn⟩ := bind_eq_ok.mp hreturn
  cases found with
  | none =>
      obtain ⟨heq, -⟩ := EStateM.Result.ok.inj hreturn
      exact absurd (Prod.mk.inj heq).2 (by simp)
  | some p =>
      obtain ⟨tree, config'⟩ := p
      have hpure : chains = tree.chains.map (·.map (·.2)) ∧ config' = config ∧ st₁ = st' := by
        by_cases hempty : tree.isEmpty = true
        · simp only [hempty, if_true, pure_apply, EStateM.Result.ok.injEq, Prod.mk.injEq,
            Option.some.injEq] at hreturn
          obtain ⟨⟨rfl, rfl⟩, rfl⟩ := hreturn
          cases tree with
          | empty => exact ⟨rfl, rfl, rfl⟩
          | _ => exact absurd hempty (by simp [Tree.isEmpty])
        · simp only [hempty, Bool.false_eq_true, if_false, pure_apply, EStateM.Result.ok.injEq,
            Prod.mk.injEq, Option.some.injEq] at hreturn
          obtain ⟨⟨rfl, rfl⟩, rfl⟩ := hreturn
          exact ⟨tree2chains_eq tree, rfl, rfl⟩
      obtain ⟨hchains, rfl, rfl⟩ := hpure
      exact ⟨tree, hcollect, hchains,
        all_complete_iff (h.superiors_of_collectFor he hlisted hst hcollect)⟩

/-! ## An authority without a fetch endpoint -/

/-- A leaf below an intermediate, which lists an authority without a fetch endpoint. -/
def belowDeadEnd : List (String × SignedStatement Nat) :=
  [("https://op.org/.well-known/openid-federation",
    ⟨{ iss := "https://op.org", sub := "https://op.org", exp := 1000, jwks := some [3]
       authorityHints := some ["https://im.org"] }, 3⟩),
   ("https://im.org/.well-known/openid-federation",
    ⟨{ iss := "https://im.org", sub := "https://im.org", exp := 1000, jwks := some [2]
       authorityHints := some ["https://end.org"]
       metadata := some (withFetchEndpoint "https://im.org/fetch") }, 2⟩),
   ("https://end.org/.well-known/openid-federation",
    ⟨{ iss := "https://end.org", sub := "https://end.org", exp := 1000, jwks := some [1]
       metadata := some (Dict.ofList [("federation_entity", ∅)]) }, 1⟩),
   ("https://im.org/fetch?https://op.org",
    ⟨{ iss := "https://im.org", sub := "https://op.org", exp := 1000, jwks := some [3] }, 2⟩)]

theorem steady_belowDeadEnd : Steady (onPages [] belowDeadEnd)
    {"https://op.org", "https://im.org", "https://end.org"} := by
  refine steady_onPages (fun e he config hconfig => ?_) (by unfold CacheKeysApart; decide)
  simp only [Finset.mem_insert, Finset.mem_singleton] at he
  rcases he with rfl | rfl | rfl <;> obtain rfl := Except.ok.inj hconfig <;> decide

/-- The chain that is returned for the leaf stops at the intermediate. -/
theorem chain_stops_below_dead_end :
    ¬ ∀ (env : CollectorEnv Nat) (entities : Finset EntityId), Steady env entities →
      ∀ e ∈ entities, Acc (flip (Lists env "")) e → ∀ chains config st',
        collectTrustChains env e (.text "") "" [] {} = .ok (chains, config) st' →
          ∀ c ∈ chains, ∃ s rest, c = .jws s :: rest ∧ Top env "" s.payload.iss := by
  intro hall
  have hend : ∀ a, ¬ Lists (onPages [] belowDeadEnd) "" "https://end.org" a := by
    rintro a ⟨config, hconfig, -, hhint⟩
    obtain rfl := Except.ok.inj hconfig
    exact absurd hhint List.not_mem_nil
  have him : ∀ a, Lists (onPages [] belowDeadEnd) "" "https://im.org" a → a = "https://end.org" := by
    rintro a ⟨config, hconfig, -, hhint⟩
    obtain rfl := Except.ok.inj hconfig
    exact List.mem_singleton.mp hhint
  have hop : ∀ a, Lists (onPages [] belowDeadEnd) "" "https://op.org" a → a = "https://im.org" := by
    rintro a ⟨config, hconfig, -, hhint⟩
    obtain rfl := Except.ok.inj hconfig
    exact List.mem_singleton.mp hhint
  have hacc : Acc (flip (Lists (onPages [] belowDeadEnd) "")) "https://op.org" :=
    Acc.intro _ fun a ha => hop a ha ▸ Acc.intro _ fun b hb => him b hb ▸
      Acc.intro _ fun c hc => absurd hc (hend c)
  have hcomplete := hall (onPages [] belowDeadEnd) _ steady_belowDeadEnd "https://op.org"
    (by decide) hacc _ _ _ rfl
  obtain ⟨s, rest, hbegin, htop⟩ := hcomplete _ (List.mem_singleton_self _)
  obtain rfl := Token.jws.inj (List.cons.inj hbegin).1
  rcases htop with hstop | hanchor | ⟨config, hconfig, hhints⟩
  · exact absurd hstop (by decide)
  · exact absurd hanchor List.not_mem_nil
  · obtain rfl := Except.ok.inj hconfig
    exact absurd hhints (by decide)

/-- A leaf below an intermediate, which lists an authority without superiors that can
    be asked. -/
def belowTop : List (String × SignedStatement Nat) :=
  [("https://op.org/.well-known/openid-federation",
    ⟨{ iss := "https://op.org", sub := "https://op.org", exp := 1000, jwks := some [3]
       authorityHints := some ["https://im.org"] }, 3⟩),
   ("https://im.org/.well-known/openid-federation",
    ⟨{ iss := "https://im.org", sub := "https://im.org", exp := 1000, jwks := some [2]
       authorityHints := some ["https://top.org"]
       metadata := some (withFetchEndpoint "https://im.org/fetch") }, 2⟩),
   ("https://top.org/.well-known/openid-federation",
    ⟨{ iss := "https://top.org", sub := "https://top.org", exp := 1000, jwks := some [1]
       metadata := some (withFetchEndpoint "https://top.org/fetch") }, 1⟩),
   ("https://im.org/fetch?https://op.org",
    ⟨{ iss := "https://im.org", sub := "https://op.org", exp := 1000, jwks := some [3] }, 2⟩),
   ("https://top.org/fetch?https://im.org",
    ⟨{ iss := "https://top.org", sub := "https://im.org", exp := 1000, jwks := some [2] }, 1⟩)]

theorem steady_belowTop : Steady (onPages [] belowTop)
    {"https://op.org", "https://im.org", "https://top.org"} := by
  refine steady_onPages (fun e he config hconfig => ?_) (by unfold CacheKeysApart; decide)
  simp only [Finset.mem_insert, Finset.mem_singleton] at he
  rcases he with rfl | rfl | rfl <;> obtain rfl := Except.ok.inj hconfig <;> decide

/-- The chain through the intermediate begins with what its superior says, so there is no
    dead end. -/
theorem returned_chains_complete_iff_belowTop :
    ∃ tree config st', collectFor (onPages [] belowTop) "https://op.org" (.text "") "" [] {} =
        .ok (some (tree, config)) st' ∧ tree.isEmpty = false ∧
      (∀ c ∈ tree.chains, Complete (onPages [] belowTop) "" c) ∧
      NoDeadEnd (onPages [] belowTop) "" "https://op.org" config.payload := by
  obtain ⟨chains, config, st', hreturn, hlisted, hchains⟩ : ∃ chains config st',
      collectTrustChains (onPages [] belowTop) "https://op.org" (.text "") "" [] {} =
        .ok (chains, some config) st' ∧
      (∀ a ∈ (collectedFor (.text "") [] config).authorityHints.getD [],
        a ∈ ({"https://op.org", "https://im.org", "https://top.org"} : Finset EntityId)) ∧
      ∀ t : Tree Nat, collectFor (onPages [] belowTop) "https://op.org" (.text "") "" [] {} =
          .ok (some (t, config)) st' →
        t.isEmpty = false ∧ ∀ c ∈ t.chains, ∃ s rest, c = ("https://top.org", .jws s) :: rest ∧
          s.payload.iss = "https://top.org" := by
    refine ⟨_, _, _, rfl, by decide, fun t ht => ?_⟩
    obtain ⟨heq, -⟩ := EStateM.Result.ok.inj ht
    obtain ⟨rfl, -⟩ := Prod.mk.inj (Option.some.inj heq)
    refine ⟨rfl, fun c hc => ?_⟩
    obtain rfl := List.mem_singleton.mp hc
    exact ⟨_, _, rfl, rfl⟩
  have hnobody : ∀ b, ¬ Lists (onPages [] belowTop) "" "https://top.org" b := by
    rintro b ⟨own, hown, -, hhint⟩
    obtain rfl := Except.ok.inj hown
    exact absurd hhint List.not_mem_nil
  obtain ⟨tree, hcollect, -, hiff⟩ := returned_chains_complete_iff steady_belowTop
    (by decide) hlisted reflects_empty hreturn
  obtain ⟨hsome, hbegins⟩ := hchains tree hcollect
  have hall : ∀ c ∈ tree.chains, Complete (onPages [] belowTop) "" c := by
    intro c hc
    obtain ⟨s, rest, rfl, hiss⟩ := hbegins c hc
    refine ⟨_, s, rest, rfl, ?_, fun b hb => absurd hb (hnobody b)⟩
    rw [hiss]
    exact Or.inr (Or.inr ⟨_, rfl, rfl⟩)
  exact ⟨tree, config, st', hcollect, hsome, hall, hiff.mp hall⟩

end Fedservice.Entity.Function
