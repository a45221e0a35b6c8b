/-
  Fedservice.Entity.Function.CollectionTermination

  `collect_tree` keeps a list of the authorities it has seen, and only logs that
  it meets one of them again.  In a federation that answers every question it
  comes to an end exactly where no authority leads back to itself.
-/

import Fedservice.Entity.Function.SteadyFederation
import Fedservice.Entity.Function.TreeOfSuperiors
import Fedservice.Lib.BoundedDepth

namespace Fedservice.Entity.Function

open Fedservice.Lib Fedservice.Py Fedservice.EntityStatement Relation

variable {Key : Type} [DecidableEq Key] {env : CollectorEnv Key} {entities : Finset EntityId}
  {stopAt : EntityId}

/-! ## Walking up a federation -/

/-- The collector goes on from `x` to `a`: not where a trust anchor lists itself. -/
def Refers (env : CollectorEnv Key) (stopAt x a : EntityId) : Prop :=
  Lists env stopAt x a ∧ ¬ (x = a ∧ x ∈ env.trustAnchors)

/-- Every fetch answers: each entity publishes a configuration, and an authority that
    it lists has a fetch endpoint and hands out a statement about it. -/
structure Answering (env : CollectorEnv Key) (entities : Finset EntityId) : Prop
    extends Steady env entities where
  publishes : ∀ e ∈ entities, ∃ config, configuration env e = .ok config
  answers : ∀ e ∈ entities, ∀ config, configuration env e = .ok config →
    ∀ a ∈ config.payload.authorityHints.getD [], ¬ (e = a ∧ e ∈ env.trustAnchors) →
      ∃ config' location s,
      configuration env a = .ok config' ∧ isCurrent env config'.payload = true ∧
      getEndpoint "fetch" config'.payload = .ok (.str location) ∧ location ≠ "" ∧
      view env (.str location) a e = .ok (.jws s)

/-- The call ends, given a deep enough stack. -/
def Terminates (env : CollectorEnv Key) (stopAt e : EntityId) (config : Statement Key)
    (seen : List EntityId) (st : CollectorState Key) : Prop :=
  ∃ depth, ∀ st', collectTree env stopAt depth e (some config) seen st ≠ .error .recursionError st'

/-- No authority occurs twice on a path of a tree that is returned. -/
def NoneTwice (env : CollectorEnv Key) (stopAt e : EntityId) (config : Statement Key)
    (seen : List EntityId) (st : CollectorState Key) : Prop :=
  ∀ depth tree st', collectTree env stopAt depth e (some config) seen st = .ok tree st' →
    ∀ path ∈ tree.paths, path.Nodup

/-! ## The tree of an answering federation -/

theorem Refers.mem (h : Steady env entities) {x a : EntityId} (hx : x ∈ entities)
    (hrefers : Refers env stopAt x a) : a ∈ entities := by
  obtain ⟨⟨config, hconfig, -, hhint⟩, -⟩ := hrefers
  exact h.closed x hx config hconfig a hhint

/-- What an authority says about an entity that lists it. -/
theorem Answering.statementAbout (h : Answering env entities) {a e : EntityId}
    (he : e ∈ entities) (hrefers : Refers env stopAt e a) :
    ∃ config s, configuration env a = .ok config ∧ isCurrent env config.payload = true ∧
      statementAbout env e a = .ok (some (.jws s)) := by
  obtain ⟨⟨own, hown, -, hhint⟩, hself⟩ := hrefers
  obtain ⟨config, location, s, hconfig, hcurrent, hendpoint, hne, hs⟩ :=
    h.answers e he own hown a hhint hself
  refine ⟨config, s, hconfig, hcurrent, ?_⟩
  have htruthy : (!(Json.str location).truthy) = false := by simp [Json.truthy, hne]
  rw [Function.statementAbout, fetchEndpoint, hconfig, except_ok_bind, hendpoint, except_ok_bind,
    htruthy]
  simp [hs, unverifiedEntityStatement]

/-- The branch of an authority that the collector goes on to. -/
theorem Answering.branch (h : Answering env entities) {a e : EntityId} (he : e ∈ entities)
    (hrefers : Refers env stopAt e a)
    (above : EntityId → Option (Statement Key) → Except Exc (Tree Key)) :
    ∃ config s, configuration env a = .ok config ∧
      branch env above e a =
        (above a (some config.payload) >>= fun tree => .ok (some (Token.jws s, tree))) := by
  obtain ⟨config, s, hconfig, hcurrent, hsaid⟩ := h.statementAbout he hrefers
  refine ⟨config, s, hconfig, ?_⟩
  have hself' : ¬ (e = a && decide (e ∈ env.trustAnchors)) = true := by simpa using hrefers.2
  rw [Function.branch, if_neg hself', hsaid, except_ok_bind]
  simp only [hconfig, except_ok_bind, hcurrent, if_true]
  rfl

/-- The branch of a trust anchor that lists itself. -/
theorem branch_of_self {a : EntityId} (ha : a ∈ env.trustAnchors)
    (above : EntityId → Option (Statement Key) → Except Exc (Tree Key)) :
    branch env above a a = .ok none := by
  have hself : (a = a && decide (a ∈ env.trustAnchors)) = true := by simpa using ha
  rw [branch, if_pos hself]
  rfl

/-- Where the tree can be had, so can those of the authorities it goes on to. -/
theorem superiors_of_refers (h : Answering env entities) {depth : Nat} {x a : EntityId}
    (hx : x ∈ entities) {config : SelfSigned Key} (hconfig : configuration env x = .ok config)
    {tree : Tree Key} (htree : superiors env stopAt (depth + 1) x (some config.payload) = .ok tree)
    (hrefers : Refers env stopAt x a) :
    ∃ config' above s, configuration env a = .ok config' ∧
      superiors env stopAt depth a (some config'.payload) = .ok above ∧
      (a, some (s, above)) ∈ tree.entries := by
  obtain ⟨config', s, hconfig', hbranch⟩ := h.branch hx hrefers (superiors env stopAt depth)
  obtain ⟨⟨config₁, hconfig₁, hhint⟩, -⟩ := hrefers
  obtain rfl : config₁ = config := by
    rw [hconfig, Except.ok.injEq] at hconfig₁
    exact hconfig₁.symm
  obtain ⟨value, hmem⟩ := exists_mem_superiors htree hhint
  obtain ⟨-, hvalue⟩ := (mem_superiors htree).mp hmem
  rw [hbranch] at hvalue
  obtain ⟨above, habove, hpure⟩ := except_bind_eq_ok.mp hvalue
  obtain rfl := Except.ok.inj hpure
  exact ⟨config', above, Token.jws s, hconfig', habove, hmem⟩

/-- With the trees of the authorities it goes on to, the tree can be had. -/
theorem superiors_of_forall (h : Answering env entities) {depth : Nat} {x : EntityId}
    (hx : x ∈ entities) {config : SelfSigned Key} (hconfig : configuration env x = .ok config)
    (habove : ∀ a, Refers env stopAt x a → ∀ config', configuration env a = .ok config' →
      ∃ tree, superiors env stopAt depth a (some config'.payload) = .ok tree) :
    ∃ tree, superiors env stopAt (depth + 1) x (some config.payload) = .ok tree := by
  refine superiors_of_branches fun a hhint => ?_
  have hlists : Lists env stopAt x a := ⟨config, hconfig, hhint⟩
  by_cases hself : x = a ∧ x ∈ env.trustAnchors
  · obtain ⟨rfl, hanchor⟩ := hself
    exact ⟨none, branch_of_self hanchor _⟩
  · have hrefers : Refers env stopAt x a := ⟨hlists, hself⟩
    obtain ⟨config', s, hconfig', hbranch⟩ := h.branch hx hrefers (superiors env stopAt depth)
    obtain ⟨tree, htree⟩ := habove a hrefers config' hconfig'
    exact ⟨some (Token.jws s, tree), by rw [hbranch, htree]; rfl⟩

/-- Nothing but the stack runs out. -/
theorem superiors_error (h : Answering env entities) {depth : Nat} {x : EntityId}
    (hx : x ∈ entities) {config : SelfSigned Key} (hconfig : configuration env x = .ok config)
    {e : Exc} (herror : superiors env stopAt depth x (some config.payload) = .error e) :
    e = .recursionError := by
  induction depth generalizing x config with
  | zero => exact (Except.error.inj herror).symm
  | succ depth ih =>
      obtain ⟨a, hhint, hraise⟩ := branch_error_of_superiors herror
      have hlists : Lists env stopAt x a := ⟨config, hconfig, hhint⟩
      by_cases hself : x = a ∧ x ∈ env.trustAnchors
      · obtain ⟨rfl, hanchor⟩ := hself
        rw [branch_of_self hanchor] at hraise
        exact absurd hraise (by simp)
      · have hrefers : Refers env stopAt x a := ⟨hlists, hself⟩
        obtain ⟨config', s, hconfig', hbranch⟩ := h.branch hx hrefers (superiors env stopAt depth)
        rw [hbranch] at hraise
        cases habove : superiors env stopAt depth a (some config'.payload) with
        | ok tree => simp [habove] at hraise
        | error e' =>
            rw [habove, except_error_bind, Except.error.injEq] at hraise
            obtain rfl := hraise
            exact ih (hrefers.mem h.toSteady hx) hconfig' habove

/-! ## Termination -/

/-- The levels of a collection. -/
theorem Answering.boundedDepth (h : Answering env entities) (stopAt : EntityId) :
    BoundedDepth entities (Refers env stopAt) (fun _ => True)
      (fun depth x => ∃ config tree, configuration env x = .ok config ∧
        superiors env stopAt depth x (some config.payload) = .ok tree) where
  closed x hx a hrefers := hrefers.mem h.toSteady hx
  zero x _ := fun ⟨config, tree, _, htree⟩ => absurd htree (by simp [superiors])
  succ depth x hx := by
    rw [true_and]
    constructor
    · rintro ⟨config, tree, hconfig, htree⟩ a hrefers
      obtain ⟨config', above, s, hconfig', habove, -⟩ :=
        superiors_of_refers h hx hconfig htree hrefers
      exact ⟨config', above, hconfig', habove⟩
    · intro hall
      obtain ⟨config, hconfig⟩ := h.publishes x hx
      have habove : ∀ a, Refers env stopAt x a → ∀ config', configuration env a = .ok config' →
          ∃ tree, superiors env stopAt depth a (some config'.payload) = .ok tree := by
        intro a hrefers config' hconfig'
        obtain ⟨config'', tree, hconfig'', htree⟩ := hall a hrefers
        obtain rfl := Except.ok.inj (hconfig'.symm.trans hconfig'')
        exact ⟨tree, htree⟩
      obtain ⟨tree, htree⟩ := superiors_of_forall h hx hconfig habove
      exact ⟨config, tree, hconfig, htree⟩

/-- Some stack is deep enough for the tree exactly where no walk upwards meets a cycle. -/
theorem exists_superiors_iff_noCycleFrom (h : Answering env entities) {x : EntityId}
    (hx : x ∈ entities) {config : SelfSigned Key} (hconfig : configuration env x = .ok config) :
    (∃ depth tree, superiors env stopAt depth x (some config.payload) = .ok tree) ↔
      NoCycleFrom (Refers env stopAt) x := by
  have hexists := (h.boundedDepth stopAt).exists_iff hx
  rw [and_iff_left fun _ _ => trivial] at hexists
  rw [← hexists]
  constructor
  · rintro ⟨depth, tree, htree⟩
    exact ⟨depth, config, tree, hconfig, htree⟩
  · rintro ⟨depth, config', tree, hconfig', htree⟩
    obtain rfl := Except.ok.inj (hconfig.symm.trans hconfig')
    exact ⟨depth, tree, htree⟩

theorem terminates_iff_noCycleFrom (h : Answering env entities) {e : EntityId} (he : e ∈ entities)
    {config : SelfSigned Key} (hconfig : configuration env e = .ok config) (seen : List EntityId)
    {st : CollectorState Key} (hst : Reflects env entities st) :
    Terminates env stopAt e config.payload seen st ↔ NoCycleFrom (Refers env stopAt) e := by
  have houtcome : ∀ depth, outcome (collectTree env stopAt depth e (some config.payload) seen st) =
      superiors env stopAt depth e (some config.payload) := by
    intro depth
    have hclosed := h.closed e he config hconfig
    exact (h.toSteady.collectTree stopAt depth he (by simpa using hclosed) seen st hst).1
  rw [← exists_superiors_iff_noCycleFrom h he hconfig]
  constructor
  · rintro ⟨depth, hends⟩
    cases htree : superiors env stopAt depth e (some config.payload) with
    | ok tree => exact ⟨depth, tree, htree⟩
    | error err =>
        -- it would have been the stack
        obtain rfl := superiors_error h he hconfig htree
        rw [← houtcome depth] at htree
        obtain ⟨st', hraise⟩ := outcome_eq_error.mp htree
        exact absurd hraise (hends st')
  · rintro ⟨depth, tree, htree⟩
    refine ⟨depth, fun st' hraise => ?_⟩
    have hout := houtcome depth
    rw [hraise, htree] at hout
    exact absurd hout (by simp)

/-! ## Paths -/

/-- No entity that is reached leads back to itself, and no trust anchor above the
    first entity lists itself. -/
def NoReturn (env : CollectorEnv Key) (stopAt e : EntityId) : Prop :=
  NoCycleFrom (Refers env stopAt) e ∧
    ∀ a, TransGen (Refers env stopAt) e a → ¬ Lists env stopAt a a

theorem NoReturn.step {x a : EntityId} (h : NoReturn env stopAt x)
    (hrefers : Refers env stopAt x a) : NoReturn env stopAt a :=
  ⟨h.1.step hrefers, fun b hb => h.2 b (TransGen.head hrefers hb)⟩

/-- The first step of a path that a tree holds. -/
theorem entry_cases (h : Answering env entities) {depth : Nat} {x a : EntityId}
    (hx : x ∈ entities) {config : SelfSigned Key} (hconfig : configuration env x = .ok config)
    {tree : Tree Key} (htree : superiors env stopAt (depth + 1) x (some config.payload) = .ok tree)
    {value : Option (Token Key × Tree Key)} (hmem : (a, value) ∈ tree.entries) :
    (value = none ∧ a = x ∧ Lists env stopAt x x) ∨
      ∃ config' s above, value = some (s, above) ∧ Refers env stopAt x a ∧
        configuration env a = .ok config' ∧
        superiors env stopAt depth a (some config'.payload) = .ok above := by
  obtain ⟨hhint, hvalue⟩ := (mem_superiors htree).mp hmem
  have hlists : Lists env stopAt x a := ⟨config, hconfig, hhint⟩
  by_cases hself : x = a ∧ x ∈ env.trustAnchors
  · obtain ⟨rfl, hanchor⟩ := hself
    rw [branch_of_self hanchor, Except.ok.injEq] at hvalue
    exact Or.inl ⟨hvalue.symm, rfl, hlists⟩
  · have hrefers : Refers env stopAt x a := ⟨hlists, hself⟩
    obtain ⟨config', s, hconfig', hbranch⟩ := h.branch hx hrefers (superiors env stopAt depth)
    rw [hbranch] at hvalue
    obtain ⟨above, habove, hpure⟩ := except_bind_eq_ok.mp hvalue
    exact Or.inr ⟨config', .jws s, above, (Except.ok.inj hpure).symm, hrefers, hconfig', habove⟩

/-- Who is met on a path was reached, or lists itself. -/
theorem reached_of_mem_path (h : Answering env entities) {depth : Nat} {x : EntityId}
    (hx : x ∈ entities) {config : SelfSigned Key} (hconfig : configuration env x = .ok config)
    {tree : Tree Key} (htree : superiors env stopAt depth x (some config.payload) = .ok tree)
    {path : List EntityId} (hpath : path ∈ tree.paths) {b : EntityId} (hb : b ∈ path) :
    TransGen (Refers env stopAt) x b ∨
      (ReflTransGen (Refers env stopAt) x b ∧ Lists env stopAt b b) := by
  induction depth generalizing x config tree path with
  | zero => exact absurd htree (by simp [superiors])
  | succ depth ih =>
      rcases Tree.mem_paths.mp hpath with rfl | ⟨a, hmem, rfl⟩ | ⟨a, s, above, hmem, rest, hrest, rfl⟩
      · exact absurd hb List.not_mem_nil
      · rcases entry_cases h hx hconfig htree hmem with ⟨-, rfl, hlists⟩ | ⟨_, _, _, heq, -⟩
        · obtain rfl := List.mem_singleton.mp hb
          exact Or.inr ⟨ReflTransGen.refl, hlists⟩
        · exact absurd heq (by simp)
      · rcases entry_cases h hx hconfig htree hmem with ⟨heq, -⟩ |
          ⟨config', s', above', heq, hrefers, hconfig', habove⟩
        · exact absurd heq (by simp)
        · obtain ⟨-, rfl⟩ := Prod.mk.inj (Option.some.inj heq)
          rcases List.mem_cons.mp hb with rfl | hb
          · exact Or.inl (TransGen.single hrefers)
          · have ha := hrefers.mem h.toSteady hx
            rcases ih ha hconfig' habove hrest hb with hreach | ⟨hreach, hlists⟩
            · exact Or.inl (TransGen.head hrefers hreach)
            · exact Or.inr ⟨ReflTransGen.head hrefers hreach, hlists⟩

/-- Where nobody leads back to itself nobody occurs twice. -/
theorem nodup_of_noReturn (h : Answering env entities) {depth : Nat} {x : EntityId}
    (hx : x ∈ entities) {config : SelfSigned Key} (hconfig : configuration env x = .ok config)
    {tree : Tree Key} (htree : superiors env stopAt depth x (some config.payload) = .ok tree)
    (hreturn : NoReturn env stopAt x) {path : List EntityId} (hpath : path ∈ tree.paths) :
    path.Nodup := by
  induction depth generalizing x config tree path with
  | zero => exact absurd htree (by simp [superiors])
  | succ depth ih =>
      rcases Tree.mem_paths.mp hpath with rfl | ⟨a, hmem, rfl⟩ | ⟨a, s, above, hmem, rest, hrest, rfl⟩
      · exact List.nodup_nil
      · exact List.nodup_singleton a
      · rcases entry_cases h hx hconfig htree hmem with ⟨heq, -⟩ |
          ⟨config', s', above', heq, hrefers, hconfig', habove⟩
        · exact absurd heq (by simp)
        · obtain ⟨-, rfl⟩ := Prod.mk.inj (Option.some.inj heq)
          have ha := hrefers.mem h.toSteady hx
          refine List.nodup_cons.mpr
            ⟨fun hagain => ?_, ih ha hconfig' habove (hreturn.step hrefers) hrest⟩
          rcases reached_of_mem_path h ha hconfig' habove hrest hagain with hcycle | ⟨-, hlists⟩
          · exact hreturn.1 a (ReflTransGen.single hrefers) hcycle
          · exact hreturn.2 a (TransGen.single hrefers) hlists

/-- The path to a trust anchor that lists itself. -/
theorem self_mem_paths {depth : Nat} {x : EntityId} {config : SelfSigned Key}
    (hconfig : configuration env x = .ok config) {tree : Tree Key}
    (htree : superiors env stopAt depth x (some config.payload) = .ok tree)
    (hlists : Lists env stopAt x x) (hanchor : x ∈ env.trustAnchors) : [x] ∈ tree.paths := by
  cases depth with
  | zero => exact absurd htree (by simp [superiors])
  | succ depth =>
      obtain ⟨config', hconfig', hhint⟩ := hlists
      rw [hconfig, Except.ok.injEq] at hconfig'
      have hmem : (x, none) ∈ tree.entries :=
        (mem_superiors htree).mpr ⟨hconfig' ▸ hhint, branch_of_self hanchor _⟩
      exact Tree.mem_paths.mpr (Or.inr (Or.inl ⟨x, hmem, rfl⟩))

/-- A trust anchor above the first entity that lists itself occurs twice on a path. -/
theorem twice_of_lists (h : Answering env entities) {y : EntityId} (hlists : Lists env stopAt y y)
    (hanchor : y ∈ env.trustAnchors) {x : EntityId}
    (hreach : TransGen (Refers env stopAt) x y) {depth : Nat} (hx : x ∈ entities)
    {config : SelfSigned Key} (hconfig : configuration env x = .ok config) {tree : Tree Key}
    (htree : superiors env stopAt depth x (some config.payload) = .ok tree) :
    ∃ path ∈ tree.paths, ¬ path.Nodup := by
  induction hreach using TransGen.head_induction_on generalizing depth config tree with
  | single hrefers =>
      cases depth with
      | zero => exact absurd htree (by simp [superiors])
      | succ depth =>
          obtain ⟨config', above, s, hconfig', habove, hmem⟩ :=
            superiors_of_refers h hx hconfig htree hrefers
          have hself := self_mem_paths hconfig' habove hlists hanchor
          refine ⟨[y, y], ?_, by simp⟩
          exact Tree.mem_paths.mpr (Or.inr (Or.inr ⟨y, s, above, hmem, [y], hself, rfl⟩))
  | @head x a hrefers _ ih =>
      cases depth with
      | zero => exact absurd htree (by simp [superiors])
      | succ depth =>
          obtain ⟨config', above, s, hconfig', habove, hmem⟩ :=
            superiors_of_refers h hx hconfig htree hrefers
          obtain ⟨path, hpath, htwice⟩ := ih (hrefers.mem h.toSteady hx) hconfig' habove
          refine ⟨a :: path, ?_, fun hnodup => htwice (List.nodup_cons.mp hnodup).2⟩
          exact Tree.mem_paths.mpr (Or.inr (Or.inr ⟨a, s, above, hmem, path, hpath, rfl⟩))

/-! ## Collection ends -/

/-- Collecting the superiors of an entity ends, and no authority occurs twice on a
    path of the tree, exactly where none leads back to itself. -/
theorem collection_ends_iff (h : Answering env entities) {e : EntityId} (he : e ∈ entities)
    {config : SelfSigned Key} (hconfig : configuration env e = .ok config) (seen : List EntityId)
    {st : CollectorState Key} (hst : Reflects env entities st) :
    Terminates env stopAt e config.payload seen st ∧ NoneTwice env stopAt e config.payload seen st ↔
      NoReturn env stopAt e := by
  have hclosed : ∀ c ∈ some config.payload, ∀ a ∈ c.authorityHints.getD [], a ∈ entities := by
    simpa using h.closed e he config hconfig
  have hyields := fun depth => h.toSteady.collectTree stopAt depth he hclosed seen st hst
  constructor
  · rintro ⟨hends, htwice⟩
    have hcycle := (terminates_iff_noCycleFrom h he hconfig seen hst).mp hends
    refine ⟨hcycle, fun a hreach hlists => ?_⟩
    by_cases hanchor : a ∈ env.trustAnchors
    · -- the tree there is would have a path with `a` twice
      obtain ⟨depth, tree, htree⟩ := (exists_superiors_iff_noCycleFrom h he hconfig).mpr hcycle
      obtain ⟨path, hpath, hdup⟩ := twice_of_lists h hlists hanchor hreach he hconfig htree
      rw [← (hyields depth).1] at htree
      obtain ⟨st', hreturn⟩ := outcome_eq_ok.mp htree
      exact hdup (htwice depth tree st' hreturn path hpath)
    · exact hcycle a hreach.to_reflTransGen (TransGen.single ⟨hlists, fun hself => hanchor hself.2⟩)
  · intro hreturn
    refine ⟨(terminates_iff_noCycleFrom h he hconfig seen hst).mpr hreturn.1, ?_⟩
    intro depth tree st' hcollect path hpath
    have hout := (hyields depth).1
    rw [hcollect, outcome_ok] at hout
    exact nodup_of_noReturn h he hconfig hout.symm hreturn hpath

/-! ## Two routes to a trust anchor -/

/-- A leaf below a trust anchor, to which it also has a way over an intermediate. -/
def twoWaysUp : List (String × SignedStatement Nat) :=
  [("https://op.org/.well-known/openid-federation",
    ⟨{ iss := "https://op.org", sub := "https://op.org", exp := 1000, jwks := some [3]
       authorityHints := some ["https://im.org", "https://ta.org"]
       metadata := some (Dict.ofList [("openid_provider", ∅)]) }, 3⟩),
   ("https://im.org/.well-known/openid-federation",
    ⟨{ iss := "https://im.org", sub := "https://im.org", exp := 1000, jwks := some [2]
       authorityHints := some ["https://ta.org"]
       metadata := some (withFetchEndpoint "https://im.org/fetch") }, 2⟩),
   ("https://ta.org/.well-known/openid-federation",
    ⟨{ iss := "https://ta.org", sub := "https://ta.org", exp := 1000, jwks := some [1]
       metadata := some (withFetchEndpoint "https://ta.org/fetch") }, 1⟩),
   ("https://im.org/fetch?https://op.org",
    ⟨{ iss := "https://im.org", sub := "https://op.org", exp := 900, jwks := some [3] }, 2⟩),
   ("https://ta.org/fetch?https://op.org",
    ⟨{ iss := "https://ta.org", sub := "https://op.org", exp := 900, jwks := some [3] }, 1⟩),
   ("https://ta.org/fetch?https://im.org",
    ⟨{ iss := "https://ta.org", sub := "https://im.org", exp := 900, jwks := some [2] }, 1⟩)]

/-- The entities of this federation. -/
def twoWaysUpEntities : Finset EntityId := {"https://op.org", "https://im.org", "https://ta.org"}

/-- Who is listed there by whom. -/
def twoWaysUpHints : List (EntityId × EntityId) :=
  [("https://op.org", "https://im.org"), ("https://op.org", "https://ta.org"),
    ("https://im.org", "https://ta.org")]

theorem mem_twoWaysUpHints {e a : EntityId} (he : e ∈ twoWaysUpEntities)
    {config : SelfSigned Nat}
    (hconfig : configuration (onPages ["https://ta.org"] twoWaysUp) e = .ok config)
    (ha : a ∈ config.payload.authorityHints.getD []) : (e, a) ∈ twoWaysUpHints := by
  simp only [twoWaysUpEntities, Finset.mem_insert, Finset.mem_singleton] at he
  rcases he with rfl | rfl | rfl <;> obtain rfl := Except.ok.inj hconfig
  · rcases List.mem_cons.mp ha with rfl | ha
    · decide
    · obtain rfl := List.mem_singleton.mp ha
      decide
  · obtain rfl := List.mem_singleton.mp ha
    decide
  · exact absurd ha List.not_mem_nil

theorem answering_twoWaysUp :
    Answering (onPages ["https://ta.org"] twoWaysUp) twoWaysUpEntities where
  toSteady := by
    refine steady_onPages (fun e he config hconfig a ha => ?_) (by unfold CacheKeysApart; decide)
    have hpair := mem_twoWaysUpHints he hconfig ha
    simp only [twoWaysUpHints, List.mem_cons, List.not_mem_nil, or_false, Prod.mk.injEq] at hpair
    rcases hpair with ⟨rfl, rfl⟩ | ⟨rfl, rfl⟩ | ⟨rfl, rfl⟩ <;> decide
  publishes e he := by
    simp only [twoWaysUpEntities, Finset.mem_insert, Finset.mem_singleton] at he
    rcases he with rfl | rfl | rfl <;> exact ⟨_, rfl⟩
  answers e he config hconfig a ha _ := by
    have hpair := mem_twoWaysUpHints he hconfig ha
    simp only [twoWaysUpHints, List.mem_cons, List.not_mem_nil, or_false, Prod.mk.injEq] at hpair
    rcases hpair with ⟨rfl, rfl⟩ | ⟨rfl, rfl⟩ | ⟨rfl, rfl⟩ <;>
      exact ⟨_, _, _, rfl, rfl, rfl, by decide, rfl⟩

/-- Every hint goes up a level. -/
theorem noCycleFrom_twoWaysUp {e : EntityId} (he : e ∈ twoWaysUpEntities) :
    NoCycleFrom (Lists (onPages ["https://ta.org"] twoWaysUp) "") e := by
  let level (e : EntityId) : Nat :=
    if e = "https://op.org" then 2 else if e = "https://im.org" then 1 else 0
  refine noCycleFrom_of_level level (fun x hx a hlists => ?_) he
  obtain ⟨config, hconfig, -, ha⟩ := hlists
  have hpair := mem_twoWaysUpHints hx hconfig ha
  simp only [twoWaysUpHints, List.mem_cons, List.not_mem_nil, or_false, Prod.mk.injEq] at hpair
  rcases hpair with ⟨rfl, rfl⟩ | ⟨rfl, rfl⟩ | ⟨rfl, rfl⟩ <;> decide

theorem noReturn_twoWaysUp {e : EntityId} (he : e ∈ twoWaysUpEntities) :
    NoReturn (onPages ["https://ta.org"] twoWaysUp) "" e := by
  have hcycle := noCycleFrom_twoWaysUp he
  refine ⟨hcycle.mono fun _ _ hrefers => hrefers.1, fun a hreach hlists => ?_⟩
  exact hcycle a (TransGen.mono (fun _ _ hrefers => hrefers.1) _ _ hreach).to_reflTransGen
    (TransGen.single hlists)

/-! ## Two entities that refer to each other -/

/-- Two entities that are each other's authority. -/
def eachOther : List (String × SignedStatement Nat) :=
  [("https://a.org/.well-known/openid-federation",
    ⟨{ iss := "https://a.org", sub := "https://a.org", exp := 1000, jwks := some [1]
       authorityHints := some ["https://b.org"]
       metadata := some (withFetchEndpoint "https://a.org/fetch") }, 1⟩),
   ("https://b.org/.well-known/openid-federation",
    ⟨{ iss := "https://b.org", sub := "https://b.org", exp := 1000, jwks := some [2]
       authorityHints := some ["https://a.org"]
       metadata := some (withFetchEndpoint "https://b.org/fetch") }, 2⟩),
   ("https://a.org/fetch?https://b.org",
    ⟨{ iss := "https://a.org", sub := "https://b.org", exp := 1000, jwks := some [2] }, 1⟩),
   ("https://b.org/fetch?https://a.org",
    ⟨{ iss := "https://b.org", sub := "https://a.org", exp := 1000, jwks := some [1] }, 2⟩)]

theorem answering_eachOther :
    Answering (onPages [] eachOther) {"https://a.org", "https://b.org"} where
  toSteady := by
    refine steady_onPages (fun e he config hconfig => ?_) (by unfold CacheKeysApart; decide)
    rcases Finset.mem_insert.mp he with rfl | he
    · obtain rfl := Except.ok.inj hconfig
      decide
    · obtain rfl := Finset.mem_singleton.mp he
      obtain rfl := Except.ok.inj hconfig
      decide
  publishes e he := by
    rcases Finset.mem_insert.mp he with rfl | he
    · exact ⟨_, rfl⟩
    · obtain rfl := Finset.mem_singleton.mp he
      exact ⟨_, rfl⟩
  answers e he config hconfig a ha _ := by
    rcases Finset.mem_insert.mp he with rfl | he
    · obtain rfl := Except.ok.inj hconfig
      obtain rfl := List.mem_singleton.mp ha
      exact ⟨_, _, _, rfl, rfl, rfl, by decide, rfl⟩
    · obtain rfl := Finset.mem_singleton.mp he
      obtain rfl := Except.ok.inj hconfig
      obtain rfl := List.mem_singleton.mp ha
      exact ⟨_, _, _, rfl, rfl, rfl, by decide, rfl⟩

/-- Either leads back to itself over the other. -/
theorem not_noCycleFrom_eachOther :
    ¬ NoCycleFrom (Refers (onPages [] eachOther) "") "https://a.org" := by
  intro hcycle
  have hto : Refers (onPages [] eachOther) "" "https://a.org" "https://b.org" :=
    ⟨⟨_, rfl, by decide, List.mem_singleton_self _⟩, by decide⟩
  have hfro : Refers (onPages [] eachOther) "" "https://b.org" "https://a.org" :=
    ⟨⟨_, rfl, by decide, List.mem_singleton_self _⟩, by decide⟩
  exact hcycle "https://a.org" ReflTransGen.refl (TransGen.tail (TransGen.single hto) hfro)

/-- Nothing is missing there, but the superiors of neither have an end. -/
theorem each_other_never_ends :
    ¬ ∀ (env : CollectorEnv Nat) (entities : Finset EntityId), Answering env entities →
      ∀ e ∈ entities, ∀ config, configuration env e = .ok config →
        Terminates env "" e config.payload [] {} ∧ NoneTwice env "" e config.payload [] {} := by
  intro hends
  have hmem : "https://a.org" ∈ ({"https://a.org", "https://b.org"} : Finset EntityId) := by decide
  obtain ⟨config, hconfig⟩ := answering_eachOther.publishes "https://a.org" hmem
  obtain ⟨hterminates, -⟩ := hends _ _ answering_eachOther "https://a.org" hmem config hconfig
  have hcycle := (terminates_iff_noCycleFrom answering_eachOther hmem hconfig [] reflects_empty).mp
    hterminates
  exact not_noCycleFrom_eachOther hcycle

/-- With two routes to a trust anchor both hold, with two entities that refer to each other
    neither does. -/
theorem collection_ends_iff_witness :
    (∃ config, configuration (onPages ["https://ta.org"] twoWaysUp) "https://op.org" = .ok config ∧
      (Terminates (onPages ["https://ta.org"] twoWaysUp) "" "https://op.org" config.payload [] {} ∧
        NoneTwice (onPages ["https://ta.org"] twoWaysUp) "" "https://op.org" config.payload [] {}) ∧
      NoReturn (onPages ["https://ta.org"] twoWaysUp) "" "https://op.org") ∧
    ∃ config, configuration (onPages [] eachOther) "https://a.org" = .ok config ∧
      ¬ (Terminates (onPages [] eachOther) "" "https://a.org" config.payload [] {} ∧
        NoneTwice (onPages [] eachOther) "" "https://a.org" config.payload [] {}) ∧
      ¬ NoReturn (onPages [] eachOther) "" "https://a.org" := by
  constructor
  · have hreturn := noReturn_twoWaysUp (show "https://op.org" ∈ twoWaysUpEntities by decide)
    exact ⟨_, rfl, (collection_ends_iff answering_twoWaysUp (by decide) rfl []
      reflects_empty).mpr hreturn, hreturn⟩
  · have hreturn : ¬ NoReturn (onPages [] eachOther) "" "https://a.org" :=
      fun h => not_noCycleFrom_eachOther h.1
    exact ⟨_, rfl, fun hends => hreturn ((collection_ends_iff answering_eachOther (by decide) rfl []
      reflects_empty).mp hends), hreturn⟩

end Fedservice.Entity.Function
