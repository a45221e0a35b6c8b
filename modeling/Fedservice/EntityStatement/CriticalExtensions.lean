/-
  Fedservice.EntityStatement.CriticalExtensions

  `EntityStatement.verify`, `MetadataPolicy.verify` and `Policy.verify`
  (message.py): what a statement declares critical has to be known.

  The same check is written out for the claims of a statement and for the
  operators of a policy (`checkCritical`).  It asks for what is extra, critical
  and unknown, except where no list of known names is given: then it refuses
  whatever has something extra and something critical, and they need not have a
  name in common (`NothingCritical`).
-/

import Mathlib.Data.Finset.SDiff
import Mathlib.Data.Finset.Lattice.Basic
import Fedservice.Py.Exc

namespace Fedservice.EntityStatement

open Fedservice.Lib Fedservice.Py

/-! ## Messages -/

/-- What `verify` raises. -/
inductive VerifyFailure where
  | unknownCriticalExtension (names : Finset String)
  | other (e : Exc)
deriving DecidableEq

/-- `self.extra().keys()`: the parameters of a message that its class does not have. -/
def extra (params : List String) (message : Dict Json) : List String :=
  message.keys.filter (· ∉ params)

/-- `Policy.c_param`. -/
def policyParams : List String :=
  ["subset_of", "one_of", "superset_of", "add", "value", "default", "essential"]

/-- What `EntityStatement.c_param` adds to that of `JsonWebToken`. -/
def statementParams : List String :=
  ["sub", "iss", "exp", "iat", "jwks", "aud", "jti", "authority_hints", "metadata",
    "metadata_policy", "constraints", "crit", "policy_language_crit", "trust_marks",
    "trust_anchor_id"]

/-- An `EntityStatement` message, as far as `verify` reads it. -/
structure StatementMessage where
  crit : Option (List String) := none
  policyLanguageCrit : Option (List String) := none
  /-- By entity type and claim, the policy with its operators. -/
  metadataPolicy : Option (Dict (Dict (Dict Json))) := none
  /-- The other claims. -/
  claims : Dict Json := ∅

/-- The keyword arguments of `verify`. -/
structure KnownExtensions where
  knownExtensions : Option (List String) := none
  knownPolicyExtensions : Option (List String) := none

/-- What is used of the message library. -/
structure MessageLib where
  /-- The keys of `JsonWebToken.c_param`. -/
  jwtParams : List String
  /-- `JsonWebToken.verify` -/
  jwtVerify : StatementMessage → Except VerifyFailure Unit
  /-- `Policy(**item)` -/
  newPolicy : Dict Json → Except VerifyFailure (Dict Json)

variable (lib : MessageLib)

/-! ## verify -/

/-- The check of extra names against the critical ones, which `claim` lists. -/
def checkCritical (claim : String) (extraParameters : List String)
    (critical known : Option (List String)) : Except VerifyFailure Unit :=
  if extraParameters.isEmpty then .ok ()
  else match critical with
    | none => .ok ()
    | some [] => .error (.other (.valueError
        [.lit "Empty list not allowed for '", .lit claim, .lit "'"]))
    | some critical =>
        let musts := critical.toFinset ∩ extraParameters.toFinset
        match known with
        | none | some [] =>
            .error (.unknownCriticalExtension (musts ∩ extraParameters.toFinset))
        | some known =>
            if musts ⊆ known.toFinset then .ok ()
            else .error (.unknownCriticalExtension (musts \ known.toFinset))

/-- `Policy.verify`. -/
def policyVerify (policy : Dict Json) (policyLanguageCrit knownPolicyExtensions :
    Option (List String)) : Except VerifyFailure Unit :=
  checkCritical "policy_language_crit" (extra policyParams policy) policyLanguageCrit
    knownPolicyExtensions

/-- The body of the loops of `MetadataPolicy.verify`. -/
def itemVerify (policyLanguageCrit knownPolicyExtensions : Option (List String))
    (item : Dict Json) : Except VerifyFailure Unit := do
  let p ← lib.newPolicy item
  policyVerify p policyLanguageCrit knownPolicyExtensions

/-- `MetadataPolicy.verify`. -/
def metadataPolicyVerify (metadataPolicy : Dict (Dict (Dict Json)))
    (policyLanguageCrit knownPolicyExtensions : Option (List String)) :
    Except VerifyFailure Unit :=
  checkEach (fun policy =>
      checkEach (fun item => itemVerify lib policyLanguageCrit knownPolicyExtensions item.2)
        policy.2.entries)
    metadataPolicy.entries

/-- What `EntityStatement.verify` does about the metadata policy. -/
def statementPolicyVerify (st : StatementMessage) (kwargs : KnownExtensions) :
    Except VerifyFailure Unit :=
  match st.metadataPolicy with
  | none => .ok ()
  | some metadataPolicy =>
      if metadataPolicy.isEmpty || (st.policyLanguageCrit.getD []).isEmpty then .ok ()
      else metadataPolicyVerify lib metadataPolicy st.policyLanguageCrit
        kwargs.knownPolicyExtensions

/-- `EntityStatement.verify`. -/
def statementVerify (st : StatementMessage) (kwargs : KnownExtensions) :
    Except VerifyFailure Unit := do
  lib.jwtVerify st
  checkCritical "crit" (extra (lib.jwtParams ++ statementParams) st.claims) st.crit
    kwargs.knownExtensions
  statementPolicyVerify lib st kwargs

/-! ## What is to be refused -/

/-- A name that is critical and not known. -/
def IsUnknownCritical (critical known : Option (List String)) (name : String) : Prop :=
  name ∈ critical.getD [] ∧ name ∉ known.getD []

/-- There is something extra and something critical, but nothing extra is critical; and no
    list of known names is given. -/
def NothingCritical (extraParameters : List String) (critical known : Option (List String)) :
    Prop :=
  extraParameters ≠ [] ∧ critical.getD [] ≠ [] ∧ known.getD [] = [] ∧
    ∀ name ∈ extraParameters, name ∉ critical.getD []

/-- `UnknownCriticalExtension` is raised. -/
def RaisesUnknownCritical (x : Except VerifyFailure Unit) : Prop :=
  ∃ names, x = .error (.unknownCriticalExtension names)

/-- Nothing else is raised. -/
def RaisesNothingElse (x : Except VerifyFailure Unit) : Prop :=
  x = .ok () ∨ RaisesUnknownCritical x

theorem RaisesNothingElse.raises_iff {x : Except VerifyFailure Unit} (h : RaisesNothingElse x) :
    RaisesUnknownCritical x ↔ x ≠ .ok () := by
  constructor
  · rintro ⟨names, hx⟩ hok
    simp [hx] at hok
  · exact h.resolve_left

/-- Where something is extra and something critical, all depends on what is known. -/
theorem checkCritical_of_ne_nil {claim : String} {extraParameters critical : List String}
    {known : Option (List String)} (hextra : extraParameters ≠ []) (hcrit : critical ≠ []) :
    checkCritical claim extraParameters (some critical) known =
      let musts := critical.toFinset ∩ extraParameters.toFinset
      if known.getD [] = [] then
        .error (.unknownCriticalExtension (musts ∩ extraParameters.toFinset))
      else if musts ⊆ (known.getD []).toFinset then .ok ()
      else .error (.unknownCriticalExtension (musts \ (known.getD []).toFinset)) := by
  obtain ⟨c, cs, rfl⟩ := List.exists_cons_of_ne_nil hcrit
  unfold checkCritical
  rw [if_neg (by simpa using hextra)]
  rcases known with _ | _ | ⟨k, ks⟩
  · rfl
  · rfl
  · simp

theorem checkCritical_of_nothing {claim : String} {extraParameters : List String}
    {critical known : Option (List String)} (hcrit : critical ≠ some [])
    (h : extraParameters = [] ∨ critical.getD [] = []) :
    checkCritical claim extraParameters critical known = .ok () := by
  unfold checkCritical
  rcases h with rfl | h
  · rfl
  · rcases critical with _ | _ | ⟨c, cs⟩
    · split_ifs <;> rfl
    · exact absurd rfl hcrit
    · exact absurd h (by simp)

theorem checkCritical_raises_nothing_else (claim : String) (extraParameters : List String)
    {critical : Option (List String)} (known : Option (List String))
    (hcrit : critical ≠ some []) :
    RaisesNothingElse (checkCritical claim extraParameters critical known) := by
  by_cases h : extraParameters = [] ∨ critical.getD [] = []
  · exact Or.inl (checkCritical_of_nothing hcrit h)
  · obtain ⟨hextra, hne⟩ := not_or.mp h
    rcases critical with _ | critical
    · exact absurd rfl hne
    · rw [Option.getD_some] at hne
      rw [checkCritical_of_ne_nil hextra hne]
      simp only
      split_ifs
      · exact Or.inr ⟨_, rfl⟩
      · exact Or.inl rfl
      · exact Or.inr ⟨_, rfl⟩

theorem musts_subset_iff {critical extraParameters : List String} {known : Option (List String)} :
    critical.toFinset ∩ extraParameters.toFinset ⊆ (known.getD []).toFinset ↔
      ¬ ∃ name ∈ extraParameters, IsUnknownCritical (some critical) known name := by
  simp only [Finset.subset_iff, Finset.mem_inter, List.mem_toFinset, IsUnknownCritical,
    Option.getD_some, not_exists, not_and, not_not]
  exact ⟨fun h name he hc => h ⟨hc, he⟩, fun h name hn => h name hn.2 hn.1⟩

/-- The check refuses an extra name that is critical and not known, and what has nothing
    critical where nothing is known. -/
theorem checkCritical_raises_iff {claim : String} {extraParameters : List String}
    {critical known : Option (List String)} (hcrit : critical ≠ some []) :
    RaisesUnknownCritical (checkCritical claim extraParameters critical known) ↔
      (∃ name ∈ extraParameters, IsUnknownCritical critical known name) ∨
        NothingCritical extraParameters critical known := by
  rw [(checkCritical_raises_nothing_else claim extraParameters known hcrit).raises_iff]
  by_cases h : extraParameters = [] ∨ critical.getD [] = []
  · -- there is nothing to look at
    rw [checkCritical_of_nothing hcrit h]
    rcases h with rfl | h
    · simp [NothingCritical]
    · simp [NothingCritical, IsUnknownCritical, h]
  · obtain ⟨hextra, hne⟩ := not_or.mp h
    rcases critical with _ | critical
    · exact absurd rfl hne
    · rw [Option.getD_some] at hne
      rw [checkCritical_of_ne_nil hextra hne]
      by_cases hknown : known.getD [] = []
      · -- what is critical is unknown, and if nothing is, that is refused as well
        simp only [hknown, if_true, IsUnknownCritical, NothingCritical, Option.getD_some]
        by_cases hsome : ∃ name ∈ extraParameters, name ∈ critical
        · obtain ⟨name, hname, hmem⟩ := hsome
          exact iff_of_true (by simp) (Or.inl ⟨name, hname, hmem, List.not_mem_nil⟩)
        · simp only [not_exists, not_and] at hsome
          exact iff_of_true (by simp) (Or.inr ⟨hextra, hne, trivial, hsome⟩)
      · simp only [NothingCritical, hknown, false_and, and_false, or_false, if_false]
        have hall := @musts_subset_iff critical extraParameters known
        by_cases hsub : critical.toFinset ∩ extraParameters.toFinset ⊆ (known.getD []).toFinset
        · rw [if_pos hsub]
          exact iff_of_false (not_not.mpr rfl) (hall.mp hsub)
        · rw [if_neg hsub]
          exact iff_of_true (by simp) (not_not.mp fun h => hsub (hall.mpr h))

/-! ## Statements -/

/-- The policy for a claim, of a statement. -/
def StatementMessage.Policies (st : StatementMessage) (item : Dict Json) : Prop :=
  ∃ metadataPolicy typ policy attr, st.metadataPolicy = some metadataPolicy ∧
    metadataPolicy.lookup typ = some policy ∧ policy.lookup attr = some item

/-- `Policy(**item)` has the operators of the item, for each policy of a statement. -/
def KeepsOperators (st : StatementMessage) : Prop :=
  ∀ item, st.Policies item → ∃ p, lib.newPolicy item = .ok p ∧ ∀ op, op ∈ p ↔ op ∈ item

/-- The claims of a statement that its class does not have. -/
def extraClaims (st : StatementMessage) : List String :=
  extra (lib.jwtParams ++ statementParams) st.claims

/-- An extra claim or an extra operator of a statement is critical, and not known. -/
def HasUnknownCritical (st : StatementMessage) (kwargs : KnownExtensions) : Prop :=
  (∃ name ∈ extraClaims lib st, IsUnknownCritical st.crit kwargs.knownExtensions name) ∨
    ∃ item, st.Policies item ∧ ∃ op ∈ extra policyParams item,
      IsUnknownCritical st.policyLanguageCrit kwargs.knownPolicyExtensions op

/-- The check of its claims, or that of a policy, has nothing critical to refuse. -/
def RefusedForNothing (st : StatementMessage) (kwargs : KnownExtensions) : Prop :=
  NothingCritical (extraClaims lib st) st.crit kwargs.knownExtensions ∨
    ∃ item, st.Policies item ∧
      NothingCritical (extra policyParams item) st.policyLanguageCrit kwargs.knownPolicyExtensions

theorem mem_extra_congr {params : List String} {p item : Dict Json}
    (h : ∀ op, op ∈ p ↔ op ∈ item) (op : String) :
    op ∈ extra params p ↔ op ∈ extra params item := by
  simp only [extra, List.mem_filter, ← AList.mem_keys, h]

theorem nothingCritical_congr {xs ys : List String} (h : ∀ x, x ∈ xs ↔ x ∈ ys)
    {critical known : Option (List String)} :
    NothingCritical xs critical known ↔ NothingCritical ys critical known := by
  have hnil : xs = [] ↔ ys = [] := by simp [List.eq_nil_iff_forall_not_mem, h]
  simp only [NothingCritical, ne_eq, hnil, h]

/-- A loop raises nothing else if no check does, and then where one of them does. -/
theorem checkEach_raises {α : Type} {check : α → Except VerifyFailure Unit} {l : List α}
    (h : ∀ a ∈ l, RaisesNothingElse (check a)) :
    RaisesNothingElse (checkEach check l) ∧
      (RaisesUnknownCritical (checkEach check l) ↔ ∃ a ∈ l, RaisesUnknownCritical (check a)) := by
  have helse : RaisesNothingElse (checkEach check l) := by
    cases hx : checkEach check l with
    | ok u => exact Or.inl rfl
    | error e =>
        obtain ⟨a, ha, hcheck⟩ := exists_check_of_checkEach hx
        have hraises := (h a ha).resolve_left (by simp [hcheck])
        rw [hcheck] at hraises
        exact Or.inr hraises
  refine ⟨helse, ?_⟩
  rw [helse.raises_iff, ne_eq, checkEach_eq_ok_iff]
  constructor
  · intro hsome
    obtain ⟨a, hna⟩ := not_forall.mp hsome
    obtain ⟨ha, hne⟩ := Classical.not_imp.mp hna
    exact ⟨a, ha, (h a ha).raises_iff.mpr hne⟩
  · rintro ⟨a, ha, hraises⟩ hall
    exact (h a ha).raises_iff.mp hraises (hall a ha)

section Policies

variable {st : StatementMessage} {policyLanguageCrit known : Option (List String)}
  (hkeeps : KeepsOperators lib st) (hcrit : policyLanguageCrit ≠ some [])

include hkeeps hcrit

theorem itemVerify_raises {item : Dict Json} (hitem : st.Policies item) :
    RaisesNothingElse (itemVerify lib policyLanguageCrit known item) ∧
      (RaisesUnknownCritical (itemVerify lib policyLanguageCrit known item) ↔
        (∃ op ∈ extra policyParams item, IsUnknownCritical policyLanguageCrit known op) ∨
          NothingCritical (extra policyParams item) policyLanguageCrit known) := by
  obtain ⟨p, hp, hops⟩ := hkeeps item hitem
  rw [itemVerify, hp, except_ok_bind, policyVerify]
  refine ⟨checkCritical_raises_nothing_else _ _ _ hcrit, ?_⟩
  rw [checkCritical_raises_iff hcrit, nothingCritical_congr (mem_extra_congr hops)]
  simp only [mem_extra_congr hops]

theorem metadataPolicyVerify_raises {metadataPolicy : Dict (Dict (Dict Json))}
    (hst : st.metadataPolicy = some metadataPolicy) :
    RaisesNothingElse (metadataPolicyVerify lib metadataPolicy policyLanguageCrit known) ∧
      (RaisesUnknownCritical (metadataPolicyVerify lib metadataPolicy policyLanguageCrit known) ↔
        ∃ item, st.Policies item ∧
          RaisesUnknownCritical (itemVerify lib policyLanguageCrit known item)) := by
  have hitem : ∀ policy ∈ metadataPolicy.entries, ∀ item ∈ policy.2.entries,
      st.Policies item.2 := by
    intro policy hpolicy item hi
    exact ⟨metadataPolicy, policy.1, policy.2, item.1, hst, AList.mem_lookup_iff.mpr hpolicy,
      AList.mem_lookup_iff.mpr hi⟩
  have hinner := fun policy hpolicy => checkEach_raises fun item hi =>
    (@itemVerify_raises lib st policyLanguageCrit known hkeeps hcrit item.2
      (hitem policy hpolicy item hi)).1
  obtain ⟨helse, hraises⟩ := checkEach_raises fun policy hpolicy => (hinner policy hpolicy).1
  refine ⟨helse, hraises.trans ?_⟩
  constructor
  · rintro ⟨policy, hpolicy, h⟩
    obtain ⟨item, hi, h⟩ := (hinner policy hpolicy).2.mp h
    exact ⟨item.2, hitem policy hpolicy item hi, h⟩
  · rintro ⟨item, ⟨mp, typ, policy, attr, hmp, hlookup, hattr⟩, h⟩
    obtain rfl : metadataPolicy = mp := Option.some.inj (hst.symm.trans hmp)
    have hpolicy := AList.mem_lookup_iff.mp (Option.mem_def.mpr hlookup)
    refine ⟨⟨typ, policy⟩, hpolicy, (hinner _ hpolicy).2.mpr ⟨⟨attr, item⟩, ?_, h⟩⟩
    exact AList.mem_lookup_iff.mp (Option.mem_def.mpr hattr)

end Policies

theorem statementPolicyVerify_raises {st : StatementMessage} {kwargs : KnownExtensions}
    (hkeeps : KeepsOperators lib st) :
    RaisesNothingElse (statementPolicyVerify lib st kwargs) ∧
      (RaisesUnknownCritical (statementPolicyVerify lib st kwargs) ↔
        ∃ item, st.Policies item ∧
          ((∃ op ∈ extra policyParams item,
              IsUnknownCritical st.policyLanguageCrit kwargs.knownPolicyExtensions op) ∨
            NothingCritical (extra policyParams item) st.policyLanguageCrit
              kwargs.knownPolicyExtensions)) := by
  have hok : RaisesNothingElse (.ok ()) ∧ ¬ RaisesUnknownCritical (.ok ()) :=
    ⟨Or.inl rfl, fun ⟨names, h⟩ => by simp at h⟩
  unfold statementPolicyVerify
  cases hmp : st.metadataPolicy with
  | none =>
      refine ⟨hok.1, iff_of_false hok.2 ?_⟩
      rintro ⟨item, ⟨mp, typ, policy, attr, hst, -⟩, -⟩
      simp [hmp] at hst
  | some metadataPolicy =>
      simp only [Bool.or_eq_true, List.isEmpty_iff]
      by_cases hempty : metadataPolicy.isEmpty = true
      · rw [if_pos (Or.inl hempty)]
        refine ⟨hok.1, iff_of_false hok.2 ?_⟩
        rintro ⟨item, ⟨mp, typ, policy, attr, hst, hlookup, -⟩, -⟩
        obtain rfl : metadataPolicy = mp := Option.some.inj (hmp.symm.trans hst)
        rw [Dict.lookup_of_isEmpty hempty] at hlookup
        simp at hlookup
      · by_cases hcrit : st.policyLanguageCrit.getD [] = []
        · rw [if_pos (Or.inr hcrit)]
          refine ⟨hok.1, iff_of_false hok.2 ?_⟩
          rintro ⟨item, -, ⟨op, -, hop⟩ | hnothing⟩
          · exact absurd hop.1 (by simp [hcrit])
          · exact hnothing.2.1 hcrit
        · rw [if_neg (by simp [hempty, hcrit])]
          have hne : st.policyLanguageCrit ≠ some [] := fun h => hcrit (by rw [h]; rfl)
          obtain ⟨helse, hraises⟩ := metadataPolicyVerify_raises lib hkeeps hne hmp
          refine ⟨helse, hraises.trans (exists_congr fun item => and_congr_right fun hitem => ?_)⟩
          exact (itemVerify_raises lib hkeeps hne hitem).2

/-- When `verify` raises `UnknownCriticalExtension`. -/
theorem statementVerify_raises_iff {st : StatementMessage} {kwargs : KnownExtensions}
    (hjwt : lib.jwtVerify st = .ok ()) (hkeeps : KeepsOperators lib st)
    (hcrit : st.crit ≠ some []) :
    RaisesUnknownCritical (statementVerify lib st kwargs) ↔
      HasUnknownCritical lib st kwargs ∨ RefusedForNothing lib st kwargs := by
  obtain ⟨-, hpolicy⟩ := @statementPolicyVerify_raises lib st kwargs hkeeps
  have hclaims := @checkCritical_raises_iff "crit" (extraClaims lib st) st.crit
    kwargs.knownExtensions hcrit
  have hseq : RaisesUnknownCritical (statementVerify lib st kwargs) ↔
      RaisesUnknownCritical (checkCritical "crit" (extraClaims lib st) st.crit
        kwargs.knownExtensions) ∨ RaisesUnknownCritical (statementPolicyVerify lib st kwargs) := by
    unfold statementVerify
    rw [hjwt, except_ok_bind, ← extraClaims]
    rcases checkCritical_raises_nothing_else "crit" (extraClaims lib st) kwargs.knownExtensions
      hcrit with hok | ⟨names, herror⟩
    · rw [hok, except_ok_bind]
      simp [RaisesUnknownCritical]
    · rw [herror]
      exact iff_of_true ⟨names, rfl⟩ (Or.inl ⟨names, rfl⟩)
  rw [hseq, hclaims, hpolicy]
  unfold HasUnknownCritical RefusedForNothing
  constructor
  · rintro ((hunknown | hnothing) | ⟨item, hitem, hunknown | hnothing⟩)
    · exact Or.inl (Or.inl hunknown)
    · exact Or.inr (Or.inl hnothing)
    · exact Or.inl (Or.inr ⟨item, hitem, hunknown⟩)
    · exact Or.inr (Or.inr ⟨item, hitem, hnothing⟩)
  · rintro ((hunknown | ⟨item, hitem, hunknown⟩) | (hnothing | ⟨item, hitem, hnothing⟩))
    · exact Or.inl (Or.inl hunknown)
    · exact Or.inr ⟨item, hitem, Or.inl hunknown⟩
    · exact Or.inl (Or.inr hnothing)
    · exact Or.inr ⟨item, hitem, Or.inr hnothing⟩

/-- `verify` raises `UnknownCriticalExtension` just for what is critical and not known, exactly
    unless it refuses a statement for nothing. -/
theorem unknown_critical_iff (st : StatementMessage) (kwargs : KnownExtensions)
    (hjwt : lib.jwtVerify st = .ok ()) (hkeeps : KeepsOperators lib st)
    (hcrit : st.crit ≠ some []) :
    (RaisesUnknownCritical (statementVerify lib st kwargs) ↔ HasUnknownCritical lib st kwargs) ↔
      (RefusedForNothing lib st kwargs → HasUnknownCritical lib st kwargs) := by
  rw [statementVerify_raises_iff lib hjwt hkeeps hcrit]
  constructor
  · exact fun h hnothing => h.mp (Or.inr hnothing)
  · exact fun h => ⟨fun hor => hor.elim id h, Or.inl⟩

/-- Messages that are taken as they are. -/
def plainMessages : MessageLib where
  jwtParams := ["iss", "sub", "aud", "exp", "nbf", "iat", "jti"]
  jwtVerify _ := .ok ()
  newPolicy item := .ok item

theorem keepsOperators_plainMessages (st : StatementMessage) : KeepsOperators plainMessages st :=
  fun item _ => ⟨item, rfl, fun _ => Iff.rfl⟩

/-- A policy for the contacts of a provider, with an operator that is not in the language. -/
def contactsPolicy : Dict Json :=
  Dict.ofList [("add", .str "ops@edugain.geant.org"), ("regexp", .str "@its.umu.se$")]

/-- A statement with that policy, which declares the operator critical. -/
def regexpStatement : StatementMessage where
  policyLanguageCrit := some ["regexp"]
  metadataPolicy := some (Dict.ofList [("openid_provider",
    Dict.ofList [("contacts", contactsPolicy)])])
  claims := Dict.ofList [("iss", .str "https://edugain.geant.org"),
    ("sub", .str "https://swamid.se")]

theorem regexpStatement_refused :
    RaisesUnknownCritical (statementVerify plainMessages regexpStatement {}) ↔
      HasUnknownCritical plainMessages regexpStatement {} := by
  have hpolicy : regexpStatement.Policies contactsPolicy :=
    ⟨_, "openid_provider", _, "contacts", rfl, rfl, rfl⟩
  have hunknown : HasUnknownCritical plainMessages regexpStatement {} :=
    Or.inr ⟨contactsPolicy, hpolicy, "regexp", by decide, by decide, by decide⟩
  exact (unknown_critical_iff plainMessages regexpStatement {} rfl
    (keepsOperators_plainMessages _) (by decide)).mpr fun _ => hunknown

/-- A statement with an extra claim, that is not the one it declares critical. -/
def noteStatement : StatementMessage where
  crit := some ["foo"]
  claims := Dict.ofList [("iss", .str "https://ent.example.org"),
    ("sub", .str "https://ent.example.org"), ("note", .str "bar")]

/-- Without a list of known extensions it is refused, though nothing in it is critical. -/
theorem uncritical_claim_refused :
    ¬ ∀ (lib : MessageLib) (st : StatementMessage) (kwargs : KnownExtensions),
      lib.jwtVerify st = .ok () → KeepsOperators lib st → st.crit ≠ some [] →
        (RaisesUnknownCritical (statementVerify lib st kwargs) ↔
          HasUnknownCritical lib st kwargs) := by
  intro hall
  have hiff := hall plainMessages noteStatement {} rfl (keepsOperators_plainMessages _) (by decide)
  have hraised : statementVerify plainMessages noteStatement {} =
      .error (.unknownCriticalExtension ∅) := by decide
  rcases hiff.mp ⟨∅, hraised⟩ with ⟨name, hname, hcrit, -⟩ | ⟨item, ⟨mp, _, _, _, hmp, -⟩, -⟩
  · have hnote : extraClaims plainMessages noteStatement = ["note"] := by decide
    rw [hnote, List.mem_singleton] at hname
    subst hname
    exact absurd hcrit (by decide)
  · simp [noteStatement] at hmp

end Fedservice.EntityStatement
