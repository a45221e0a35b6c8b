/-
  Fedservice.Entity.Server.EntityConfiguration

  What an entity says about itself.  Some entities have the `EntityConfiguration`
  endpoint for it (entity/server/entity_configuration.py), others the `wkof` view of
  their web application (trust_anchor/views.py), which leaves it to the context.  The
  metadata is that of the federation entity, or of the combo it is a part of
  (combo/__init__.py).
-/

import Fedservice.Entity.Context
import Fedservice.Entity.Server.Fetch
import Fedservice.EntityStatement.Pack

namespace Fedservice.Entity.Server

open Fedservice.Lib Fedservice.Py Fedservice.EntityStatement

/-! ## Metadata -/

/-- `FederationEntity.get_metadata`, given what there is of claims and endpoints. -/
def FederationEntity.getMetadata (serverMetadata : Dict Json) (entityType : String) : Dict Json :=
  -- keys are not a part of the metadata
  Dict.ofList [(entityType, dictJson (["jwks", "jwks_uri", "signed_jwks_uri"].foldl
    (fun metadata item => metadata.erase item) serverMetadata))]

/-- The parts of an entity, by entity type: what their `get_metadata` gives, where they have
    one. -/
structure FederationCombo where
  parts : List (String × Option (String → Except Exc (Dict Json)))
  nodup : (parts.map (·.1)).Nodup

/-- The loop of `FederationCombo.get_metadata`. -/
def updateEachPart (res : Dict Json) :
    List (String × Option (String → Except Exc (Dict Json))) → Except Exc (Dict Json)
  | [] => .ok res
  | (_, none) :: parts => updateEachPart res parts
  | (federationType, some getMetadata) :: parts => do
      updateEachPart (res.update (← getMetadata federationType)) parts

/-- `FederationCombo.get_metadata`. -/
def FederationCombo.getMetadata (combo : FederationCombo) : Except Exc (Dict Json) :=
  updateEachPart ∅ combo.parts

/-! ## The entity and where it is hosted -/

/-- Where a host has its entity configuration from. -/
inductive WellKnown where
  | entityConfiguration
  | wkof

/-- A federation entity with its keys, its metadata and what it keeps about others. -/
structure Host where
  context : FederationContext
  /-- `keyjar.export_jwks()` -/
  exportJwks : Json
  serverMetadata : Dict Json
  /-- What the federation entity is a part of. -/
  combo : Option FederationCombo := none
  member : ∀ c ∈ combo, ("federation_entity", some fun entityType =>
    .ok (FederationEntity.getMetadata serverMetadata entityType)) ∈ c.parts := by simp
  wellKnown : WellKnown := .entityConfiguration
  subordinate : Registry := ∅
  policy : Registry := ∅

namespace Host

variable (host : Host)

/-- `upstream_get("metadata")`, or `get_metadata` where there is nothing upstream. -/
def metadata : Except Exc (Dict Json) :=
  match host.combo with
  | some combo => combo.getMetadata
  | none => .ok (FederationEntity.getMetadata host.serverMetadata "federation_entity")

/-- `args` of the endpoint: the trust marks, as they are set or as a function gives them. -/
def trustMarkArgs : Except Exc Record :=
  if host.context.trustMarks.truthy then
    match host.context.trustMarks with
    | .callable _ => do
        return Finmap.singleton "trust_marks" (← host.context.getTrustMarks)
    | .value v => .ok (Finmap.singleton "trust_marks" v)
  else .ok ∅

/-- `EntityConfiguration.process_request`. -/
def entityConfiguration : Except Exc UnsignedStatement := do
  let metadata ← host.metadata
  let args ← host.trustMarkArgs
  let hints ← host.context.getAuthorityHints
  EntityStatement.createEntityStatement host.exportJwks host.context.entityId
    host.context.entityId ((args.insert "metadata" (dictJson metadata)).insert "authority_hints" hints)

/-- `wkof`. -/
def wkof : Except Exc UnsignedStatement := do
  let metadata ← host.metadata
  let hints ← host.context.getAuthorityHints
  host.context.createEntityStatement host.exportJwks host.context.entityId host.context.entityId
    (((Finmap.singleton "metadata" (dictJson metadata)).insert "authority_hints" hints).insert
      "lifetime" (.num host.context.defaultLifetime))

/-- What a host serves as its entity configuration. -/
def ownWords : Except Exc UnsignedStatement :=
  match host.wellKnown with
  | .entityConfiguration => host.entityConfiguration
  | .wkof => host.wkof

/-- The fetch endpoint of a host. -/
def fetchEnv : FetchEnv where
  entityId := host.context.entityId
  metadata := dictJson (FederationEntity.getMetadata host.serverMetadata "federation_entity")
  authorityHints := host.context.getAuthorityHints.toOption.getD .null
  exportJwks := host.exportJwks

/-- How long the entity configuration of a host is good for. -/
def lifetime : Int :=
  match host.wellKnown with
  | .entityConfiguration => 86400
  | .wkof => host.context.defaultLifetime

end Host

/-! ## The metadata of a combo -/

theorem lookup_getMetadata (serverMetadata : Dict Json) (entityType : String) :
    (FederationEntity.getMetadata serverMetadata entityType).lookup entityType =
      some (dictJson (((serverMetadata.erase "jwks").erase "jwks_uri").erase "signed_jwks_uri")) :=
  AList.lookup_insert _

theorem truthy_dictJson {d : Dict Json} {k : String} {v : Json} (h : d.lookup k = some v) :
    (dictJson d).truthy = true := by
  cases hempty : d.isEmpty with
  | true => exact absurd (h.symm.trans (Dict.lookup_of_isEmpty hempty k)) (by simp)
  | false =>
      rw [dictJson, Json.truthy, List.isEmpty_map]
      exact congrArg (!·) hempty

/-- Parts that have nothing to say about an entity type leave what is there about it. -/
theorem lookup_updateEachPart_of_others {entityType : String}
    {parts : List (String × Option (String → Except Exc (Dict Json)))} {res metadata : Dict Json}
    (hothers : ∀ t getMetadata, (t, some getMetadata) ∈ parts → ∀ d, getMetadata t = .ok d →
      d.lookup entityType = none)
    (h : updateEachPart res parts = .ok metadata) :
    metadata.lookup entityType = res.lookup entityType := by
  induction parts generalizing res with
  | nil => rw [Except.ok.inj h]
  | cons part parts ih =>
      have hrest : ∀ t getMetadata, (t, some getMetadata) ∈ parts → ∀ d, getMetadata t = .ok d →
          d.lookup entityType = none := fun t getMetadata hmem =>
        hothers t getMetadata (List.mem_cons_of_mem part hmem)
      obtain ⟨t, - | getMetadata⟩ := part
      · exact ih hrest h
      · obtain ⟨d, hd, h⟩ := except_bind_eq_ok.mp h
        rw [ih hrest h, Dict.lookup_update,
          hothers t getMetadata (List.mem_cons_self ..) d hd, Option.none_or]

/-- The metadata of a part is in that of the combo, if the other parts keep to their own entity
    types. -/
theorem FederationCombo.lookup_getMetadata {combo : FederationCombo} {entityType : String}
    {getMetadata : String → Except Exc (Dict Json)} {v : Json}
    (hpart : (entityType, some getMetadata) ∈ combo.parts)
    (hown : ∀ d, getMetadata entityType = .ok d → d.lookup entityType = some v)
    (hothers : ∀ t get, (t, some get) ∈ combo.parts → t ≠ entityType → ∀ d, get t = .ok d →
      d.lookup entityType = none)
    {metadata : Dict Json} (h : combo.getMetadata = .ok metadata) :
    metadata.lookup entityType = some v := by
  obtain ⟨parts, hnodup⟩ := combo
  rw [FederationCombo.getMetadata] at h
  simp only at hpart hothers h
  generalize (∅ : Dict Json) = res at h
  induction parts generalizing res with
  | nil => exact absurd hpart List.not_mem_nil
  | cons part parts ih =>
      rw [List.map_cons] at hnodup
      obtain ⟨hnew, htail⟩ := List.nodup_cons.mp hnodup
      rcases List.mem_cons.mp hpart with rfl | hbelow
      · obtain ⟨d, hd, h⟩ := except_bind_eq_ok.mp h
        rw [lookup_updateEachPart_of_others (fun t get hmem d hget => ?_) h, Dict.lookup_update,
          hown d hd, Option.some_or]
        refine hothers t get (List.mem_cons_of_mem _ hmem) ?_ d hget
        rintro rfl
        exact hnew (List.mem_map.mpr ⟨_, hmem, rfl⟩)
      · have hrest : ∀ t get, (t, some get) ∈ parts → t ≠ entityType → ∀ d, get t = .ok d →
            d.lookup entityType = none := fun t get hmem =>
          hothers t get (List.mem_cons_of_mem part hmem)
        obtain ⟨t, - | get⟩ := part
        · exact ih htail hbelow hrest res h
        · obtain ⟨d, -, h⟩ := except_bind_eq_ok.mp h
          exact ih htail hbelow hrest _ h

/-! ## What a host says about itself -/

/-- A host has what goes into its entity configuration, and these superiors. -/
structure Configured (host : Host) (superiors : List EntityId) : Prop where
  hints : host.context.getAuthorityHints = .ok (.arr (superiors.map .str))
  trustMarks : ∃ trustMarks, host.context.getTrustMarks = .ok trustMarks
  metadata : ∃ metadata, host.metadata = .ok metadata
  /-- The other parts keep to their own entity types. -/
  apart : ∀ c ∈ host.combo, ∀ t getMetadata, (t, some getMetadata) ∈ c.parts →
    t ≠ "federation_entity" → ∀ d, getMetadata t = .ok d → d.lookup "federation_entity" = none
  /-- The name of a file would be served in the place of an empty list. -/
  noFile : host.wellKnown = .wkof → superiors = [] → ∀ path,
    host.context.authorityHints ≠ .value (.str path)

/-- The entity configuration of a host: from and about itself, with its keys, its superiors
    and its metadata. -/
structure Describes (host : Host) (superiors : List EntityId) (statement : UnsignedStatement) :
    Prop where
  iss : statement.iss = host.context.entityId
  lifetime : statement.lifetime = .num host.lifetime
  sub : statement.payload.lookup "sub" = some (.str host.context.entityId)
  jwks : statement.payload.lookup "jwks" = some host.exportJwks
  hints : ((statement.payload.lookup "authority_hints").bind strings?).getD [] = superiors
  metadata : ∃ metadata, statement.payload.lookup "metadata" = some (dictJson metadata) ∧
    metadata.lookup "federation_entity" = some (dictJson
      (((host.serverMetadata.erase "jwks").erase "jwks_uri").erase "signed_jwks_uri"))

/-- A list of superiors, which is not passed on where it is empty. -/
theorem filter_truthy (superiors : List EntityId) :
    (((some (Json.arr (superiors.map .str))).filter (·.truthy)).bind strings?).getD [] =
      superiors := by
  cases superiors with
  | nil => rfl
  | cons a superiors =>
      rw [Option.filter_some, if_pos (by rfl), Option.bind_some, strings?_arr, Option.getD_some]

/-- A setting that is no file name is a value that is taken as it is, or a function. -/
theorem getSetting_eq_ok {context : FederationContext} {isKind : Json → Bool} {name : String}
    {setting : Setting} {v : Json} (hfile : ∀ path, setting ≠ .value (.str path))
    (h : context.getSetting isKind name setting = .ok v) :
    setting = .value v ∨ setting = .callable (.ok v) := by
  cases setting with
  | callable call => exact Or.inr (congrArg Setting.callable h)
  | value w =>
      have htaken : (if isKind w then .ok w else .error (.valueError [.lit name])) =
          (.ok v : Except Exc Json) := by
        cases w with
        | str path => exact absurd rfl (hfile path)
        | _ => exact h
      by_cases hkind : isKind w = true
      · rw [if_pos hkind] at htaken
        exact Or.inl (congrArg Setting.value (Except.ok.inj htaken))
      · rw [if_neg hkind] at htaken
        exact absurd htaken (by simp)

/-- What is passed on besides the named parameters, where there are no others. -/
theorem keyArguments_of_named {args : Record}
    (hargs : ∀ name ∈ args, name ∈ FederationContext.namedParameters) (hjwks : "jwks" ∉ args) :
    FederationContext.keyArguments args = ∅ := by
  have hnone : ∀ name, name ∉ FederationContext.namedParameters.foldl
      (fun kwargs name => kwargs.erase name) args := fun name hmem =>
    (mem_foldl_erase.mp hmem).2 (hargs name (mem_foldl_erase.mp hmem).1)
  unfold FederationContext.keyArguments
  simp only [Finmap.lookup_eq_none.mpr hjwks, Option.getD_none,
    Finmap.lookup_eq_none.mpr (hnone "keys")]
  refine Finmap.ext_lookup fun name => ?_
  rw [Finmap.lookup_empty]
  exact Finmap.lookup_eq_none.mpr (hnone name)

/-- What goes into the entity configuration of a host besides keys and superiors. -/
structure Prepared (host : Host) (metadata : Dict Json) (claims : Record) : Prop where
  names : ∀ name ∈ claims, name ∈ ["trust_marks", "metadata", "metadata_policy", "lifetime"]
  metadata : claims.lookup "metadata" = some (dictJson metadata)
  lifetime : (claims.lookup "lifetime").getD (.num 86400) = .num host.lifetime

namespace Configured

variable {host : Host} {superiors : List EntityId}

theorem lookup_metadata (h : Configured host superiors) {metadata : Dict Json}
    (hmetadata : host.metadata = .ok metadata) :
    metadata.lookup "federation_entity" = some (dictJson
      (((host.serverMetadata.erase "jwks").erase "jwks_uri").erase "signed_jwks_uri")) := by
  unfold Host.metadata at hmetadata
  cases hcombo : host.combo with
  | none =>
      rw [hcombo] at hmetadata
      obtain rfl := Except.ok.inj hmetadata
      exact Server.lookup_getMetadata _ _
  | some combo =>
      rw [hcombo] at hmetadata
      refine FederationCombo.lookup_getMetadata (host.member combo hcombo) (fun d hd => ?_)
        (h.apart combo hcombo) hmetadata
      obtain rfl := Except.ok.inj hd
      exact Server.lookup_getMetadata _ _

/-- The statement that is made, with the superiors among the claims unless there are none. -/
theorem describes (h : Configured host superiors) {claims args : Record} {metadata : Dict Json}
    (hmetadata : host.metadata = .ok metadata) (hclaims : Prepared host metadata claims)
    (hargs : args = claims.insert "authority_hints" (.arr (superiors.map .str)) ∨
      (args = claims ∧ superiors = [])) :
    ∃ statement, EntityStatement.createEntityStatement host.exportJwks host.context.entityId
      host.context.entityId args = .ok statement ∧ Describes host superiors statement := by
  have hnames : ∀ name ∈ args, name = "authority_hints" ∨
      name ∈ ["trust_marks", "metadata", "metadata_policy", "lifetime"] := by
    intro name hmem
    rcases hargs with rfl | ⟨rfl, -⟩
    · exact (Finmap.mem_insert.mp hmem).imp_right (hclaims.names name)
    · exact Or.inr (hclaims.names name hmem)
  have hnot : ∀ name, name ≠ "authority_hints" →
      name ∉ ["trust_marks", "metadata", "metadata_policy", "lifetime"] → name ∉ args :=
    fun name hne hname hmem => (hnames name hmem).elim hne hname
  have hlookup : ∀ name, name ≠ "authority_hints" → args.lookup name = claims.lookup name := by
    intro name hne
    rcases hargs with rfl | ⟨rfl, -⟩
    · exact Finmap.lookup_insert_of_ne _ hne
    · rfl
  have hown : ∀ name ∈ ownParameters, name ∉ args := by
    intro name hname
    simp only [ownParameters, List.mem_cons, List.not_mem_nil, or_false] at hname
    rcases hname with rfl | rfl | rfl <;> exact hnot _ (by decide) (by decide)
  have hcreate := @createEntityStatement_of_claims host.exportJwks host.context.entityId
    host.context.entityId args hown (hnot "include_jwks" (by decide) (by decide))
  refine ⟨_, hcreate, rfl, ?_, createEntityStatement_sub hcreate, ?_, ?_, metadata, ?_,
    h.lookup_metadata hmetadata⟩
  · rw [← hclaims.lifetime, ← hlookup "lifetime" (by decide)]
  · rw [Finmap.lookup_eq_none.mpr (hnot "jwks" (by decide) (by decide))]
    exact Finmap.lookup_insert _
  · rw [Finmap.lookup_insert_of_ne _ (by decide), lookup_messageOf (by decide)]
    rcases hargs with rfl | ⟨rfl, rfl⟩
    · rw [Finmap.lookup_insert]
      exact filter_truthy superiors
    · have hnone : args.lookup "authority_hints" = none := Finmap.lookup_eq_none.mpr fun hmem =>
        absurd (hclaims.names _ hmem) (by decide)
      rw [hnone]
      rfl
  · rw [Finmap.lookup_insert_of_ne _ (by decide), lookup_messageOf (by decide),
      hlookup "metadata" (by decide), hclaims.metadata, Option.filter_some,
      if_pos (truthy_dictJson (h.lookup_metadata hmetadata))]

theorem trustMarkArgs (h : Configured host superiors) :
    ∃ args, host.trustMarkArgs = .ok args ∧ ∀ name ∈ args, name = "trust_marks" := by
  obtain ⟨trustMarks, htrustMarks⟩ := h.trustMarks
  have hsingle : ∀ v : Json, ∀ name ∈ (Finmap.singleton "trust_marks" v : Record),
      name = "trust_marks" := fun v name hmem => (Finmap.mem_singleton _ _ _).mp hmem
  unfold Host.trustMarkArgs
  by_cases htruthy : host.context.trustMarks.truthy = true
  · rw [if_pos htruthy]
    cases host.context.trustMarks with
    | callable call => exact ⟨_, by rw [htrustMarks]; rfl, hsingle trustMarks⟩
    | value v => exact ⟨_, rfl, hsingle v⟩
  · rw [if_neg htruthy]
    exact ⟨∅, rfl, fun name hmem => absurd hmem Finmap.notMem_empty⟩

theorem entityConfiguration (h : Configured host superiors)
    (hwellKnown : host.wellKnown = .entityConfiguration) :
    ∃ statement, host.entityConfiguration = .ok statement ∧
      Describes host superiors statement := by
  obtain ⟨metadata, hmetadata⟩ := h.metadata
  obtain ⟨args, hargs, hnames⟩ := h.trustMarkArgs
  rw [Host.entityConfiguration, hmetadata, except_ok_bind, hargs, except_ok_bind, h.hints,
    except_ok_bind]
  refine h.describes hmetadata ⟨fun name hmem => ?_, Finmap.lookup_insert _, ?_⟩ (Or.inl rfl)
  · rcases Finmap.mem_insert.mp hmem with rfl | hmem
    · decide
    · obtain rfl := hnames name hmem
      decide
  · have hnone : args.lookup "lifetime" = none := Finmap.lookup_eq_none.mpr fun hmem =>
      absurd (hnames _ hmem) (by decide)
    rw [Finmap.lookup_insert_of_ne _ (by decide), hnone, Host.lifetime, hwellKnown, Option.getD_none]

/-- What the context makes of the arguments of `wkof`. -/
theorem createEntityStatement_wkof (hwellKnown : host.wellKnown = .wkof) {metadata : Dict Json}
    {hints trustMarks : Json} (htrustMarks : host.context.getTrustMarks = .ok trustMarks)
    (iss sub : EntityId) :
    ∃ claims, Prepared host metadata claims ∧
      host.context.createEntityStatement host.exportJwks iss sub
          (((Finmap.singleton "metadata" (dictJson metadata)).insert "authority_hints" hints).insert
            "lifetime" (.num host.context.defaultLifetime)) =
        match (if hints.truthy then .value hints else host.context.authorityHints) with
        | .value v => EntityStatement.createEntityStatement host.exportJwks iss sub
            (claims.insert "authority_hints" v)
        | .callable call => do
            let statement ←
              EntityStatement.createEntityStatement host.exportJwks iss sub claims
            return { statement with payload := statement.payload.insert "authority_hints" (← call) } := by
  generalize hargs : (((Finmap.singleton "metadata" (dictJson metadata)).insert "authority_hints"
    hints).insert "lifetime" (.num host.context.defaultLifetime) : Record) = args
  have hnames : ∀ name ∈ args, name = "lifetime" ∨ name = "authority_hints" ∨ name = "metadata" := by
    intro name hmem
    simpa only [← hargs, Finmap.mem_insert, Finmap.mem_singleton] using hmem
  have hnot : ∀ name, name ∉ ["lifetime", "authority_hints", "metadata"] → name ∉ args :=
    fun name hname hmem => hname (by simpa using hnames name hmem)
  -- `wkof` gives only arguments that the method names itself
  have hkwargs : FederationContext.keyArguments args = ∅ := by
    refine keyArguments_of_named (fun name hmem => ?_) (hnot "jwks" (by decide))
    rcases hnames name hmem with rfl | rfl | rfl <;> decide
  have hmeta : args.lookup "metadata" = some (dictJson metadata) := by
    rw [← hargs, Finmap.lookup_insert_of_ne _ (by decide),
      Finmap.lookup_insert_of_ne _ (by decide), Finmap.lookup_singleton_eq]
  have hhints : args.lookup "authority_hints" = some hints := by
    rw [← hargs, Finmap.lookup_insert_of_ne _ (by decide), Finmap.lookup_insert]
  have hlifetime : args.lookup "lifetime" = some (.num host.context.defaultLifetime) := by
    rw [← hargs, Finmap.lookup_insert]
  refine ⟨(((if trustMarks.truthy then (∅ : Record).insert "trust_marks" trustMarks else ∅).insert
    "metadata" (dictJson metadata)).insert "metadata_policy" .null).insert "lifetime"
      (.num host.context.defaultLifetime), ⟨fun name hmem => ?_, ?_, ?_⟩, ?_⟩
  · simp only [Finmap.mem_insert] at hmem
    rcases hmem with rfl | rfl | rfl | hmem
    · decide
    · decide
    · decide
    · by_cases htruthy : trustMarks.truthy = true
      · rw [if_pos htruthy, Finmap.mem_insert] at hmem
        obtain rfl := hmem.resolve_right Finmap.notMem_empty
        decide
      · rw [if_neg htruthy] at hmem
        exact absurd hmem Finmap.notMem_empty
  · rw [Finmap.lookup_insert_of_ne _ (by decide), Finmap.lookup_insert_of_ne _ (by decide),
      Finmap.lookup_insert]
  · rw [Finmap.lookup_insert, Host.lifetime, hwellKnown, Option.getD_some]
  · unfold FederationContext.createEntityStatement
    simp only [hhints, Option.getD_some]
    cases (if hints.truthy = true then Setting.value hints else host.context.authorityHints) <;>
      simp only [hkwargs, hmeta, hlifetime, Option.getD_some, ite_self, htrustMarks, except_ok_bind,
        Finmap.lookup_eq_none.mpr (hnot "metadata_policy" (by decide)), Option.getD_none]

theorem wkof (h : Configured host superiors) (hwellKnown : host.wellKnown = .wkof) :
    ∃ statement, host.wkof = .ok statement ∧ Describes host superiors statement := by
  obtain ⟨metadata, hmetadata⟩ := h.metadata
  obtain ⟨trustMarks, htrustMarks⟩ := h.trustMarks
  obtain ⟨claims, hclaims, hcreate⟩ := @createEntityStatement_wkof host hwellKnown metadata
    (.arr (superiors.map .str)) trustMarks htrustMarks host.context.entityId host.context.entityId
  rw [Host.wkof, hmetadata, except_ok_bind, h.hints, except_ok_bind, hcreate]
  by_cases hempty : superiors = []
  · -- the setting of the context is gone back to
    obtain rfl := hempty
    rw [List.map_nil, if_neg (by simp [Json.truthy])]
    rcases getSetting_eq_ok (h.noFile hwellKnown rfl) h.hints with hsetting | hsetting
    · rw [hsetting]
      exact h.describes hmetadata hclaims (Or.inl rfl)
    · obtain ⟨statement, hstatement, hdescribes⟩ :=
        h.describes hmetadata hclaims (Or.inr ⟨rfl, rfl⟩)
      rw [hsetting]
      refine ⟨{ statement with payload := statement.payload.insert "authority_hints" (.arr []) },
        by simp only [hstatement]; rfl, ?_⟩
      obtain ⟨metadata', hlookup, hfederation⟩ := hdescribes.metadata
      exact {
        iss := hdescribes.iss
        lifetime := hdescribes.lifetime
        sub := (Finmap.lookup_insert_of_ne _ (by decide)).trans hdescribes.sub
        jwks := (Finmap.lookup_insert_of_ne _ (by decide)).trans hdescribes.jwks
        hints := by rw [Finmap.lookup_insert]; rfl
        metadata := ⟨metadata', (Finmap.lookup_insert_of_ne _ (by decide)).trans hlookup,
          hfederation⟩ }
  · have htruthy : (Json.arr (superiors.map .str)).truthy = true := by
      simp [Json.truthy, hempty]
    rw [if_pos htruthy]
    exact h.describes hmetadata hclaims (Or.inl rfl)

/-- A host that has what it takes says who it is, whichever way it does. -/
theorem ownWords (h : Configured host superiors) :
    ∃ statement, host.ownWords = .ok statement ∧ Describes host superiors statement := by
  cases hwellKnown : host.wellKnown with
  | entityConfiguration =>
      rw [Host.ownWords, hwellKnown]
      exact h.entityConfiguration hwellKnown
  | wkof =>
      rw [Host.ownWords, hwellKnown]
      exact h.wkof hwellKnown

end Configured

end Fedservice.Entity.Server
