/-
  Fedservice.Entity.TrawledSubtree

  What a trawl finds in a federation.  A `Federation` is a graph: who has whom
  as subordinates, which of them are intermediates, and what everybody
  publishes.  Where the servers answer with what is published (`Publishes`), to a
  party that is acquainted with those it begins with, `trawl` computes a function
  of the graph (`trawled`), which goes down from each entity to its intermediates
  and does not remember where it has been: it ends, with all that is wanted,
  exactly where there is a configuration to begin with, nobody is below itself,
  and everybody on the way has metadata as a federation entity and, if it lists
  others, a list endpoint that the collector can verify (`trawls_subtree_iff`).
-/

import Fedservice.Entity.TrawlRequests
import Fedservice.Lib.BoundedDepth

namespace Fedservice.Entity

open Fedservice.Lib Fedservice.Py Fedservice.EntityStatement Fedservice.Crypto
  Fedservice.Entity.Function Relation

variable {Jar Key : Type}

/-! ## Federations -/

/-- A federation, as a trawl for the entities of a type finds it. -/
structure Federation (Key : Type) (entityType : String) where
  entities : Finset EntityId
  metadata : EntityId → Dict Metadata
  configuration : EntityId → Statement Key
  subordinates : EntityId → List EntityId
  isIntermediate : EntityId → Bool
  /-- The answers of the list endpoint of an entity: its subordinates of the type, and those
      that are intermediates. -/
  ofType : EntityId → List EntityId
  intermediates : EntityId → List EntityId
  closed : ∀ e ∈ entities, ∀ x ∈ subordinates e, x ∈ entities
  published : ∀ e ∈ entities, (configuration e).iss = e ∧ (configuration e).sub = e ∧
    (configuration e).metadata = some (metadata e)
  mem_ofType : ∀ e ∈ entities, ∀ x,
    x ∈ ofType e ↔ x ∈ subordinates e ∧ entityType ∈ metadata x
  mem_intermediates : ∀ e ∈ entities, ∀ x,
    x ∈ intermediates e ↔ x ∈ subordinates e ∧ isIntermediate x = true

namespace Federation

variable {entityType : String} (fed : Federation Key entityType)

/-- It lists its subordinates. -/
def HasListEndpoint (e : EntityId) : Prop :=
  ∃ fe, (fed.metadata e).lookup "federation_entity" = some fe ∧ "federation_list_endpoint" ∈ fe

/-- `x` is an intermediate that `e` lists. -/
def Below (e x : EntityId) : Prop :=
  fed.HasListEndpoint e ∧ x ∈ fed.subordinates e ∧ fed.isIntermediate x = true

/-- Of the type, and the entity itself or a subordinate that is listed by an entity reachable
    from it through intermediates. -/
def Wanted (e x : EntityId) : Prop :=
  entityType ∈ fed.metadata x ∧
    (x = e ∨ ∃ y, ReflTransGen fed.Below e y ∧ fed.HasListEndpoint y ∧ x ∈ fed.subordinates y)

/-- The loop of `trawl` over the intermediates, on what is published. -/
def trawledBelow (trawled : EntityId → Except Exc (List EntityId)) (issuers : List EntityId) :
    List EntityId → Except Exc (List EntityId)
  | [] => .ok issuers
  | entityId :: rest => do
      let ids ← trawled entityId
      trawledBelow trawled (issuers ++ ids) rest

/-- `trawl`, on what is published, where the list endpoints of some are verified. -/
def trawled (verified : EntityId → Bool) : Nat → EntityId → Except Exc (List EntityId)
  | 0, _ => .error .recursionError
  | depth + 1, e => do
      let metadata ← metadataOf (fed.configuration e)
      let issuers := if entityType ∈ metadata then [(fed.configuration e).sub] else []
      let fe ← item metadata "federation_entity"
      if "federation_list_endpoint" ∉ fe then return issuers
      else if !verified e then throw (.attributeError "_jws")
      else trawledBelow (trawled verified depth) (issuers ++ fed.ofType e) (fed.intermediates e)

theorem mem_of_reaches {subordinate e : EntityId} (hsub : subordinate ∈ fed.entities)
    (hreach : ReflTransGen fed.Below subordinate e) : e ∈ fed.entities := by
  induction hreach with
  | refl => exact hsub
  | tail _ hbelow ih => exact fed.closed _ ih _ hbelow.2.1

end Federation

/-! ## trawl computes it -/

section Publishes

variable [KeyStore Jar Key] [DecidableEq Key] (ho : HashOrder) (known : EntityId → Bool)
  (env : CollectorEnv Key) (client : ClientEnv Key) (C : Finset EntityId) {entityType : String}
  (fed : Federation Key entityType) (superior subordinate : EntityId) (Cached : EntityId → Prop)

/-- `superior` is asked about `e` in a trawl from the one entity to the other. -/
def AskedAbout (sup e : EntityId) : Prop :=
  (sup = superior ∧ e = subordinate) ∨ (ReflTransGen fed.Below subordinate sup ∧ fed.Below sup e)

/-- The entities that a trawl from the one entity to the other meets. -/
def Met (e : EntityId) : Prop := e = superior ∨ ReflTransGen fed.Below subordinate e

/-- The list endpoint of an entity can be verified: of a trust anchor, and of those whose trust
    chains can be collected. -/
def verifiable (e : EntityId) : Bool := decide (e ∈ env.trustAnchors ∨ e ∈ C)

omit [KeyStore Jar Key] in
/-- The servers answer with what is published.  The collector can collect the trust chains of
    the entities of `C`; what the others publish is not outdated, and about those that are not in
    the cache the client is told by whoever lists them. -/
structure Publishes : Prop where
  collectible : Collectible env C (Met fed superior subordinate) fed.configuration
  anchors : ∀ e ∈ env.trustAnchors, ReflTransGen fed.Below subordinate e →
    fed.HasListEndpoint e → ∃ config, Function.configuration env e = .ok config ∧
      config.payload = fed.configuration e
  tells : ∀ sup e, AskedAbout fed superior subordinate sup e → ¬ Cached e →
    Tells env client fed.configuration sup e
  young : ∀ e, ReflTransGen fed.Below subordinate e → e ∉ C →
    ∀ n, env.now n < (fed.configuration e).exp + env.allowedDelta
  lists : ∀ e, ReflTransGen fed.Below subordinate e → fed.HasListEndpoint e →
    verifiable env C e = true →
      AnswersList ho known env client e [("entity_type", .text entityType)] (fed.ofType e) ∧
      AnswersList ho known env client e [("intermediate", .flag true)] (fed.intermediates e)

/-- The caches and the key jar hold what is published by the entities that a trawl meets, and
    the collector keeps those of `C`. -/
def Prepared (t : Traced Jar Key) : Prop :=
  Acquainted env C known (Met fed superior subordinate) fed.configuration
    (fun e => e ∈ C ∧ ReflTransGen fed.Below subordinate e) t.federation

variable {ho known env client C fed superior subordinate} {Cached : EntityId → Prop}

omit [KeyStore Jar Key] [DecidableEq Key] in
theorem yields_trawlIntermediates {Inv : Traced Jar Key → Prop}
    {trawl : EntityId → EStateM Exc (Traced Jar Key) (List EntityId)}
    {trawled : EntityId → Except Exc (List EntityId)} {l : List EntityId}
    (h : ∀ x ∈ l, Yields Inv (trawl x) (trawled x)) (issuers : List EntityId) :
    Yields Inv (trawlIntermediates trawl issuers l)
      (Federation.trawledBelow trawled issuers l) := by
  induction l generalizing issuers with
  | nil => exact yields_pure issuers
  | cons x rest ih =>
      rw [List.forall_mem_cons] at h
      exact h.1.bind fun ids _ => ih h.2 (issuers ++ ids)

omit [KeyStore Jar Key] [DecidableEq Key] in
theorem Federation.hasListEndpoint_iff (e : EntityId) {fe : Metadata}
    (hfe : item (fed.metadata e) "federation_entity" = .ok fe) :
    fed.HasListEndpoint e ↔ "federation_list_endpoint" ∈ fe := by
  rw [item_eq_ok] at hfe
  simp [HasListEndpoint, hfe]

/-- Step: what `trawl` does once it has the configuration of an entity. -/
theorem Publishes.listed [LawfulKeyStore Jar]
    (h : Publishes ho known env client C fed superior subordinate Cached)
    (hsub : subordinate ∈ fed.entities) {e : EntityId}
    (hreach : ReflTransGen fed.Below subordinate e) (hlists : fed.HasListEndpoint e)
    {A : EntityId → Prop} (he : A e)
    {issuers : List EntityId} {trawl : EntityId → EStateM Exc (Traced Jar Key) (List EntityId)}
    {trawled : EntityId → Except Exc (List EntityId)}
    (hbelow : ∀ x ∈ fed.intermediates e, Yields (fun t : Traced Jar Key =>
      Acquainted env C known (Met fed superior subordinate) fed.configuration A t.federation)
      (trawl x) (trawled x)) :
    Yields (fun t : Traced Jar Key =>
        Acquainted env C known (Met fed superior subordinate) fed.configuration A t.federation)
      (do
        let addedIssuers ← requestList ho env client e [("entity_type", .text entityType)]
        let intermediates ← requestList ho env client e [("intermediate", .flag true)]
        trawlIntermediates trawl (issuers ++ addedIssuers) intermediates)
      (if !verifiable env C e then throw (.attributeError "_jws")
        else Federation.trawledBelow trawled (issuers ++ fed.ofType e) (fed.intermediates e)) := by
  by_cases hverifiable : verifiable env C e = true
  · have hin := of_decide_eq_true hverifiable
    obtain ⟨hofType, hintermediates⟩ := h.lists e hreach hlists hverifiable
    have hanchor : e ∈ env.trustAnchors → ∃ config, Function.configuration env e = .ok config ∧
        config.payload = fed.configuration e ∧ (fed.configuration e).iss = e := by
      intro hanchor
      obtain ⟨config, hconfig, hpayload⟩ := h.anchors e hanchor hreach hlists
      exact ⟨config, hconfig, hpayload, (fed.published e (fed.mem_of_reaches hsub hreach)).1⟩
    rw [hverifiable]
    refine (yields_requestList h.collectible he hanchor hin.resolve_left hofType).bind_ok ?_
    refine (yields_requestList h.collectible he hanchor hin.resolve_left hintermediates).bind_ok ?_
    exact yields_trawlIntermediates hbelow _
  · have hout := mt (fun hin => decide_eq_true hin) hverifiable
    rw [not_or] at hout
    rw [Bool.eq_false_of_not_eq_true hverifiable]
    exact (yields_requestList_of_message he hout.2 hout.1 (h.young e hreach hout.2) _).bind_error

/-- Run: from every state in which the party is acquainted with whom it begins with, `trawl`
    comes to what is computed from the graph. -/
theorem Publishes.trawl [LawfulKeyStore Jar]
    (h : Publishes ho known env client C fed superior subordinate Cached)
    (hsub : subordinate ∈ fed.entities) (depth : Nat) {sup e : EntityId}
    (hreach : ReflTransGen fed.Below subordinate e)
    (hasked : AskedAbout fed superior subordinate sup e) {A : EntityId → Prop}
    (hcollected : ∀ x ∈ C, ReflTransGen fed.Below subordinate x → A x)
    (hcached : ∀ x, Met fed superior subordinate x → Cached x → A x) (hbegin : A sup ∨ A e) :
    Yields (fun t : Traced Jar Key =>
        Acquainted env C known (Met fed superior subordinate) fed.configuration A t.federation)
      (Entity.trawl ho env client entityType depth sup e)
      (fed.trawled (verifiable env C) depth e) := by
  induction depth generalizing sup e A with
  | zero => exact yields_throw _
  | succ depth ih =>
      intro t ht
      have hmem := fed.mem_of_reaches hsub hreach
      obtain ⟨-, -, hpublished⟩ := fed.published e hmem
      have hmetadata : metadataOf (fed.configuration e) = .ok (fed.metadata e) := by
        simp [metadataOf, hpublished]
      obtain ⟨t₁, hconfig, ht₁⟩ := trawlConfiguration_of_acquainted h.collectible hbegin
        (Or.inr hreach) (fun hC => hcollected e hC hreach)
        (fun hnew => h.tells sup e hasked fun hc => hnew (hcached e (Or.inr hreach) hc)) ht
      -- from now on the entity is in the cache as well
      have hrest : Yields (fun t : Traced Jar Key =>
          Acquainted env C known (Met fed superior subordinate) fed.configuration
            (fun x => A x ∨ x = e) t.federation) (do
          let metadata ← lift (metadataOf (fed.configuration e))
          let issuers := if entityType ∈ metadata then [(fed.configuration e).sub] else []
          let fe ← lift (item metadata "federation_entity")
          if "federation_list_endpoint" ∉ fe then return issuers
          else do
            let addedIssuers ← requestList ho env client e [("entity_type", .text entityType)]
            let intermediates ← requestList ho env client e [("intermediate", .flag true)]
            trawlIntermediates (Entity.trawl ho env client entityType depth e)
              (issuers ++ addedIssuers) intermediates)
          (fed.trawled (verifiable env C) (depth + 1) e) := by
        refine (yields_lift _).bind fun metadata hm => ?_
        obtain rfl : fed.metadata e = metadata := Except.ok.inj (hmetadata.symm.trans hm)
        refine (yields_lift _).bind fun fe hfe => ?_
        have hlists := fed.hasListEndpoint_iff e hfe
        by_cases hendpoint : "federation_list_endpoint" ∉ fe
        · rw [if_pos hendpoint, if_pos hendpoint]
          exact yields_pure _
        · rw [if_neg hendpoint, if_neg hendpoint]
          rw [not_not, ← hlists] at hendpoint
          refine h.listed hsub hreach hendpoint (Or.inr rfl) fun x hx => ?_
          obtain ⟨hin, hintermediate⟩ := (fed.mem_intermediates e hmem x).mp hx
          have hbelow : fed.Below e x := ⟨hendpoint, hin, hintermediate⟩
          exact ih (hreach.tail hbelow) (Or.inr ⟨hreach, hbelow⟩)
            (fun y hy hr => Or.inl (hcollected y hy hr)) (fun y hy hc => Or.inl (hcached y hy hc))
            (Or.inl (Or.inr rfl))
      obtain ⟨hout, hleft⟩ := hrest t₁ ht₁
      unfold Entity.trawl
      rw [bind_of_ok hconfig]
      exact ⟨hout, hleft.mono fun _ => Or.inl⟩

end Publishes

/-! ## What is computed -/

namespace Federation

section Below

variable {trawled : EntityId → Except Exc (List EntityId)} {issuers ids l : List EntityId}

theorem exists_trawledBelow_iff :
    (∃ ids, trawledBelow trawled issuers l = .ok ids) ↔ ∀ y ∈ l, ∃ ids, trawled y = .ok ids := by
  induction l generalizing issuers with
  | nil => exact ⟨fun _ y hy => absurd hy List.not_mem_nil, fun _ => ⟨issuers, rfl⟩⟩
  | cons y rest ih =>
      rw [List.forall_mem_cons]
      constructor
      · rintro ⟨ids, h⟩
        obtain ⟨first, hfirst, h⟩ := except_bind_eq_ok.mp h
        exact ⟨⟨first, hfirst⟩, ih.mp ⟨ids, h⟩⟩
      · rintro ⟨⟨first, hfirst⟩, hrest⟩
        obtain ⟨ids, h⟩ := ih.mpr hrest
        exact ⟨ids, except_bind_eq_ok.mpr ⟨first, hfirst, h⟩⟩

/-- The loop adds what is found below each intermediate. -/
theorem mem_trawledBelow (h : trawledBelow trawled issuers l = .ok ids) {x : EntityId} :
    x ∈ ids ↔ x ∈ issuers ∨ ∃ y ∈ l, ∃ found, trawled y = .ok found ∧ x ∈ found := by
  induction l generalizing issuers with
  | nil =>
      obtain rfl := Except.ok.inj h
      simp
  | cons y rest ih =>
      obtain ⟨first, hfirst, h⟩ := except_bind_eq_ok.mp h
      rw [ih h, List.mem_append, List.exists_mem_cons_iff, or_assoc]
      refine or_congr_right (or_congr_left ?_)
      constructor
      · exact fun hx => ⟨first, hfirst, hx⟩
      · rintro ⟨found, hfound, hx⟩
        obtain rfl := Except.ok.inj (hfirst.symm.trans hfound)
        exact hx

end Below

variable {entityType : String} (fed : Federation Key entityType) {verified : EntityId → Bool}

/-- The entity itself, if it is of the type. -/
def own (e : EntityId) : List EntityId := if entityType ∈ fed.metadata e then [e] else []

theorem mem_own {e x : EntityId} : x ∈ fed.own e ↔ x = e ∧ entityType ∈ fed.metadata e := by
  unfold own
  by_cases h : entityType ∈ fed.metadata e <;> simp [h]

/-- Step: one level. -/
theorem trawled_succ_eq_ok {depth : Nat} {e : EntityId} (he : e ∈ fed.entities)
    {ids : List EntityId} :
    fed.trawled verified (depth + 1) e = .ok ids ↔
      "federation_entity" ∈ fed.metadata e ∧
        (¬ fed.HasListEndpoint e ∧ ids = fed.own e ∨
          fed.HasListEndpoint e ∧ verified e = true ∧ trawledBelow (fed.trawled verified depth)
            (fed.own e ++ fed.ofType e) (fed.intermediates e) = .ok ids) := by
  obtain ⟨-, hsub, hpublished⟩ := fed.published e he
  have hmetadata : metadataOf (fed.configuration e) = .ok (fed.metadata e) := by
    simp [metadataOf, hpublished]
  rw [trawled, hmetadata, except_ok_bind, hsub, ← own, Dict.mem_iff_lookup]
  constructor
  · intro h
    obtain ⟨fe, hfe, h⟩ := except_bind_eq_ok.mp h
    have hlists := fed.hasListEndpoint_iff e hfe
    refine ⟨⟨fe, item_eq_ok.mp hfe⟩, ?_⟩
    by_cases hendpoint : "federation_list_endpoint" ∉ fe
    · rw [if_pos hendpoint] at h
      exact Or.inl ⟨fun hyes => hendpoint (hlists.mp hyes), (except_pure_eq_ok.mp h).symm⟩
    · rw [if_neg hendpoint] at h
      cases hverified : verified e with
      | false => simp [hverified] at h
      | true =>
          rw [hverified] at h
          exact Or.inr ⟨hlists.mpr (not_not.mp hendpoint), rfl, h⟩
  · rintro ⟨⟨fe, hfe⟩, h⟩
    rw [← item_eq_ok] at hfe
    have hlists := fed.hasListEndpoint_iff e hfe
    refine except_bind_eq_ok.mpr ⟨fe, hfe, ?_⟩
    rcases h with ⟨hno, rfl⟩ | ⟨hyes, hverified, h⟩
    · rw [if_pos fun hin => hno (hlists.mpr hin)]
      rfl
    · rw [if_neg fun hnot => hnot (hlists.mp hyes), hverified]
      exact h

/-- What is wanted from an entity: itself, what it lists, and what is wanted from the
    intermediates below it. -/
theorem wanted_iff {e x : EntityId} :
    fed.Wanted e x ↔ x ∈ fed.own e ∨
      (fed.HasListEndpoint e ∧ x ∈ fed.subordinates e ∧ entityType ∈ fed.metadata x) ∨
      ∃ y, fed.Below e y ∧ fed.Wanted y x := by
  rw [mem_own]
  constructor
  · rintro ⟨htype, rfl | ⟨y, hreach, hlists, hx⟩⟩
    · exact Or.inl ⟨rfl, htype⟩
    · rcases ReflTransGen.cases_head hreach with rfl | ⟨z, hstep, hrest⟩
      · exact Or.inr (Or.inl ⟨hlists, hx, htype⟩)
      · exact Or.inr (Or.inr ⟨z, hstep, htype, Or.inr ⟨y, hrest, hlists, hx⟩⟩)
  · rintro (⟨rfl, htype⟩ | ⟨hlists, hx, htype⟩ | ⟨y, hstep, htype, hx⟩)
    · exact ⟨htype, Or.inl rfl⟩
    · exact ⟨htype, Or.inr ⟨e, .refl, hlists, hx⟩⟩
    · refine ⟨htype, Or.inr ?_⟩
      rcases hx with rfl | ⟨z, hreach, hlists, hx⟩
      · -- an intermediate is a subordinate that is listed
        exact ⟨e, .refl, hstep.1, hstep.2.1⟩
      · exact ⟨z, ReflTransGen.head hstep hreach, hlists, hx⟩

/-- Run: what is returned is what is wanted. -/
theorem mem_trawled {depth : Nat} {e : EntityId} (he : e ∈ fed.entities) {ids : List EntityId}
    (h : fed.trawled verified depth e = .ok ids) {x : EntityId} : x ∈ ids ↔ fed.Wanted e x := by
  induction depth generalizing e ids with
  | zero => exact absurd h (by simp [trawled])
  | succ depth ih =>
      rw [fed.wanted_iff]
      rcases ((fed.trawled_succ_eq_ok he).mp h).2 with ⟨hno, rfl⟩ | ⟨hlists, -, h⟩
      · simp [hno, Below]
      · rw [mem_trawledBelow h, List.mem_append, or_assoc, fed.mem_ofType e he]
        simp only [hlists, true_and]
        refine or_congr_right (or_congr_right (exists_congr fun y => ?_))
        rw [fed.mem_intermediates e he]
        constructor
        · rintro ⟨⟨hsub, hbelow⟩, found, hfound, hx⟩
          exact ⟨⟨hlists, hsub, hbelow⟩, (ih (fed.closed e he y hsub) hfound).mp hx⟩
        · rintro ⟨⟨-, hsub, hbelow⟩, hx⟩
          refine ⟨⟨hsub, hbelow⟩, ?_⟩
          obtain ⟨found, hfound⟩ := exists_trawledBelow_iff.mp ⟨ids, h⟩ y
            ((fed.mem_intermediates e he y).mpr ⟨hsub, hbelow⟩)
          exact ⟨found, hfound, (ih (fed.closed e he y hsub) hfound).mpr hx⟩

/-- The levels of a trawl. -/
theorem boundedDepth (verified : EntityId → Bool) : BoundedDepth fed.entities fed.Below
    (fun e => "federation_entity" ∈ fed.metadata e ∧
      (fed.HasListEndpoint e → verified e = true))
    (fun depth e => ∃ ids, fed.trawled verified depth e = .ok ids) where
  closed e he x hx := fed.closed e he x hx.2.1
  zero e _ := fun ⟨ids, h⟩ => absurd h (by simp [trawled])
  succ depth e he := by
    simp only [fed.trawled_succ_eq_ok he, exists_and_left]
    by_cases hlists : fed.HasListEndpoint e
    · simp only [hlists, not_true_eq_false, false_and, false_or, true_and, true_implies,
        exists_and_left, exists_trawledBelow_iff, fed.mem_intermediates e he, Below, and_assoc]
    · simp [hlists, Below]

end Federation

/-! ## Trawls end -/

section Ends

variable [KeyStore Jar Key] [LawfulKeyStore Jar] [DecidableEq Key] {ho : HashOrder}
  {known : EntityId → Bool} {env : CollectorEnv Key} {client : ClientEnv Key}
  {C : Finset EntityId} {entityType : String} {fed : Federation Key entityType}
  {superior subordinate : EntityId}

omit [LawfulKeyStore Jar] in
/-- The trawl ends, given a deep enough stack, and what it returns are exactly the entities
    wanted. -/
def TrawlsSubtree (ho : HashOrder) (env : CollectorEnv Key) (client : ClientEnv Key)
    (fed : Federation Key entityType) (superior subordinate : EntityId) (t : Traced Jar Key) :
    Prop :=
  ∃ enough, ∀ depth, enough ≤ depth → ∃ ids t',
    trawl ho env client entityType depth superior subordinate t = .ok ids t' ∧
      ∀ x, x ∈ ids ↔ fed.Wanted subordinate x

omit [LawfulKeyStore Jar] in
/-- Where neither the one entity nor the other is in the configuration cache, no trawl ends. -/
theorem TrawlsSubtree.begins {t : Traced Jar Key}
    (h : TrawlsSubtree ho env client fed superior subordinate t) :
    superior ∈ t.federation.collector.configCache ∨
      subordinate ∈ t.federation.collector.configCache := by
  obtain ⟨enough, h⟩ := h
  obtain ⟨ids, t', hreturn, -⟩ := h (enough + 1) (Nat.le_succ _)
  by_contra hnone
  rw [not_or] at hnone
  obtain ⟨config, t₁, hconfig, -⟩ := bind_eq_ok.mp hreturn
  have hraises : outcome (trawlConfiguration env client superior subordinate t) =
      .error .typeError :=
    trawlConfiguration_of_unknown hnone.1 hnone.2
  rw [hconfig, outcome_ok] at hraises
  exact absurd hraises (by simp)

/-- What a trawl comes to where there is a configuration to begin with. -/
theorem outcome_trawl {t : Traced Jar Key}
    (h : Publishes ho known env client C fed superior subordinate
      (· ∈ t.federation.collector.configCache))
    (hsub : subordinate ∈ fed.entities) (ht : Prepared known env C fed superior subordinate t)
    (hbegin : superior ∈ t.federation.collector.configCache ∨
      subordinate ∈ t.federation.collector.configCache) (depth : Nat) :
    outcome (trawl ho env client entityType depth superior subordinate t) =
      fed.trawled (verifiable env C) depth subordinate := by
  let A (e : EntityId) : Prop :=
    Met fed superior subordinate e ∧ e ∈ t.federation.collector.configCache
  have hacquainted : Acquainted env C known (Met fed superior subordinate) fed.configuration A
      t.federation :=
    ⟨ht.caches, ht.tops, ht.messages, ht.held, fun _ he => he.1, fun _ he => he.2⟩
  have hbegin' : A superior ∨ A subordinate :=
    hbegin.imp (fun hin => ⟨Or.inl rfl, hin⟩) fun hin => ⟨Or.inr .refl, hin⟩
  exact (h.trawl hsub depth .refl (Or.inl ⟨rfl, rfl⟩)
    (fun x hx hr => ⟨Or.inr hr, ht.cached x ⟨hx, hr⟩⟩) (fun x hx hc => ⟨hx, hc⟩) hbegin' t
    hacquainted).1

omit [LawfulKeyStore Jar] in
/-- Those whose list endpoints can be verified are the trust anchors and those whose
    configurations the collector keeps. -/
theorem verifiable_iff {t : Traced Jar Key}
    (ht : Prepared known env C fed superior subordinate t) {e : EntityId}
    (hreach : ReflTransGen fed.Below subordinate e) :
    verifiable env C e = true ↔ e ∈ env.trustAnchors ∨
      ∃ config, t.federation.collector.configCache.lookup e = some (.dict config) := by
  rw [verifiable, decide_eq_true_iff]
  refine or_congr_right ⟨fun hin => ?_, fun ⟨config, hlookup⟩ => ?_⟩
  · obtain ⟨entry, hlookup⟩ := Dict.mem_iff_lookup.mp (ht.cached e ⟨hin, hreach⟩)
    obtain ⟨config, rfl, -⟩ := ht.caches.configs e hin entry hlookup
    exact ⟨config, hlookup⟩
  · by_contra hout
    exact nomatch ht.messages e (Or.inr hreach) hout _ hlookup

/-- A trawl ends and returns what is wanted exactly if there is a configuration to begin with,
    none of the entities it gets to is below itself, and all of them have metadata as a
    federation entity and, if they list others, are trust anchors or kept by the collector. -/
theorem trawls_subtree_iff {t : Traced Jar Key}
    (h : Publishes ho known env client C fed superior subordinate
      (· ∈ t.federation.collector.configCache))
    (hsub : subordinate ∈ fed.entities) (ht : Prepared known env C fed superior subordinate t) :
    TrawlsSubtree ho env client fed superior subordinate t ↔
      (superior ∈ t.federation.collector.configCache ∨
        subordinate ∈ t.federation.collector.configCache) ∧
      NoCycleFrom fed.Below subordinate ∧
      ∀ e, ReflTransGen fed.Below subordinate e → "federation_entity" ∈ fed.metadata e ∧
        (fed.HasListEndpoint e → e ∈ env.trustAnchors ∨
          ∃ config, t.federation.collector.configCache.lookup e = some (.dict config)) := by
  have hcondition : (∃ depth ids, fed.trawled (verifiable env C) depth subordinate = .ok ids) ↔
      NoCycleFrom fed.Below subordinate ∧
      ∀ e, ReflTransGen fed.Below subordinate e → "federation_entity" ∈ fed.metadata e ∧
        (fed.HasListEndpoint e → e ∈ env.trustAnchors ∨
          ∃ config, t.federation.collector.configCache.lookup e = some (.dict config)) := by
    rw [(fed.boundedDepth (verifiable env C)).exists_iff hsub]
    refine and_congr_right fun _ => forall₂_congr fun e hreach => and_congr_right fun _ => ?_
    rw [verifiable_iff ht hreach]
  rw [← hcondition]
  constructor
  · intro hends
    have hbegin := hends.begins
    obtain ⟨enough, hends⟩ := hends
    obtain ⟨ids, t', hreturn, -⟩ := hends enough (Nat.le_refl _)
    have hids := outcome_trawl h hsub ht hbegin enough
    rw [hreturn, outcome_ok] at hids
    exact ⟨hbegin, enough, ids, hids.symm⟩
  · rintro ⟨hbegin, enough, hsucceeds⟩
    refine ⟨enough, fun depth hle => ?_⟩
    obtain ⟨ids, hids⟩ := (fed.boundedDepth (verifiable env C)).mono hle hsub hsucceeds
    obtain ⟨t', hreturn⟩ := outcome_eq_ok.mp ((outcome_trawl h hsub ht hbegin depth).trans hids)
    exact ⟨ids, t', hreturn, fun x => fed.mem_trawled hsub hids⟩

end Ends

/-! ## Two trust anchors -/

/-- A web on which there are pages with lists as well. -/
def withLists (env : CollectorEnv Nat) (lists : List (String × String)) : CollectorEnv Nat :=
  { env with
    httpc := fun n url =>
      match lists.lookup url with
      | some text => .reply 200 (some "application/json") (.text text)
      | none => env.httpc n url }

/-- What a JSON parser makes of pages with lists. -/
def readList (lists : List (String × List EntityId)) : ParseResponse Nat (List EntityId) :=
  fun _ _ _ page =>
    match page with
    | .text text =>
        match lists.lookup text with
        | some ids => .ok ids
        | none => .error (.valueError [])
    | .jws _ => .error (.valueError [])

/-- What the client library makes of a signed statement, given the keys held. -/
def readSigned : ParseResponse Nat (Statement Nat) := fun issuer held _ page =>
  match page with
  | .jws s => if s.signer ∈ held issuer then .ok s.payload else .error .badSignature
  | .text _ => .error (.valueError [])

theorem getResponse_readSigned {issuer : EntityId} {held : EntityId → List Nat}
    {contentType : Option String} {s : SignedStatement Nat} (h : s.signer ∈ held issuer) :
    getResponse (readSigned issuer held) (.reply 200 contentType (.jws s)) =
      .ok (.parsed s.payload) := by
  have hread : readSigned issuer held contentType (.jws s) = .ok s.payload := if_pos h
  simp only [getResponse, hread]
  rfl

/-- The metadata of a trust anchor that is a provider as well. -/
def anchorMetadata (id : EntityId) : Dict Metadata :=
  Dict.ofList [("federation_entity",
      Dict.ofList [("federation_list_endpoint", .str (id ++ "/list"))]),
    ("openid_provider", ∅)]

/-- Its configuration. -/
def anchorConfiguration (id : EntityId) : Statement Nat where
  iss := id
  sub := id
  exp := 1000
  jwks := some [1]
  metadata := some (anchorMetadata id)

/-- What each of two trust anchors lists: the other one. -/
def otherAnchor (e : EntityId) : List EntityId :=
  if e = "https://a.org" then ["https://b.org"]
  else if e = "https://b.org" then ["https://a.org"]
  else []

/-- Two trust anchors that list each other. -/
def mutualAnchors : Federation Nat "openid_provider" where
  entities := {"https://a.org", "https://b.org"}
  metadata := anchorMetadata
  configuration := anchorConfiguration
  subordinates := otherAnchor
  isIntermediate _ := true
  ofType := otherAnchor
  intermediates := otherAnchor
  closed := by decide
  published _ _ := ⟨rfl, rfl, rfl⟩
  mem_ofType _ _ x := ⟨fun hx => ⟨hx, by simp [anchorMetadata, Dict.ofList]⟩, fun hx => hx.1⟩
  mem_intermediates _ _ x := ⟨fun hx => ⟨hx, rfl⟩, fun hx => hx.1⟩

/-- Where their configurations are, and their lists. -/
def mutualEnv : CollectorEnv Nat :=
  withLists (onPages ["https://a.org", "https://b.org"]
    [("https://a.org/.well-known/openid-federation", ⟨anchorConfiguration "https://a.org", 1⟩),
     ("https://b.org/.well-known/openid-federation", ⟨anchorConfiguration "https://b.org", 1⟩)])
    [("https://a.org/list?entity_type=openid_provider", "[\"https://b.org\"]"),
     ("https://a.org/list?intermediate=True", "[\"https://b.org\"]"),
     ("https://b.org/list?entity_type=openid_provider", "[\"https://a.org\"]"),
     ("https://b.org/list?intermediate=True", "[\"https://a.org\"]")]

/-- Who asks them. -/
def mutualClient : ClientEnv Nat where
  entityStatement := readSigned
  entityConfiguration := readSigned
  list := readList [("[\"https://a.org\"]", ["https://a.org"]),
    ("[\"https://b.org\"]", ["https://b.org"])]

/-- Somebody who knows them both. -/
def knowsAnchors : Traced (AssocJar Nat) Nat where
  federation :=
    { collector :=
        { configCache := Dict.ofList
            [("https://a.org", .message (anchorConfiguration "https://a.org")),
             ("https://b.org", .message (anchorConfiguration "https://b.org"))] }
      keyjar := ⟨[("https://a.org", [1]), ("https://b.org", [1])]⟩ }

theorem eq_of_met_mutualAnchors {e : EntityId}
    (hmet : Met mutualAnchors "https://a.org" "https://a.org" e) :
    e = "https://a.org" ∨ e = "https://b.org" := by
  rcases hmet with rfl | hreach
  · exact Or.inl rfl
  · have hmem := mutualAnchors.mem_of_reaches (by decide) hreach
    simpa [mutualAnchors] using hmem

/-- They publish what they are. -/
theorem publishes_mutualAnchors :
    Publishes .insertion (fun _ => false) mutualEnv mutualClient ∅ mutualAnchors
      "https://a.org" "https://a.org" (· ∈ knowsAnchors.federation.collector.configCache) where
  collectible :=
    { httpc := fun _ _ => rfl
      unpackRejects := fun _ _ => rfl
      current := fun _ _ he => absurd he (Finset.notMem_empty _)
      closed := fun _ he => absurd he (Finset.notMem_empty _)
      apart := fun _ ha => absurd ha (Finset.notMem_empty _)
      publishes := fun _ he => absurd he (Finset.notMem_empty _)
      answers := fun _ he => absurd he (Finset.notMem_empty _)
      named := fun _ he => absurd he (Finset.notMem_empty _)
      speaks := fun _ he => absurd he (Finset.notMem_empty _)
      deep := Nat.zero_le _
      acyclic := fun _ he => absurd he (Finset.notMem_empty _)
      own := fun _ he => absurd he (Finset.notMem_empty _) }
  anchors e _ hreach _ := by
    rcases eq_of_met_mutualAnchors (Or.inr hreach) with rfl | rfl <;> exact ⟨_, rfl, rfl⟩
  tells sup e hasked hnew := by
    have hin : e ∈ mutualAnchors.entities := by
      rcases hasked with ⟨-, rfl⟩ | ⟨hreach, hbelow⟩
      · decide
      · exact mutualAnchors.mem_of_reaches (by decide) (hreach.tail hbelow)
    refine absurd ?_ hnew
    simp only [mutualAnchors, Finset.mem_insert, Finset.mem_singleton] at hin
    rcases hin with rfl | rfl <;> decide
  young e _ _ n := by
    have hnow : mutualEnv.now n = 100 := rfl
    rw [hnow]
    exact (by decide : (100 : Int) < 1000 + 300)
  lists e hreach _ _ := by
    rcases eq_of_met_mutualAnchors (Or.inr hreach) with rfl | rfl
    · exact ⟨⟨.str "https://a.org/list", "https://a.org/list?entity_type=openid_provider", rfl,
        by decide, fun _ _ => rfl⟩, ⟨.str "https://a.org/list",
        "https://a.org/list?intermediate=True", rfl, by decide, fun _ _ => rfl⟩⟩
    · exact ⟨⟨.str "https://b.org/list", "https://b.org/list?entity_type=openid_provider", rfl,
        by decide, fun _ _ => rfl⟩, ⟨.str "https://b.org/list",
        "https://b.org/list?intermediate=True", rfl, by decide, fun _ _ => rfl⟩⟩

/-- They are known. -/
theorem prepared_knowsAnchors :
    Prepared (fun _ => false) mutualEnv ∅ mutualAnchors "https://a.org" "https://a.org"
      knowsAnchors where
  caches := ⟨fun _ he => absurd he (Finset.notMem_empty _),
    fun _ ha => absurd ha (Finset.notMem_empty _), fun _ ha => absurd ha (Finset.notMem_empty _)⟩
  tops _ ht := absurd ht (Finset.notMem_empty _)
  messages e hmet _ entry hentry := by
    rcases eq_of_met_mutualAnchors hmet with rfl | rfl <;>
      exact (Option.some.inj hentry).symm
  held e hmet _ k hk := by
    rcases eq_of_met_mutualAnchors hmet with rfl | rfl <;>
      · obtain rfl := List.mem_singleton.mp hk
        decide
  met _ he := absurd he.1 (Finset.notMem_empty _)
  cached _ he := absurd he.1 (Finset.notMem_empty _)

/-- No stack is deep enough for them. -/
theorem mutual_anchors_never_trawled :
    ¬ ∀ (ho : HashOrder) (known : EntityId → Bool) (env : CollectorEnv Nat) (client : ClientEnv Nat)
      (C : Finset EntityId) (fed : Federation Nat "openid_provider")
      (superior subordinate : EntityId) (t : Traced (AssocJar Nat) Nat),
      Publishes ho known env client C fed superior subordinate
        (· ∈ t.federation.collector.configCache) →
      subordinate ∈ fed.entities → Prepared known env C fed superior subordinate t →
        TrawlsSubtree ho env client fed superior subordinate t := by
  intro hall
  have hmem : "https://a.org" ∈ mutualAnchors.entities := by decide
  obtain ⟨enough, hends⟩ := hall _ _ _ _ _ _ _ _ knowsAnchors publishes_mutualAnchors hmem
    prepared_knowsAnchors
  obtain ⟨ids, t', hreturn, -⟩ := hends enough (Nat.le_refl _)
  have hids := outcome_trawl publishes_mutualAnchors hmem prepared_knowsAnchors
    (Or.inl (by decide)) enough
  rw [hreturn, outcome_ok] at hids
  obtain ⟨hacyclic, -⟩ := ((mutualAnchors.boundedDepth (verifiable mutualEnv ∅)).exists_iff
    hmem).mp ⟨enough, ids, hids.symm⟩
  have hlists : ∀ e, mutualAnchors.HasListEndpoint e :=
    fun _ => ⟨_, rfl, List.mem_singleton_self _⟩
  have hdown : mutualAnchors.Below "https://a.org" "https://b.org" := ⟨hlists _, by decide, rfl⟩
  have hup : mutualAnchors.Below "https://b.org" "https://a.org" := ⟨hlists _, by decide, rfl⟩
  exact hacyclic "https://a.org" .refl (.tail (.single hdown) hup)

/-! ## A trust anchor, an intermediate and a provider -/

/-- The metadata of the three. -/
def chainMetadata (e : EntityId) : Dict Metadata :=
  if e = "https://op.org" then
    Dict.ofList [("federation_entity", ∅), ("openid_provider", ∅)]
  else Dict.ofList [("federation_entity", Dict.ofList
    [("federation_fetch_endpoint", .str (e ++ "/fetch")),
     ("federation_list_endpoint", .str (e ++ "/list"))])]

/-- Their keys. -/
def chainKeys (e : EntityId) : List Nat :=
  if e = "https://ta.org" then [1] else if e = "https://im.org" then [2] else [3]

/-- Who is listed by whom. -/
def chainBelow (e : EntityId) : List EntityId :=
  if e = "https://ta.org" then ["https://im.org"]
  else if e = "https://im.org" then ["https://op.org"]
  else []

/-- Their configurations. -/
def chainConfiguration (e : EntityId) : Statement Nat where
  iss := e
  sub := e
  exp := 1000
  jwks := some (chainKeys e)
  authorityHints :=
    if e = "https://im.org" then some ["https://ta.org"]
    else if e = "https://op.org" then some ["https://im.org"]
    else none
  metadata := some (chainMetadata e)

/-- A trust anchor above an intermediate above a provider that lists nobody itself. -/
def chainOfThree : Federation Nat "openid_provider" where
  entities := {"https://ta.org", "https://im.org", "https://op.org"}
  metadata := chainMetadata
  configuration := chainConfiguration
  subordinates := chainBelow
  isIntermediate _ := true
  ofType e := (chainBelow e).filter fun x => "openid_provider" ∈ chainMetadata x
  intermediates := chainBelow
  closed := by decide
  published _ _ := ⟨rfl, rfl, rfl⟩
  mem_ofType _ _ x := by simp
  mem_intermediates _ _ x := ⟨fun hx => ⟨hx, rfl⟩, fun hx => hx.1⟩

/-- What is on the web of them. -/
def chainEnv : CollectorEnv Nat :=
  withLists (onPages ["https://ta.org"]
    [("https://ta.org/.well-known/openid-federation", ⟨chainConfiguration "https://ta.org", 1⟩),
     ("https://im.org/.well-known/openid-federation", ⟨chainConfiguration "https://im.org", 2⟩),
     ("https://op.org/.well-known/openid-federation", ⟨chainConfiguration "https://op.org", 3⟩),
     ("https://ta.org/fetch?https://im.org",
      ⟨{ iss := "https://ta.org", sub := "https://im.org", exp := 900, jwks := some [2] }, 1⟩),
     ("https://im.org/fetch?https://op.org",
      ⟨{ iss := "https://im.org", sub := "https://op.org", exp := 900, jwks := some [3] }, 2⟩)])
    [("https://ta.org/list?entity_type=openid_provider", "[]"),
     ("https://ta.org/list?intermediate=True", "[\"https://im.org\"]"),
     ("https://im.org/list?entity_type=openid_provider", "[\"https://op.org\"]"),
     ("https://im.org/list?intermediate=True", "[\"https://op.org\"]")]

/-- Who asks them. -/
def chainClient : ClientEnv Nat where
  entityStatement := readSigned
  entityConfiguration := readSigned
  list := readList [("[]", []), ("[\"https://im.org\"]", ["https://im.org"]),
    ("[\"https://op.org\"]", ["https://op.org"])]

/-- The configuration that one of them publishes, as the collector keeps it. -/
def chainSelfSigned (e : EntityId) (signer : Nat)
    (h : signer ∈ (chainConfiguration e).keys) : SelfSigned Nat :=
  ⟨⟨chainConfiguration e, signer⟩, h⟩

/-- Somebody who has dealt with the intermediate before. -/
def knowsIntermediate : Traced (AssocJar Nat) Nat where
  federation :=
    { collector :=
        { configCache := Dict.ofList
            [("https://ta.org", .dict (chainSelfSigned "https://ta.org" 1 (by decide))),
             ("https://im.org", .dict (chainSelfSigned "https://im.org" 2 (by decide)))] }
      keyjar := ⟨[("https://ta.org", [1]), ("https://im.org", [2])]⟩ }

/-- Those of them that it can collect the trust chains of. -/
def chainTop : Finset EntityId := {"https://ta.org", "https://im.org"}

theorem eq_of_met_chainOfThree {e : EntityId}
    (hmet : Met chainOfThree "https://ta.org" "https://ta.org" e) :
    e = "https://ta.org" ∨ e = "https://im.org" ∨ e = "https://op.org" := by
  rcases hmet with rfl | hreach
  · exact Or.inl rfl
  · have hmem := chainOfThree.mem_of_reaches (by decide) hreach
    simpa [chainOfThree] using hmem

theorem lists_chainEnv {e a : EntityId} (he : e ∈ chainTop) {config : SelfSigned Nat}
    (hconfig : Function.configuration chainEnv e = .ok config)
    (ha : a ∈ config.payload.authorityHints.getD []) :
    e = "https://im.org" ∧ a = "https://ta.org" := by
  simp only [chainTop, Finset.mem_insert, Finset.mem_singleton] at he
  rcases he with rfl | rfl <;> obtain rfl := Except.ok.inj hconfig
  · exact absurd ha List.not_mem_nil
  · exact ⟨rfl, List.mem_singleton.mp ha⟩

theorem collectible_chainOfThree :
    Collectible chainEnv chainTop (Met chainOfThree "https://ta.org" "https://ta.org")
      chainConfiguration where
  httpc _ _ := rfl
  unpackRejects _ _ := rfl
  current _ _ _ _ _ := rfl
  closed e he config hconfig a ha := by
    obtain ⟨rfl, rfl⟩ := lists_chainEnv he hconfig ha
    decide
  apart := by unfold CacheKeysApart; decide
  publishes e he := by
    simp only [chainTop, Finset.mem_insert, Finset.mem_singleton] at he
    rcases he with rfl | rfl <;> exact ⟨_, rfl⟩
  answers e he config hconfig a ha _ := by
    obtain ⟨rfl, rfl⟩ := lists_chainEnv he hconfig ha
    exact ⟨_, _, _, rfl, rfl, rfl, by decide, rfl⟩
  named e he config hconfig := by
    simp only [chainTop, Finset.mem_insert, Finset.mem_singleton] at he
    rcases he with rfl | rfl <;> obtain rfl := Except.ok.inj hconfig <;> decide
  speaks e he a hlists s hs := by
    obtain ⟨config, hconfig, -, ha⟩ := hlists
    obtain ⟨rfl, rfl⟩ := lists_chainEnv he hconfig ha
    obtain rfl := Option.some.inj hs
    refine ⟨by decide, by decide, fun config hconfig => ?_, fun config hconfig => ?_⟩ <;>
      obtain rfl := Except.ok.inj hconfig <;> decide
  deep := by decide
  acyclic e he := by
    refine noCycleFrom_of_level (fun e => if e = "https://im.org" then 1 else 0)
      (fun x hx a hlists => ?_) he
    obtain ⟨config, hconfig, -, ha⟩ := hlists
    obtain ⟨rfl, rfl⟩ := lists_chainEnv hx hconfig ha
    decide
  own e he _ config hconfig := by
    simp only [chainTop, Finset.mem_insert, Finset.mem_singleton] at he
    rcases he with rfl | rfl <;> obtain rfl := Except.ok.inj hconfig <;> exact ⟨rfl, rfl⟩

/-- The keys that are held to begin with. -/
def chainKnown : EntityId → Bool := KeyStore.contains knowsIntermediate.federation.keyjar

theorem publishes_chainOfThree :
    Publishes .insertion chainKnown chainEnv chainClient chainTop chainOfThree
      "https://ta.org" "https://ta.org"
      (· ∈ knowsIntermediate.federation.collector.configCache) where
  collectible := collectible_chainOfThree
  anchors e hanchor _ _ := by
    obtain rfl := List.mem_singleton.mp hanchor
    exact ⟨_, rfl, rfl⟩
  tells sup e hasked hnew := by
    -- only of the provider anything has to be told, by the intermediate
    have hbelow : sup = "https://im.org" ∧ e = "https://op.org" := by
      rcases hasked with ⟨-, rfl⟩ | ⟨hreach, hbelow⟩
      · exact absurd (by decide) hnew
      · rcases eq_of_met_chainOfThree (Or.inr hreach) with rfl | rfl | rfl
        · obtain rfl := List.mem_singleton.mp hbelow.2.1
          exact absurd (by decide) hnew
        · exact ⟨rfl, List.mem_singleton.mp hbelow.2.1⟩
        · exact absurd hbelow.2.1 List.not_mem_nil
    obtain ⟨rfl, rfl⟩ := hbelow
    let es : Statement Nat :=
      { iss := "https://im.org", sub := "https://op.org", exp := 900, jwks := some [3] }
    have hes : ∀ n, chainEnv.httpc n "https://im.org/fetch?https://op.org" =
        .reply 200 (some "application/entity-statement+jwt") (.jws ⟨es, 2⟩) := fun _ => rfl
    have hec : ∀ n, chainEnv.httpc n "https://op.org/.well-known/openid-federation" =
        .reply 200 (some "application/entity-statement+jwt")
          (.jws ⟨chainConfiguration "https://op.org", 3⟩) := fun _ => rfl
    refine ⟨⟨_, _, "https://im.org/fetch", es, [3], rfl, rfl, by decide, by decide, rfl, rfl,
      by decide, fun n held hheld => ?_⟩, ⟨"https://op.org/.well-known/openid-federation",
      by decide, fun n held hheld => ?_⟩, rfl⟩
    · exact (congrArg _ (hes n)).trans (getResponse_readSigned (hheld 2 (by decide)))
    · exact (congrArg _ (hec n)).trans (getResponse_readSigned (hheld 3 (by decide)))
  young e _ _ n := by
    have hnow : chainEnv.now n = 100 := rfl
    rw [hnow]
    exact (by decide : (100 : Int) < 1000 + 300)
  lists e hreach _ hverifiable := by
    rcases eq_of_met_chainOfThree (Or.inr hreach) with rfl | rfl | rfl
    · exact ⟨⟨.str "https://ta.org/list", "https://ta.org/list?entity_type=openid_provider", rfl,
        by decide, fun _ _ => rfl⟩, ⟨.str "https://ta.org/list",
        "https://ta.org/list?intermediate=True", rfl, by decide, fun _ _ => rfl⟩⟩
    · exact ⟨⟨.str "https://im.org/list", "https://im.org/list?entity_type=openid_provider", rfl,
        by decide, fun _ _ => rfl⟩, ⟨.str "https://im.org/list",
        "https://im.org/list?intermediate=True", rfl, by decide, fun _ _ => rfl⟩⟩
    · exact absurd hverifiable (by decide)

theorem prepared_knowsIntermediate :
    Prepared chainKnown chainEnv chainTop chainOfThree "https://ta.org" "https://ta.org"
      knowsIntermediate where
  caches := by
    refine ⟨fun e he entry hentry => ?_, fun a _ e _ entry hentry => ?_,
      fun a _ e _ config hcached => ?_⟩
    · simp only [chainTop, Finset.mem_insert, Finset.mem_singleton] at he
      rcases he with rfl | rfl <;> obtain rfl := Option.some.inj hentry <;> exact ⟨_, rfl, rfl⟩
    · exact nomatch hentry
    · exact absurd hcached Bool.false_ne_true
  tops t ht _ := by
    refine ⟨rfl, fun _ config hconfig k hk => ?_⟩
    simp only [chainTop, Finset.mem_insert, Finset.mem_singleton] at ht
    rcases ht with rfl | rfl <;> obtain rfl := Except.ok.inj hconfig <;>
      obtain rfl := List.mem_singleton.mp hk <;> decide
  messages e hmet hout entry hentry := by
    rcases eq_of_met_chainOfThree hmet with rfl | rfl | rfl
    · exact absurd (by decide) hout
    · exact absurd (by decide) hout
    · exact nomatch hentry
  held e hmet hin k hk := by
    rcases eq_of_met_chainOfThree hmet with rfl | rfl | rfl
    · obtain rfl := List.mem_singleton.mp hk
      decide
    · obtain rfl := List.mem_singleton.mp hk
      decide
    · exact absurd hin (by decide)
  met _ he := Or.inr he.2
  cached e he := by
    have hin := he.1
    simp only [chainTop, Finset.mem_insert, Finset.mem_singleton] at hin
    rcases hin with rfl | rfl <;> decide

/-- How far up they are. -/
def chainLevel (e : EntityId) : Nat :=
  if e = "https://ta.org" then 2 else if e = "https://im.org" then 1 else 0

/-- From the trust anchor down: the provider is found below the intermediate. -/
theorem anchorAndBelow_trawled :
    TrawlsSubtree .insertion chainEnv chainClient chainOfThree "https://ta.org" "https://ta.org"
      knowsIntermediate := by
  refine (trawls_subtree_iff publishes_chainOfThree (by decide) prepared_knowsIntermediate).mpr
    ⟨Or.inl (by decide), ?_, fun e hreach => ?_⟩
  · have hdown : ∀ x ∈ chainOfThree.entities, ∀ a, chainOfThree.Below x a →
        a ∈ chainOfThree.entities ∧ chainLevel a < chainLevel x := by
      intro x hx a hbelow
      refine ⟨chainOfThree.closed x hx a hbelow.2.1, ?_⟩
      simp only [chainOfThree, Finset.mem_insert, Finset.mem_singleton] at hx
      rcases hx with rfl | rfl | rfl
      · obtain rfl := List.mem_singleton.mp hbelow.2.1
        decide
      · obtain rfl := List.mem_singleton.mp hbelow.2.1
        decide
      · exact absurd hbelow.2.1 List.not_mem_nil
    exact noCycleFrom_of_level chainLevel hdown (by decide)
  · rcases eq_of_met_chainOfThree (Or.inr hreach) with rfl | rfl | rfl
    · exact ⟨by decide, fun _ => Or.inl (by decide)⟩
    · exact ⟨by decide, fun _ => Or.inr ⟨_, rfl⟩⟩
    · refine ⟨by decide, fun ⟨fe, hfe, hin⟩ => ?_⟩
      obtain rfl := Option.some.inj hfe
      exact absurd hin (by decide)

end Fedservice.Entity
