/-
  Fedservice.AppServer.RedirectUris

  What `verify_redirect_uris` lets through.  Its loop is one test and one entry
  for each URI (`verifiedRedirectUris_eq_ok`), and the test is one if/elif
  chain (`redirectUriCustom_eq_ok`): the fragment is asked for in its last
  branch, which a native client's URIs never get to.  `LetThrough` and
  `SafeUri` say what the chain asks of such a URI and what it should; they
  differ by the fragment, and nowhere else (`safe_unless_fragment_let_through`).
-/

import Fedservice.AppServer.ClientRegistrationSetup

namespace Fedservice.AppServer

open Fedservice.Lib Fedservice.Py Fedservice.EntityStatement

variable (lib : RegistrationLib)

/-! ## Requests -/

/-- The `application_type`, `web` where there is none. -/
def applicationType (request : Metadata) : Json :=
  (request.lookup "application_type").getD (.str "web")

def isNative (request : Metadata) : Bool := (applicationType request).eqv (.str "native")

def isWeb (request : Metadata) : Bool := (applicationType request).eqv (.str "web")

/-- The `response_types` are exactly `["code"]`. -/
def onlyCode (request : Metadata) : Bool :=
  (request.lookup "response_types").any (·.eqv (.arr [.str "code"]))

/-- The redirect URIs of a request, in order. -/
def ListsUris (request : Metadata) (uris : List Json) : Prop :=
  ∃ claim, request.lookup "redirect_uris" = some claim ∧ claim.iter? = some uris

/-- A claim is a URL with these parts. -/
def ParsesTo (uri : Json) (s : String) (p : ParseResult) : Prop :=
  uri = .str s ∧ urlparse s = .ok p

/-- No scheme of the web. -/
def CustomScheme (p : ParseResult) : Prop := p.scheme ∉ ["http", "https"]

instance (p : ParseResult) : Decidable (CustomScheme p) := inferInstanceAs (Decidable (_ ∉ _))

/-- http on the machine of the user. -/
def LocalHttp (p : ParseResult) : Prop :=
  p.scheme = "http" ∧ p.hostname ∈ [some "localhost", some "127.0.0.1"]

instance (p : ParseResult) : Decidable (LocalHttp p) := inferInstanceAs (Decidable (_ ∧ _))

/-! ## What is safe -/

/-- A redirect URI that a client may be sent to. -/
structure SafeUri (request : Metadata) (p : ParseResult) : Prop where
  no_fragment : p.fragment = ""
  web : isWeb request = true → p.scheme = "https" ∨ (p.scheme = "http" ∧ onlyCode request = true)
  native : isNative request = true → CustomScheme p ∨ LocalHttp p

/-- The entry for a redirect URI: as it is with a custom scheme, else as `split_uri` has it. -/
inductive EntryFor (s : String) : Bool → Json → Prop
  | custom : EntryFor s true (.arr [.str s, .obj []])
  | split {base : String} {query : Option Json} (hsplit : lib.splitUri s = .ok (base, query)) :
      EntryFor s false (.arr [.str base, (query.filter (·.truthy)).getD (.obj [])])

/-- The entries are those of the redirect URIs, in order, and all of these are safe. -/
def SafeUris (request : Metadata) (verified : Json) : Prop :=
  ∃ uris entries, ListsUris request uris ∧ verified = .arr entries ∧
    List.Forall₂ (fun uri entry => ∃ s p custom, ParsesTo uri s p ∧ EntryFor lib s custom entry ∧
      SafeUri request p) uris entries

/-! ## The test of a URI -/

theorem redirectUriCustom_native (mustHttps : Bool) (p : ParseResult) :
    redirectUriCustom true mustHttps p =
      if CustomScheme p then .ok true
      else if LocalHttp p then .ok false
      else .error (.invalidRedirectUri
        [.lit "Redirect_uri must use custom scheme or http and localhost"]) :=
  rfl

theorem redirectUriCustom_other (mustHttps : Bool) (p : ParseResult) :
    redirectUriCustom false mustHttps p =
      if mustHttps = true ∧ p.scheme ≠ "https" then
        .error (.invalidRedirectUri [.lit "None https redirect_uri not allowed"])
      else if CustomScheme p then
        .error (.invalidRedirectUri [.lit "Custom redirect_uri not allowed for web client"])
      else if p.fragment ≠ "" then
        .error (.invalidRedirectUri [.lit "redirect_uri contains fragment"])
      else .ok false :=
  rfl

/-- Of a native client's URI the chain asks for the scheme and the host. -/
theorem redirectUriCustom_native_eq_ok {mustHttps : Bool} {p : ParseResult} {custom : Bool} :
    redirectUriCustom true mustHttps p = .ok custom ↔
      CustomScheme p ∧ custom = true ∨ LocalHttp p ∧ custom = false := by
  rw [redirectUriCustom_native]
  by_cases hcustom : CustomScheme p
  · have hlocal : ¬ LocalHttp p := fun h => hcustom (by rw [h.1]; simp)
    simp [hcustom, hlocal, eq_comm]
  · by_cases hlocal : LocalHttp p
    · simp [hcustom, hlocal, eq_comm]
    · simp [hcustom, hlocal]

/-- Of any other client's it asks for the scheme, and that there is no fragment. -/
theorem redirectUriCustom_other_eq_ok {mustHttps : Bool} {p : ParseResult} {custom : Bool} :
    redirectUriCustom false mustHttps p = .ok custom ↔
      custom = false ∧ ¬ CustomScheme p ∧ (mustHttps = true → p.scheme = "https") ∧
        p.fragment = "" := by
  rw [redirectUriCustom_other]
  by_cases hhttps : mustHttps = true ∧ p.scheme ≠ "https"
  · rw [if_pos hhttps]
    simp [hhttps.1, hhttps.2]
  · rw [if_neg hhttps]
    rw [not_and, not_not] at hhttps
    by_cases hcustom : CustomScheme p
    · simp [hcustom]
    · by_cases hfragment : p.fragment = ""
      · rw [if_neg hcustom, if_neg (not_not.mpr hfragment), Except.ok.injEq]
        exact ⟨fun h => ⟨h.symm, hcustom, hhttps, hfragment⟩, fun h => h.1.symm⟩
      · simp [hcustom, hfragment]

/-! ## The loop -/

theorem urlparseClaim_eq_ok {uri : Json} {s : String} {p : ParseResult} :
    urlparseClaim uri = .ok (s, p) ↔ ParsesTo uri s p := by
  unfold urlparseClaim ParsesTo
  cases uri with
  | str s' =>
      simp only [except_bind_eq_ok, except_pure_eq_ok, Prod.mk.injEq, Json.str.injEq]
      constructor
      · rintro ⟨p', hp, rfl, rfl⟩
        exact ⟨rfl, hp⟩
      · rintro ⟨rfl, hp⟩
        exact ⟨p, hp, rfl, rfl⟩
  | _ => simp

/-- The entry that one turn of the loop appends. -/
def redirectEntry (s : String) (custom : Bool) : Except Exc Json :=
  if custom then .ok (.arr [.str s, .obj []])
  else do
    let (base, query) ← lib.splitUri s
    return .arr [.str base, (query.filter (·.truthy)).getD (.obj [])]

theorem redirectEntry_eq_ok {s : String} {custom : Bool} {entry : Json} :
    redirectEntry lib s custom = .ok entry ↔ EntryFor lib s custom entry := by
  constructor
  · intro h
    cases custom with
    | true =>
        obtain rfl := Except.ok.inj h
        exact .custom
    | false =>
        obtain ⟨⟨base, query⟩, hsplit, h⟩ := except_bind_eq_ok.mp h
        obtain rfl := except_pure_eq_ok.mp h
        exact .split hsplit
  · rintro (_ | hsplit)
    · rfl
    · rw [redirectEntry, if_neg Bool.false_ne_true, hsplit]
      rfl

theorem verifiedRedirectUris_cons (nativeClient mustHttps : Bool) (uri : Json) (rest : List Json) :
    verifiedRedirectUris lib nativeClient mustHttps (uri :: rest) = (do
      let (s, p) ← urlparseClaim uri
      let custom ← redirectUriCustom nativeClient mustHttps p
      let entry ← redirectEntry lib s custom
      let more ← verifiedRedirectUris lib nativeClient mustHttps rest
      return entry :: more) := by
  rw [verifiedRedirectUris]
  cases hparse : urlparseClaim uri with
  | error e => rfl
  | ok sp =>
      obtain ⟨s, p⟩ := sp
      obtain ⟨rfl, -⟩ := urlparseClaim_eq_ok.mp hparse
      simp only [except_ok_bind]
      cases redirectUriCustom nativeClient mustHttps p with
      | error e => rfl
      | ok custom =>
          cases custom with
          | true => rfl
          | false =>
              unfold redirectEntry
              cases lib.splitUri s with
              | error e => rfl
              | ok split =>
                  obtain ⟨base, _ | query⟩ := split
                  · rfl
                  · by_cases h : query.truthy = true <;> simp [h, Option.filter]

/-- Step: one turn of the loop. -/
theorem verifiedRedirectUris_cons_eq_ok {nativeClient mustHttps : Bool} {uri : Json}
    {rest entries : List Json} :
    verifiedRedirectUris lib nativeClient mustHttps (uri :: rest) = .ok entries ↔
      ∃ entry more, (∃ s p custom, ParsesTo uri s p ∧ EntryFor lib s custom entry ∧
          redirectUriCustom nativeClient mustHttps p = .ok custom) ∧
        verifiedRedirectUris lib nativeClient mustHttps rest = .ok more ∧
        entries = entry :: more := by
  simp only [verifiedRedirectUris_cons, except_bind_eq_ok, except_pure_eq_ok, ← redirectEntry_eq_ok,
    ← urlparseClaim_eq_ok]
  constructor
  · rintro ⟨⟨s, p⟩, hparse, custom, htest, entry, hentry, more, hmore, rfl⟩
    exact ⟨entry, more, ⟨s, p, custom, hparse, hentry, htest⟩, hmore, rfl⟩
  · rintro ⟨entry, more, ⟨s, p, custom, hparse, hentry, htest⟩, hmore, rfl⟩
    exact ⟨(s, p), hparse, custom, htest, entry, hentry, more, hmore, rfl⟩

/-- Run: the loop returns one entry for each URI, in order, each of which passes the test. -/
theorem verifiedRedirectUris_eq_ok {nativeClient mustHttps : Bool} {uris entries : List Json} :
    verifiedRedirectUris lib nativeClient mustHttps uris = .ok entries ↔
      List.Forall₂ (fun uri entry => ∃ s p custom, ParsesTo uri s p ∧ EntryFor lib s custom entry ∧
        redirectUriCustom nativeClient mustHttps p = .ok custom) uris entries := by
  induction uris generalizing entries with
  | nil => simp [verifiedRedirectUris, pure, Except.pure, eq_comm]
  | cons uri rest ih =>
      simp only [verifiedRedirectUris_cons_eq_ok, ih, List.forall₂_cons_left_iff]

theorem verifyRedirectUris_eq_ok {request : Metadata} {verified : Json} :
    verifyRedirectUris lib request = .ok verified ↔
      ∃ uris entries, ListsUris request uris ∧ verified = .arr entries ∧
        List.Forall₂ (fun uri entry => ∃ s p custom, ParsesTo uri s p ∧
          EntryFor lib s custom entry ∧
          redirectUriCustom (isNative request) (isWeb request && !onlyCode request) p =
            .ok custom) uris entries := by
  unfold verifyRedirectUris
  simp only [except_bind_eq_ok, item_eq_ok, ← verifiedRedirectUris_eq_ok]
  constructor
  · rintro ⟨claim, hclaim, h⟩
    cases huris : claim.iter? with
    | none => simp [huris] at h
    | some uris =>
        simp only [huris] at h
        obtain ⟨entries, hentries, h⟩ := except_bind_eq_ok.mp h
        obtain rfl := except_pure_eq_ok.mp h
        exact ⟨uris, entries, ⟨claim, hclaim, huris⟩, rfl, hentries⟩
  · rintro ⟨uris, entries, ⟨claim, hclaim, huris⟩, rfl, hentries⟩
    refine ⟨claim, hclaim, ?_⟩
    simp only [huris]
    exact except_bind_eq_ok.mpr ⟨entries, hentries, rfl⟩

/-! ## Native clients and fragments -/

/-- What the chain lets through of a native client: any custom scheme, and http on the machine
    of the user if `split_uri` takes the URI. -/
def LetThrough (uri : Json) : Prop :=
  ∃ s p, ParsesTo uri s p ∧
    (CustomScheme p ∨ LocalHttp p ∧ ∃ split, lib.splitUri s = .ok split)

/-- A native client's redirect URIs are all let through, and one of them has a fragment. -/
def FragmentLetThrough (request : Metadata) : Prop :=
  isNative request = true ∧ ∃ uris, ListsUris request uris ∧ (∀ uri ∈ uris, LetThrough lib uri) ∧
    ∃ uri ∈ uris, ∃ s p, ParsesTo uri s p ∧ p.fragment ≠ ""

/-- A URI of a client that is not native is safe where it passes the test. -/
theorem SafeUri.of_other {request : Metadata} {p : ParseResult} {custom : Bool}
    (hnative : isNative request = false)
    (h : redirectUriCustom false (isWeb request && !onlyCode request) p = .ok custom) :
    SafeUri request p := by
  obtain ⟨-, hscheme, hhttps, hfragment⟩ := redirectUriCustom_other_eq_ok.mp h
  refine ⟨hfragment, fun hweb => ?_, fun h => absurd (h.symm.trans hnative) (by simp)⟩
  by_cases hcode : onlyCode request = true
  · rw [CustomScheme, not_not] at hscheme
    simp only [List.mem_cons, List.not_mem_nil, or_false] at hscheme
    rcases hscheme with hhttp | hs
    · exact Or.inr ⟨hhttp, hcode⟩
    · exact Or.inl hs
  · exact Or.inl (hhttps (by simp [hweb, hcode]))

/-- One type cannot be both. -/
theorem isWeb_of_isNative {request : Metadata} (h : isNative request = true) :
    isWeb request = false := by
  rw [← Bool.not_eq_true]
  intro hweb
  have hsame : (Json.str "native").norm = (Json.str "web").norm :=
    (Json.eqv_iff.mp h).symm.trans (Json.eqv_iff.mp hweb)
  exact absurd hsame (by simp [Json.norm])

/-- A native client's URI that passes the test is safe if it has no fragment. -/
theorem SafeUri.of_native {request : Metadata} {p : ParseResult} {mustHttps custom : Bool}
    (hnative : isNative request = true) (h : redirectUriCustom true mustHttps p = .ok custom)
    (hfragment : p.fragment = "") : SafeUri request p := by
  refine ⟨hfragment, fun hweb => ?_, fun _ => ?_⟩
  · exact absurd hweb (by rw [isWeb_of_isNative hnative]; simp)
  · rcases redirectUriCustom_native_eq_ok.mp h with ⟨hcustom, -⟩ | ⟨hlocal, -⟩
    · exact Or.inl hcustom
    · exact Or.inr hlocal

/-- `LetThrough` says when there is an entry for a native client's URI. -/
theorem letThrough_iff {uri : Json} {mustHttps : Bool} :
    LetThrough lib uri ↔ ∃ entry s p custom, ParsesTo uri s p ∧ EntryFor lib s custom entry ∧
      redirectUriCustom true mustHttps p = .ok custom := by
  simp only [redirectUriCustom_native_eq_ok]
  constructor
  · rintro ⟨s, p, hparse, hcustom | ⟨hlocal, ⟨base, query⟩, hsplit⟩⟩
    · exact ⟨_, s, p, true, hparse, .custom, Or.inl ⟨hcustom, rfl⟩⟩
    · exact ⟨_, s, p, false, hparse, .split hsplit, Or.inr ⟨hlocal, rfl⟩⟩
  · rintro ⟨entry, s, p, custom, hparse, hentry, ⟨hcustom, -⟩ | ⟨hlocal, rfl⟩⟩
    · exact ⟨s, p, hparse, Or.inl hcustom⟩
    · cases hentry with
      | split hsplit => exact ⟨s, p, hparse, Or.inr ⟨hlocal, _, hsplit⟩⟩

/-- Related entries can be found for a list where they can be for each of its elements. -/
theorem exists_forall₂_iff {α β : Type} {R : α → β → Prop} {xs : List α} :
    (∃ ys, List.Forall₂ R xs ys) ↔ ∀ x ∈ xs, ∃ y, R x y := by
  induction xs with
  | nil => simp
  | cons x xs ih =>
      rw [List.forall_mem_cons, ← ih]
      constructor
      · rintro ⟨ys, h⟩
        obtain ⟨y, ys, hy, hys, -⟩ := List.forall₂_cons_left_iff.mp h
        exact ⟨⟨y, hy⟩, ⟨ys, hys⟩⟩
      · rintro ⟨⟨y, hy⟩, ⟨ys, hys⟩⟩
        exact ⟨y :: ys, .cons hy hys⟩

theorem ListsUris.unique {request : Metadata} {uris uris' : List Json} (h : ListsUris request uris)
    (h' : ListsUris request uris') : uris = uris' := by
  obtain ⟨claim, hclaim, huris⟩ := h
  obtain ⟨claim', hclaim', huris'⟩ := h'
  obtain rfl : claim = claim' := Option.some.inj (hclaim.symm.trans hclaim')
  exact Option.some.inj (huris.symm.trans huris')

theorem ParsesTo.unique {uri : Json} {s s' : String} {p p' : ParseResult} (h : ParsesTo uri s p)
    (h' : ParsesTo uri s' p') : p = p' := by
  obtain ⟨rfl, hp⟩ := h
  obtain ⟨hs, hp'⟩ := h'
  obtain rfl : s = s' := Json.str.inj hs
  exact Except.ok.inj (hp.symm.trans hp')

theorem SafeUris.no_fragment {request : Metadata} {verified : Json}
    (h : SafeUris lib request verified) {uris : List Json} (hlists : ListsUris request uris)
    {uri : Json} (huri : uri ∈ uris) {s : String} {p : ParseResult} (hparse : ParsesTo uri s p) :
    p.fragment = "" := by
  obtain ⟨uris', entries, hlists', -, hall⟩ := h
  obtain rfl := hlists.unique hlists'
  obtain ⟨-, s', p', -, hparse', -, hp'⟩ := exists_forall₂_iff.mp ⟨entries, hall⟩ uri huri
  obtain rfl := hparse.unique hparse'
  exact hp'.no_fragment

/-- The redirect URIs that `verify_redirect_uris` returns entries for are safe, one entry for
    each in order, exactly unless those of a native client are all let through with a fragment
    in one of them. -/
theorem redirect_uris_safe_iff (request : Metadata) :
    (∀ verified, verifyRedirectUris lib request = .ok verified → SafeUris lib request verified) ↔
      ¬ FragmentLetThrough lib request := by
  constructor
  · rintro hsafe ⟨hnative, uris, hlists, hthrough, uri, huri, s, p, hparse, hfragment⟩
    obtain ⟨entries, hentries⟩ :=
      exists_forall₂_iff.mpr fun uri h => (letThrough_iff lib).mp (hthrough uri h)
    have hok : verifyRedirectUris lib request = .ok (.arr entries) :=
      (verifyRedirectUris_eq_ok lib).mpr ⟨uris, entries, hlists, rfl, by rwa [hnative]⟩
    exact hfragment ((hsafe _ hok).no_fragment lib hlists huri hparse)
  · intro hno verified hok
    obtain ⟨uris, entries, hlists, rfl, hentries⟩ := (verifyRedirectUris_eq_ok lib).mp hok
    refine ⟨uris, entries, hlists, rfl, ?_⟩
    cases hnative : isNative request with
    | false =>
        rw [hnative] at hentries
        exact hentries.imp fun uri entry ⟨s, p, custom, hparse, hentry, htest⟩ =>
          ⟨s, p, custom, hparse, hentry, .of_other hnative htest⟩
    | true =>
        rw [hnative] at hentries
        have hthrough : ∀ uri ∈ uris, LetThrough lib uri := fun uri huri =>
          (letThrough_iff lib).mpr (exists_forall₂_iff.mp ⟨_, hentries⟩ uri huri)
        have hfragment : ∀ uri ∈ uris, ∀ s p, ParsesTo uri s p → p.fragment = "" := by
          intro uri huri s p hparse
          by_contra hne
          exact hno ⟨hnative, uris, hlists, hthrough, uri, huri, s, p, hparse, hne⟩
        refine ((List.forall₂_and_left uris entries).mpr ⟨hfragment, hentries⟩).imp ?_
        rintro uri entry ⟨hnofragment, s, p, custom, hparse, hentry, htest⟩
        exact ⟨s, p, custom, hparse, hentry, .of_native hnative htest (hnofragment s p hparse)⟩

/-- A request of a native client with a fragment behind its custom scheme. -/
def nativeFragmentRequest : Metadata :=
  Dict.ofList [("application_type", .str "native"),
    ("redirect_uris", .arr [.str "com.example.app:/cb#fragment"])]

/-- The fragment is let through. -/
theorem native_fragment_accepted :
    ¬ ∀ (lib : RegistrationLib) (request : Metadata) (verified : Json),
      verifyRedirectUris lib request = .ok verified → SafeUris lib request verified := by
  intro hall
  have hok : verifyRedirectUris plainLib nativeFragmentRequest =
      .ok (.arr [.arr [.str "com.example.app:/cb#fragment", .obj []]]) := by decide +kernel
  have hlists : ListsUris nativeFragmentRequest [.str "com.example.app:/cb#fragment"] :=
    ⟨_, rfl, rfl⟩
  have hparse : ParsesTo (.str "com.example.app:/cb#fragment") "com.example.app:/cb#fragment"
      ⟨"com.example.app", "", "/cb", "", "fragment"⟩ := ⟨rfl, by rfl⟩
  have hnone := (hall _ _ _ hok).no_fragment plainLib hlists (by simp) hparse
  exact absurd hnone (by simp)

end Fedservice.AppServer
