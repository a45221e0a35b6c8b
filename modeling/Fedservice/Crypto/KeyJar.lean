/-
  Fedservice.Crypto.KeyJar

  The key jar and the signature check, which belong to the crypto library and
  not to this code base.  `KeyStore` is what the code uses of a key jar with
  what these operations are documented to do; everything that works on a key
  jar takes it as a parameter.  Signatures are ideal: a statement verifies
  exactly when it was signed with a key the key jar holds for its issuer.

  `AssocJar` is a key jar with these operations, for running the model.
-/

import Fedservice.Lib.ExState
import Fedservice.EntityStatement.Statement

namespace Fedservice.Crypto

open Fedservice.Lib Fedservice.Py Fedservice.EntityStatement

/-! ## The key jar -/

/-- A key jar.  `getIssuerKeys` is `none` where the library raises `KeyError`. -/
class KeyStore (Jar : Type) (Key : outParam Type) where
  /-- `issuer_id in keyjar` -/
  contains : Jar → EntityId → Bool
  /-- `keyjar.get_issuer_keys(issuer_id)` -/
  getIssuerKeys : Jar → EntityId → Option (List Key)
  /-- `keyjar.add_kb(issuer_id, KeyBundle(keys))` -/
  addKb : Jar → EntityId → List Key → Jar
  /-- An issuer with a key is in the key jar. -/
  contains_of_mem : ∀ {jar : Jar} {id : EntityId} {k : Key},
    k ∈ (getIssuerKeys jar id).getD [] → contains jar id = true
  /-- Adding keys adds these, for this issuer, and nothing else. -/
  mem_addKb : ∀ {jar : Jar} {id id' : EntityId} {ks : List Key} {k : Key},
    k ∈ (getIssuerKeys (addKb jar id ks) id').getD [] ↔
      k ∈ (getIssuerKeys jar id').getD [] ∨ (id' = id ∧ k ∈ ks)

variable {Jar Key : Type} [KeyStore Jar Key]

/-- The keys held for an issuer. -/
def keysOf (jar : Jar) (id : EntityId) : List Key := (KeyStore.getIssuerKeys jar id).getD []

theorem contains_of_mem_keysOf {jar : Jar} {id : EntityId} {k : Key} (h : k ∈ keysOf jar id) :
    KeyStore.contains jar id = true :=
  KeyStore.contains_of_mem h

theorem mem_keysOf_addKb {jar : Jar} {id id' : EntityId} {ks : List Key} {k : Key} :
    k ∈ keysOf (KeyStore.addKb jar id ks) id' ↔ k ∈ keysOf jar id' ∨ (id' = id ∧ k ∈ ks) :=
  KeyStore.mem_addKb

/-- A key jar that knows of no other issuers than it was told of. -/
class LawfulKeyStore (Jar : Type) {Key : Type} [KeyStore Jar Key] : Prop where
  contains_addKb : ∀ {jar : Jar} {id id' : EntityId} {ks : List Key},
    KeyStore.contains (KeyStore.addKb jar id ks) id' = true →
      KeyStore.contains jar id' = true ∨ id' = id

/-! ## Ideal signatures -/

variable [DecidableEq Key]

/-- `keyjar.get_jwt_verify_keys(jwt)`: the keys held for the issuer of the JWT. -/
def getJwtVerifyKeys (jar : Jar) (s : SignedStatement Key) : List Key :=
  keysOf jar s.payload.iss

/-- `jws.verify_compact(keys=keys)`: the payload, if one of the keys signed. -/
def verifyCompact (keys : List Key) (s : SignedStatement Key) : Except Exc (Statement Key) :=
  if s.signer ∈ keys then .ok s.payload else .error .badSignature

theorem verifyCompact_eq_ok {keys : List Key} {s : SignedStatement Key} {p : Statement Key} :
    verifyCompact keys s = .ok p ↔ s.signer ∈ keys ∧ p = s.payload := by
  unfold verifyCompact
  by_cases h : s.signer ∈ keys <;> simp [h, eq_comm]

/-! ## A key jar that can be run -/

/-- Key bundles by issuer, in the order they were added. -/
structure AssocJar (Key : Type) where
  bundles : List (EntityId × List Key) := []

namespace AssocJar

/-- The keys of all bundles added under an issuer. -/
def keys (jar : AssocJar Key) (id : EntityId) : List Key :=
  (jar.bundles.filter (fun b => b.1 == id)).flatMap (fun b => b.2)

omit [DecidableEq Key] in
theorem mem_keys {jar : AssocJar Key} {id : EntityId} {k : Key} :
    k ∈ jar.keys id ↔ ∃ b ∈ jar.bundles, b.1 = id ∧ k ∈ b.2 := by
  simp only [keys, List.mem_flatMap, List.mem_filter, beq_iff_eq, and_assoc]

instance : KeyStore (AssocJar Key) Key where
  contains jar id := jar.bundles.any (fun b => b.1 == id)
  getIssuerKeys jar id := some (jar.keys id)
  addKb jar id ks := ⟨jar.bundles ++ [(id, ks)]⟩
  contains_of_mem := by
    intro jar id k h
    obtain ⟨b, hb, hid, -⟩ := mem_keys.mp h
    exact List.any_eq_true.mpr ⟨b, hb, beq_iff_eq.mpr hid⟩
  mem_addKb := by
    intro jar id id' ks k
    simp only [Option.getD_some, mem_keys, List.mem_append, List.mem_singleton]
    constructor
    · rintro ⟨b, hb | rfl, hid, hk⟩
      · exact Or.inl ⟨b, hb, hid, hk⟩
      · exact Or.inr ⟨hid.symm, hk⟩
    · rintro (⟨b, hb, hid, hk⟩ | ⟨rfl, hk⟩)
      · exact ⟨b, Or.inl hb, hid, hk⟩
      · exact ⟨(id', ks), Or.inr rfl, rfl, hk⟩

instance : LawfulKeyStore (AssocJar Key) where
  contains_addKb := by
    intro jar id id' ks h
    obtain ⟨b, hb, hid⟩ := List.any_eq_true.mp h
    rcases List.mem_append.mp hb with hb | hb
    · exact Or.inl (List.any_eq_true.mpr ⟨b, hb, hid⟩)
    · obtain rfl := List.mem_singleton.mp hb
      exact Or.inr (beq_iff_eq.mp hid).symm

end AssocJar

end Fedservice.Crypto
