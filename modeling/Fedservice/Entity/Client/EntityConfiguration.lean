/-
  Fedservice.Entity.Client.EntityConfiguration

  Where an entity publishes its configuration (entity/client/entity_configuration.py).
  The host decides: the path of an entity identifier is only looked at for the
  location of a tenant.
-/

import Fedservice.Py.Url
import Fedservice.EntityStatement.Statement

namespace Fedservice.Entity.Client

open Fedservice.Py Fedservice.EntityStatement

/-- `construct_well_known_url`. -/
def constructWellKnownUrl (entityId : EntityId) (typ : String) : Except Exc String := do
  let p ← urlparse entityId
  return s!"{p.scheme}://{p.netloc}/.well-known/{typ}"

/-- `construct_tenant_well_known_url`. -/
def constructTenantWellKnownUrl (entityId : EntityId) (typ : String) : Except Exc String := do
  let p ← urlparse entityId
  return s!"{p.scheme}://{p.netloc}{p.path}/.well-known/{typ}"

/-- `EntityConfiguration.get_request_parameters`: the URL of the request.
    `rootIssuer` is the issuer that the topmost unit has, if it has one; it is
    asked where no entity is named. -/
def getRequestParameters (rootIssuer : Option EntityId) (entityId : EntityId) (tenant : Bool) :
    Except Exc String := do
  let issuer ←
    if entityId ≠ "" then pure entityId
    else match rootIssuer with
      | some issuer => pure issuer
      | none => throw (.attributeError "Missing issuer id")
  if tenant then constructTenantWellKnownUrl issuer "openid-federation"
  else constructWellKnownUrl issuer "openid-federation"

example : getRequestParameters none "https://foo.example.org:8080/t1;v=2?q" true =
    .ok "https://foo.example.org:8080/t1/.well-known/openid-federation" := by decide

end Fedservice.Entity.Client
