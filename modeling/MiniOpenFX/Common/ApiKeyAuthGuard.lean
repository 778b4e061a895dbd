import MiniOpenFX.Common.AllExceptionsFilter
import MiniOpenFX.Db.Schema

/-!
# The guard

Every route but the public ones asks for the API key of a client. Only the hashes of the keys are
stored; `Keys` holds them, and what `bcrypt.compare` says of a key and a hash.

Source: `apps/api/src/common/guards/api-key-auth.guard.ts`.
-/

namespace MiniOpenFX

open Js

/-- The `apiKeyHash` of the clients, and `bcrypt.compare`. -/
structure Keys where
  apiKeyHash : Uuid → String
  compare : String → String → Bool

namespace ApiKeyAuthGuard

variable (k : Keys)

/-- The key in an `Authorization` header. -/
def apiKey? (authorization : Option String) : Option String :=
  match authorization with
  | none => none
  | some header =>
    if "Bearer ".toList.isPrefixOf header.toList then
      some (trim (String.ofList (header.toList.drop "Bearer ".length)))
    else none

/-- `canActivate`: the client whose key the request has, among the rows that were read. -/
def canActivate (allClients : List ClientRow) (authorization : Option String) :
    Except Thrown Uuid :=
  match apiKey? authorization with
  | none => .error (.unauthorizedException "Missing or malformed Authorization header")
  | some apiKey =>
    match allClients.find? fun client => k.compare apiKey (k.apiKeyHash client.id) with
    | some client => .ok client.id
    | none => .error (.unauthorizedException "Invalid API key")

/-- The request has the key of the client. -/
def HasKey (authorization : Option String) (clientId : Uuid) : Prop :=
  ∃ apiKey, apiKey? authorization = some apiKey ∧ k.compare apiKey (k.apiKeyHash clientId) = true

/-- Nobody gets in without the client's key. -/
theorem canActivate_ok {allClients : List ClientRow} {authorization : Option String}
    {clientId : Uuid} (h : canActivate k allClients authorization = .ok clientId) :
    HasKey k authorization clientId ∧ ∃ client ∈ allClients, client.id = clientId := by
  unfold canActivate at h
  split at h
  · cases h
  · next apiKey hkey =>
    split at h
    · next client hfind =>
      cases h
      have hcompare : k.compare apiKey (k.apiKeyHash client.id) = true := by
        simpa using List.find?_some hfind
      exact ⟨⟨apiKey, hkey, hcompare⟩, client, List.mem_of_find?_eq_some hfind, rfl⟩
    · cases h

end ApiKeyAuthGuard

end MiniOpenFX
