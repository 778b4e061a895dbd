import MiniOpenFX.Js.Text

/-!
# Errors of the services

What a service can throw. A failing query reaches the services as drizzle's `DrizzleQueryError`,
which keeps the error of Postgres in its `cause` and has neither `code` nor `constraint` of its
own.
-/

namespace MiniOpenFX

open Js

/-- An error reported by Postgres: its SQLSTATE and, for a constraint, which one. -/
structure PgError where
  code : String
  constraint : Option String
  deriving DecidableEq

/-- What a service can throw. -/
inductive JsError where
  | badRequestException (message : String)
  | notFoundException (message : String)
  | conflictException (message : String)
  | goneException (message : String)
  | unprocessableEntityException (message : String)
  | badGatewayException (message : String)
  | gatewayTimeoutException (message : String)
  | binanceUnknownSymbolError (message : String)
  | binanceUnavailableError (message : String)
  | binanceTimeoutError (message : String)
  | drizzleQueryError (cause : PgError)
  | error (message : String)
  /-- the connection to Postgres, Redis or the process itself is lost -/
  | connectionError
  deriving DecidableEq

namespace JsError

/-- The `code` property of a thrown error. -/
def code? : JsError → Option String
  | _ => none

/-- The `constraint` property of a thrown error. -/
def constraint? : JsError → Option String
  | _ => none

end JsError

/-- The row if it exists and belongs to the client; a missing and a foreign row look the same. -/
def assertOwnedByClient {T : Type} (clientIdOf : T → Uuid) (row : Option T) (clientId : Uuid)
    (message : String) : Except JsError T :=
  match row with
  | none => .error (.notFoundException message)
  | some row =>
    if clientIdOf row ≠ clientId then .error (.notFoundException message) else .ok row

/-- The row, if it is the client's. -/
theorem assertOwnedByClient_ok {T : Type} {clientIdOf : T → Uuid} {row : Option T}
    {clientId : Uuid} {message : String} {r : T}
    (h : assertOwnedByClient clientIdOf row clientId message = .ok r) :
    row = some r ∧ clientIdOf r = clientId := by
  unfold assertOwnedByClient at h
  split at h
  · cases h
  · split at h
    · cases h
    · next hne => cases h; exact ⟨rfl, not_ne_iff.mp hne⟩

end MiniOpenFX
