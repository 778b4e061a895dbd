import MiniOpenFX.Js.Codec
import MiniOpenFX.Web.QuotesPage

/-!
# The API client of the web application

`request`, from the response of `fetch` on: what is in its text, or the error that is thrown.

Source: `apps/web/src/api/client.ts`.
-/

namespace MiniOpenFX

open Js

/-- What `fetch` ends with; the text of a response can be read. -/
inductive Fetched where
  | failed
  | response (status : Nat) (text : String)

namespace Client

/-- `response.ok`. -/
def isOk (status : Nat) : Bool := 200 ≤ status ∧ status ≤ 299

/-- A property of `envelope?.error`. -/
def envelopeText? (name : String) (json : Option Json) : Option String := do
  (← (← json).field? "error").text? name

/-- `request`; `syntaxError` is the message of the engine where a text is no JSON. -/
def request (syntaxError : String → String) : Fetched → Except ClientError (Option Json)
  | .failed =>
    .error (.apiError 0 "NETWORK_ERROR" "Could not reach the API. Is it running?")
  | .response status text => do
    let json ←
      if text = "" then pure none
      else match Json.parse? text with
        | none => throw (.error (syntaxError text))
        | some json => pure (some json)
    if isOk status then return json
    else throw (.apiError status ((envelopeText? "code" json).getD "UNKNOWN_ERROR")
      ((envelopeText? "message" json).getD s!"Request failed with status {status}"))

/-- `json as T`. -/
def cast? (α : Type) [JsonCodec α] (json : Option Json) : Option α :=
  json.bind JsonCodec.ofJson?

end Client

end MiniOpenFX
