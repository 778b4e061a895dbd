import MiniOpenFX.Api.Controllers
import MiniOpenFX.Web.Client

/-!
# Replies on the wire

What the web client makes of a reply is what the API made of the outcome (`reply_understood`): an
answer is read back as it was, whatever characters are in it, and an exception as an `ApiError` with
its status, the code of the status and the message of the exceptions filter.
-/

namespace MiniOpenFX

open Js

/-- What the web client has of an outcome: the value that was answered, or an error with the
status, the code and the message of the envelope. -/
inductive Understood : Except Thrown ApiAnswer → Except ClientError (Option Json) → Prop
  | thrown (exception : Thrown) : Understood (.error exception)
      (.error (.apiError (AllExceptionsFilter.statusOf exception)
        (AllExceptionsFilter.codeForStatus (AllExceptionsFilter.statusOf exception))
        (AllExceptionsFilter.extractMessage exception (AllExceptionsFilter.statusOf exception))))
  | health {h : HealthResponse} {json : Option Json} (read : Client.cast? _ json = some h) :
      Understood (.ok (.health h)) (.ok json)
  | price {p : IndicativePrice} {json : Option Json} (read : Client.cast? _ json = some p) :
      Understood (.ok (.price p)) (.ok json)
  | quote {q : QuoteResponse} {json : Option Json} (read : Client.cast? _ json = some q) :
      Understood (.ok (.quote q)) (.ok json)
  | trade {result : TradeResult} {json : Option Json}
      (read : Client.cast? _ json = some result.trade) : Understood (.ok (.trade result)) (.ok json)
  | trades {page : TradeHistoryPage} {json : Option Json} (read : Client.cast? _ json = some page) :
      Understood (.ok (.trades page)) (.ok json)
  | balances {rows : List BalanceResponse} {json : Option Json}
      (read : Client.cast? _ json = some rows) : Understood (.ok (.balances rows)) (.ok json)

/-- An exception's status is not that of a success. -/
theorem isOk_statusOf (exception : Thrown) :
    Client.isOk (AllExceptionsFilter.statusOf exception) = false := by
  cases exception with
  | service e => cases e <;> rfl
  | _ => rfl

/-- What is written is not empty, and is read. -/
theorem parse?_text {α : Type} [JsonCodec α] (a : α) :
    JsonCodec.text a ≠ "" ∧ Json.parse? (JsonCodec.text a) = some (JsonCodec.toJson a) := by
  have hparse : Json.parse? (JsonCodec.text a) = some (JsonCodec.toJson a) :=
    Json.parse?_stringify _ (JsonCodec.valid a)
  refine ⟨fun hempty => ?_, hparse⟩
  rw [hempty] at hparse
  cases hparse

/-- A value under a status of success is read back as it was written. -/
theorem request_json {α : Type} [JsonCodec α] (syntaxError : String → String) {status : Nat}
    (hok : Client.isOk status = true) (a : α) :
    Client.request syntaxError (.response status (JsonCodec.text a)) =
        .ok (some (JsonCodec.toJson a)) ∧
      Client.cast? α (some (JsonCodec.toJson a)) = some a := by
  obtain ⟨hne, hparse⟩ := parse?_text a
  refine ⟨?_, JsonCodec.ofJson?_toJson a⟩
  rw [Client.request, if_neg hne, hparse]
  exact if_pos hok

/-- An envelope under another status is thrown, with its code and its message, and the status it
came under. -/
theorem request_envelope (syntaxError : String → String) {status : Nat}
    (hok : Client.isOk status = false) (e : ErrorEnvelope) :
    Client.request syntaxError (.response status (JsonCodec.text e)) =
      .error (.apiError status e.code e.message) := by
  obtain ⟨hne, hparse⟩ := parse?_text e
  rw [Client.request, if_neg hne, hparse]
  exact if_neg (Bool.eq_false_iff.mp hok)

/-- The statuses of answers are in the range that `fetch` calls ok. -/
theorem isOk_status (route : Route) (answer : ApiAnswer) :
    Client.isOk (route.status answer) = true := by
  unfold Route.status
  split
  · split <;> rfl
  all_goals rfl

/-- **The web client understands every reply**: an answer is read back as it was, and an exception
as the error with its status, the status' code and the message of the filter. -/
theorem reply_understood (syntaxError : String → String) (route : Route)
    (outcome : Except Thrown ApiAnswer) :
    Understood outcome (Client.request syntaxError
      (.response (route.reply outcome).status (route.reply outcome).text)) := by
  cases outcome with
  | error exception =>
    change Understood _ (Client.request syntaxError (.response
      (AllExceptionsFilter.statusOf exception)
      (JsonCodec.text (AllExceptionsFilter.envelope exception))))
    rw [request_envelope syntaxError (isOk_statusOf exception)]
    exact .thrown exception
  | ok answer =>
    have hok := isOk_status route answer
    cases answer with
    | health h =>
      obtain ⟨hrequest, hcast⟩ := request_json syntaxError hok h
      exact hrequest ▸ .health hcast
    | price p =>
      obtain ⟨hrequest, hcast⟩ := request_json syntaxError hok p
      exact hrequest ▸ .price hcast
    | quote q =>
      obtain ⟨hrequest, hcast⟩ := request_json syntaxError hok q
      exact hrequest ▸ .quote hcast
    | trade result =>
      obtain ⟨hrequest, hcast⟩ := request_json syntaxError hok result.trade
      exact hrequest ▸ .trade hcast
    | trades page =>
      obtain ⟨hrequest, hcast⟩ := request_json syntaxError hok page
      exact hrequest ▸ .trades hcast
    | balances rows =>
      obtain ⟨hrequest, hcast⟩ := request_json syntaxError hok rows
      exact hrequest ▸ .balances hcast

end MiniOpenFX
