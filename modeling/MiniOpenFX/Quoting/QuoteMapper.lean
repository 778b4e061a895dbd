import MiniOpenFX.Domain.Money
import MiniOpenFX.Db.Schema

/-!
# Quotes in the cache and in responses

`serializeQuote` is the form in which a quote goes to Redis, with amounts and times as texts, and
`deserializeQuote` reads it back (`deserializeQuote_serializeQuote`). `toQuoteResponse` is what a
client sees; a quote that is ACTIVE past its time is shown as EXPIRED, a status that is never
stored.

Source: `apps/api/src/quoting/quote.mapper.ts`.
-/

namespace MiniOpenFX

open Js

/-- Where a quote is cached: under its id as the caller spells it. -/
def quoteCacheKey (id : String) : String := s!"quote:{id}"

/-- A quote in Redis. -/
structure CachedQuote where
  id : Uuid
  clientId : Uuid
  symbol : String
  side : TradeSide
  baseCurrency : String
  quoteCurrency : String
  baseAmountMinor : String
  price : String
  quoteAmountMinor : String
  status : QuoteStatus
  expiresAt : String
  createdAt : String
  deriving DecidableEq

/-- The status a client sees. `EXPIRED` is never stored. -/
inductive QuoteDisplayStatus where
  | ACTIVE
  | EXECUTED
  | EXPIRED
  deriving DecidableEq

/-- A quote as a client sees it, with amounts and times as texts. -/
structure QuoteResponse where
  id : Uuid
  symbol : String
  side : TradeSide
  baseCurrency : String
  quoteCurrency : String
  baseAmount : String
  price : String
  quoteAmount : String
  status : QuoteDisplayStatus
  expiresAt : String
  createdAt : String
  deriving DecidableEq

/-- The quote as it is cached: JSON has no `bigint` and no date. -/
def serializeQuote (row : QuoteRow Date) : CachedQuote :=
  { row with
    baseAmountMinor := bigintText row.baseAmountMinor
    quoteAmountMinor := bigintText row.quoteAmountMinor
    expiresAt := row.expiresAt.toISOString
    createdAt := row.createdAt.toISOString }

/-- `new Date(text)`; a text that is no date makes an invalid date, which throws where it is
used. -/
def newDate (text : String) : Except JsError Date :=
  match Date.ofIso? text with
  | none => .error (.error "Invalid time value")
  | some d => .ok d

/-- The quote that was cached, with its amounts read by `BigInt`, which throws on a text that is no
integer. -/
def deserializeQuote (cached : CachedQuote) : Except JsError (QuoteRow Date) :=
  match bigintOfText? cached.baseAmountMinor, bigintOfText? cached.quoteAmountMinor with
  | some baseAmountMinor, some quoteAmountMinor => do
    let expiresAt ← newDate cached.expiresAt
    let createdAt ← newDate cached.createdAt
    return { cached with baseAmountMinor, quoteAmountMinor, expiresAt, createdAt }
  | none, _ => .error (.error s!"Cannot convert {cached.baseAmountMinor} to a BigInt")
  | some _, none => .error (.error s!"Cannot convert {cached.quoteAmountMinor} to a BigInt")

/-- A quote comes back from the cache as it went in. -/
@[simp] theorem deserializeQuote_serializeQuote (row : QuoteRow Date) :
    deserializeQuote (serializeQuote row) = .ok row := by
  simp only [deserializeQuote, serializeQuote, bigintOfText?_bigintText, newDate,
    Date.ofIso?_toISOString]
  rfl

/-- The status a client is shown when the clock reads `now`. -/
def displayStatus (now : Int) (row : QuoteRow Date) : QuoteDisplayStatus :=
  match row.status with
  | .EXECUTED => .EXECUTED
  | .ACTIVE => if now ≥ row.expiresAt.ms then .EXPIRED else .ACTIVE

/-- A quote is shown as expired just if it is active and past its time. -/
@[simp] theorem displayStatus_eq_expired {now : Int} {row : QuoteRow Date} :
    displayStatus now row = .EXPIRED ↔ row.status = .ACTIVE ∧ row.expiresAt.ms ≤ now := by
  unfold displayStatus
  cases row.status with
  | EXECUTED => simp
  | ACTIVE => simp

/-- A quote is shown as executed just if it is so, at any time. -/
@[simp] theorem displayStatus_eq_executed {now : Int} {row : QuoteRow Date} :
    displayStatus now row = .EXECUTED ↔ row.status = .EXECUTED := by
  unfold displayStatus
  cases row.status with
  | EXECUTED => simp
  | ACTIVE => simp [ite_eq_iff]

/-- A quote is shown as active just if it is so and not past its time. -/
@[simp] theorem displayStatus_eq_active {now : Int} {row : QuoteRow Date} :
    displayStatus now row = .ACTIVE ↔ row.status = .ACTIVE ∧ now < row.expiresAt.ms := by
  unfold displayStatus
  cases row.status with
  | EXECUTED => simp
  | ACTIVE => simp

variable [DecimalJs]

/-- The response when the clock reads `now`. -/
def toQuoteResponse (now : Int) (row : QuoteRow Date) : QuoteResponse where
  id := row.id
  symbol := row.symbol
  side := row.side
  baseCurrency := row.baseCurrency
  quoteCurrency := row.quoteCurrency
  baseAmount := formatMinorUnits row.baseAmountMinor
  price := row.price
  quoteAmount := formatMinorUnits row.quoteAmountMinor
  status := displayStatus now row
  expiresAt := row.expiresAt.toISOString
  createdAt := row.createdAt.toISOString

end MiniOpenFX
