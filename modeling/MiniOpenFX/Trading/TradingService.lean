import MiniOpenFX.Ledger.LedgerService
import MiniOpenFX.Quoting.QuotingService

/-!
# The trading service

A trade executes a quote: the client's two balances, their two ledger entries, the trade and the
quote's status change in one transaction. The idempotency key is looked up first, outside the
transaction, so that a retry gets the trade it already made.

Source: `trading.service.ts` and `trade.mapper.ts` in `apps/api/src/trading`.
-/

namespace MiniOpenFX

open Js Transactional

variable [DecimalJs]

/-- A trade as a client sees it. -/
structure TradeResponse where
  id : Uuid
  quoteId : Uuid
  symbol : String
  side : TradeSide
  baseCurrency : String
  quoteCurrency : String
  baseAmount : String
  quoteAmount : String
  price : String
  status : TradeStatusValue
  createdAt : String
  deriving DecidableEq

/-- `toTradeResponse` of `trade.mapper.ts`; the idempotency key and the client stay inside. -/
def toTradeResponse (row : TradeRow Date) : TradeResponse where
  id := row.id
  quoteId := row.quoteId
  symbol := row.symbol
  side := row.side
  baseCurrency := row.baseCurrency
  quoteCurrency := row.quoteCurrency
  baseAmount := formatMinorUnits row.baseAmountMinor
  quoteAmount := formatMinorUnits row.quoteAmountMinor
  price := row.price
  status := row.status
  createdAt := row.createdAt.toISOString

/-- The body of `POST /v1/trades`: the id of the quote, in any spelling that `IsUUID` accepts. -/
structure CreateTradeDto where
  quoteId : String
  deriving DecidableEq

/-- What an execution ends with; the controller answers a replay with 200 and a new trade with 201.
-/
structure TradeResult where
  trade : TradeResponse
  /-- the trade existed before this call -/
  replayed : Bool
  deriving DecidableEq

namespace TradingService

/-- The index that stops a second trade under a client's key. -/
def IDEMPOTENCY_KEY_UNIQUE_CONSTRAINT : String := "trades_client_idempotency_key_unique"

/-- The index that stops a second trade of a quote. -/
def QUOTE_ID_UNIQUE_CONSTRAINT : String := "trades_quote_id_unique"

/-- Whether the error says that the index was violated. It looks at the error itself: drizzle keeps
code and constraint in the cause, so there they are not found. -/
def isUniqueViolation (error : JsError) (constraintName : String) : Bool :=
  error.code? = some "23505" && error.constraint? = some constraintName

/-- The stored trade's quote id, as Postgres prints it, against the id of the request as
spelled. -/
def replayOrConflict (existing : TradeRow Date) (requestedQuoteId : String) :
    Except JsError TradeResult :=
  if existing.quoteId.text ≠ requestedQuoteId then
    .error (.conflictException "Idempotency-Key was already used to execute a different quote")
  else .ok ⟨toTradeResponse existing, true⟩

/-- The client's trade under the key, read outside the transaction. -/
def findByIdempotencyKey (clientId : Uuid) (idempotencyKey : String) :
    App (Option (TradeRow Date)) :=
  App.query (.selectTradeByKey clientId idempotencyKey)

end TradingService

/-! ## The legs of a trade

A client that buys owes quote currency and receives base currency, one that sells the other way
round. -/

namespace QuoteRow

variable {τ : Type} (quote : QuoteRow τ)

/-- What the client pays in. -/
def debitCurrency : String :=
  match quote.side with | .BUY => quote.quoteCurrency | .SELL => quote.baseCurrency

/-- What it pays. -/
def debitAmount : Int :=
  match quote.side with | .BUY => quote.quoteAmountMinor | .SELL => quote.baseAmountMinor

/-- What it receives. -/
def creditCurrency : String :=
  match quote.side with | .BUY => quote.baseCurrency | .SELL => quote.quoteCurrency

/-- How much of it. -/
def creditAmount : Int :=
  match quote.side with | .BUY => quote.baseAmountMinor | .SELL => quote.quoteAmountMinor

/-- The values of the trade that executes the quote. -/
def tradeValues (clientId tradeId : Uuid) (idempotencyKey : String) : TradeValues where
  id := tradeId
  clientId
  quoteId := quote.id
  symbol := quote.symbol
  side := quote.side
  baseCurrency := quote.baseCurrency
  quoteCurrency := quote.quoteCurrency
  baseAmountMinor := quote.baseAmountMinor
  quoteAmountMinor := quote.quoteAmountMinor
  price := quote.price
  status := .FILLED
  idempotencyKey

end QuoteRow

namespace TradingService

/-- The body of the transaction. The row of the quote is locked first, so of two executions of one
quote the second sees it `EXECUTED`; only then are the balances locked, moved, and the trade and
the new status written. -/
def executeWithinTransaction (clientId : Uuid) (quoteId idempotencyKey : String) :
    App (TradeRow Date) := do
  let quoteRow : Option (QuoteRow Date) ← App.query (.selectQuoteForUpdate quoteId)
  let quote ← App.ofExcept
    (assertOwnedByClient QuoteRow.clientId quoteRow clientId s!"Quote \"{quoteId}\" not found")
  if quote.status = .EXECUTED then
    Prog.fail (.conflictException s!"Quote \"{quoteId}\" has already been executed")
  else if (← App.dateNow) ≥ quote.expiresAt.ms then
    Prog.fail (.goneException s!"Quote \"{quoteId}\" has expired")
  else
    let lock ← LedgerService.lockBalanceRows clientId [quote.debitCurrency, quote.creditCurrency]
    let tradeId ← App.uuidv4
    LedgerService.debit lock
      { clientId, currency := quote.debitCurrency, amountMinor := quote.debitAmount
        reason := .TRADE, refType := "TRADE", refId := tradeId }
    LedgerService.credit lock
      { clientId, currency := quote.creditCurrency, amountMinor := quote.creditAmount
        reason := .TRADE, refType := "TRADE", refId := tradeId }
    let trade : TradeRow Date ← App.query
      (.insertTrade (quote.tradeValues clientId tradeId idempotencyKey))
    App.query (.setQuoteExecuted quote.id)
    return trade

/-- Execute a quote, or replay the trade that the key has made. The key is looked up before the
transaction, and once more where the transaction failed on the key's index; the cached quote is
deleted after the commit. -/
def executeTrade (clientId : Uuid) (dto : CreateTradeDto) (rawIdempotencyKey : String) :
    App TradeResult := do
  let idempotencyKey := trim rawIdempotencyKey
  match ← findByIdempotencyKey clientId idempotencyKey with
  | some existing => App.ofExcept (replayOrConflict existing dto.quoteId)
  | none =>
    let row ← (Prog.transaction
      (executeWithinTransaction clientId dto.quoteId idempotencyKey)).attempt
    match row with
    | .ok row =>
      QuotingService.invalidateCache dto.quoteId
      return ⟨toTradeResponse row, false⟩
    | .error error =>
      -- lost a race with a concurrent request using the same key
      let raced ← if isUniqueViolation error IDEMPOTENCY_KEY_UNIQUE_CONSTRAINT then
          findByIdempotencyKey clientId idempotencyKey
        else pure none
      match raced with
      | some raced => App.ofExcept (replayOrConflict raced dto.quoteId)
      | none =>
        if isUniqueViolation error QUOTE_ID_UNIQUE_CONSTRAINT then
          Prog.fail (.conflictException s!"Quote \"{dto.quoteId}\" has already been executed")
        else Prog.fail error

end TradingService

end MiniOpenFX
