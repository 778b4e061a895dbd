import MiniOpenFX.Pricing.Pricing
import MiniOpenFX.Quoting.QuotePricing

/-!
# The quoting service

A quote is priced once and stored; reads go through a cache in Redis, keyed by the id as the caller
spelled it.

Source: `apps/api/src/quoting/quoting.service.ts`.
-/

namespace MiniOpenFX

open Js Transactional

variable [DecimalJs]

/-- The body of `POST /v1/quotes`. -/
structure CreateQuoteDto where
  baseCurrency : String
  quoteCurrency : String
  side : TradeSide
  baseAmount : String
  deriving DecidableEq

/-- `CURRENCY_FORMAT_REGEX`: two to ten upper-case letters and digits. -/
def isCurrencyCode (s : String) : Bool :=
  2 ≤ s.length && s.length ≤ 10 && s.toList.all fun c => c.isUpper || c.isDigit

/-- What the validation of the request accepts. -/
def CreateQuoteDto.valid (dto : CreateQuoteDto) : Bool :=
  isCurrencyCode dto.baseCurrency && isCurrencyCode dto.quoteCurrency &&
    isPositiveDecimal dto.baseAmount

namespace QuotingService

/-- How long a quote can be executed. -/
def DEFAULT_QUOTE_TTL_SECONDS : Int := 15

/-- Price an amount and store the quote. Price and currencies are asked for at once; the row is
cached only after it is stored, for the lifetime of a quote, and a failing cache does not matter
(`RedisService.failSoft`). -/
def createQuote (clientId : Uuid) (dto : CreateQuoteDto) : App QuoteResponse := do
  let baseAmountMinor ← match toMinorUnits (.text dto.baseAmount) with
    | .ok n => pure n
    | .error _ =>
      Prog.fail (.badRequestException "baseAmount must not have more than 8 decimal places")
  if baseAmountMinor ≤ 0 then
    Prog.fail (.badRequestException "baseAmount must be greater than zero")
  else
    let symbol := dto.baseCurrency ++ dto.quoteCurrency
    let (breakdown, indicativePrice) ← App.promiseAll (PricingService.getSymbolBreakdown symbol)
      (PricingService.getPrice symbol)
    let ⟨price, quoteAmountMinor⟩ ← App.ofExcept
      (computeQuoteAmount dto.side baseAmountMinor indicativePrice.ask indicativePrice.bid)
    if quoteAmountMinor ≤ 0 then
      Prog.fail (.badRequestException
        "baseAmount is too small: it rounds down to a zero quote amount at the current price")
    else
      let now ← App.dateNow
      match Date.ofMillis? (now + DEFAULT_QUOTE_TTL_SECONDS * 1000) with
      | none => Prog.fail (.error "Invalid time value")
      | some expiresAt =>
        let id : Uuid ← App.request .genRandomUuid
        let row : QuoteRow Date ← App.query (.insertQuote
          { id, clientId, symbol, side := dto.side
            baseCurrency := breakdown.baseCurrency
            quoteCurrency := breakdown.quoteCurrency
            baseAmountMinor, price, quoteAmountMinor, status := .ACTIVE, expiresAt })
        RedisService.setJson (quoteCacheKey row.id.text) (.quote (serializeQuote row))
          (DEFAULT_QUOTE_TTL_SECONDS * 1000)
        return toQuoteResponse (← App.dateNow) row

/-- A quote from the cache or, where it is not there, from Postgres. What was read is put into the
cache for the time the quote has left, an executed quote too. -/
def loadQuote (id : String) : App (Option (QuoteRow Date)) := do
  match ← RedisService.getJson (quoteCacheKey id) with
  | some (.quote cached) => return some (← App.ofExcept (deserializeQuote cached))
  | _ =>
    let row : Option (QuoteRow Date) ← App.query (.selectQuote id)
    match row with
    | none => return none
    | some row =>
      let remainingMs := row.expiresAt.ms - (← App.dateNow)
      if remainingMs > 0 then
        RedisService.setJson (quoteCacheKey id) (.quote (serializeQuote row)) remainingMs
      return some row

/-- A client's quote. A quote of somebody else is not found, whether it came from the cache or not.
-/
def getQuoteById (clientId : Uuid) (id : String) : App QuoteResponse := do
  let row ← loadQuote id
  let row ← App.ofExcept
    (assertOwnedByClient QuoteRow.clientId row clientId s!"Quote \"{id}\" not found")
  return toQuoteResponse (← App.dateNow) row

/-- Take a quote out of the cache, under this spelling of its id. -/
def invalidateCache (id : String) : App Unit := RedisService.del (quoteCacheKey id)

end QuotingService

end MiniOpenFX
