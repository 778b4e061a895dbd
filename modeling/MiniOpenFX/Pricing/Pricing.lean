import MiniOpenFX.Runtime

/-!
# Prices

The Binance client and the pricing service over it. Binance decides which symbols exist and how a
symbol splits into its two currencies; its answers are cached, and its failures become HTTP
exceptions.

Source: `binance.client.ts` and `pricing.service.ts` in `apps/api/src/pricing`.
-/

namespace MiniOpenFX

open Js Transactional

/-- `toUpperCase` of ASCII letters. -/
def upperCase (s : String) : String := String.ofList (s.toList.map Char.toUpper)

/-! ## Binance -/

namespace BinanceClient

/-- The best bid and ask of a symbol, as Binance prints them. -/
structure BookTicker where
  symbol : String
  bidPrice : String
  askPrice : String

/-- How Binance splits a symbol; the longer names of its currencies come from here and not from the
letters of the request. -/
structure SymbolInfo where
  symbol : String
  baseAsset : String
  quoteAsset : String

/-- The body, if `isBookTicker` accepts it. -/
def bookTicker? (body : Json) : Option BookTicker := do
  return ⟨← body.text? "symbol", ← body.text? "bidPrice", ← body.text? "askPrice"⟩

/-- A symbol of the body, if it has its three texts. -/
def symbolInfo? (s : Json) : Option SymbolInfo := do
  return ⟨← s.text? "symbol", ← s.text? "baseAsset", ← s.text? "quoteAsset"⟩

/-- The symbols of the body, if `isExchangeInfoResponse` accepts it. -/
def exchangeInfo? (body : Json) : Option (List SymbolInfo) := do
  (← (← body.field? "symbols").items?).mapM symbolInfo?

/-- Ask Binance, and tell the ways it fails apart: a symbol it refuses, a request that is aborted
after the time limit, and everything else. -/
def request {T : Type} (endpoint symbol : String) (validShape? : Json → Option T) : App T := do
  match ← (App.request (.fetch endpoint symbol)).attempt with
  | .ok (.response status body) =>
    if status = 400 then
      Prog.fail (.binanceUnknownSymbolError s!"Binance rejected symbol \"{symbol}\"")
    else if ¬ (200 ≤ status ∧ status ≤ 299) then
      Prog.fail (.binanceUnavailableError s!"Binance responded with status {status}")
    else match body with
      -- `response.json()` rejects
      | none => Prog.fail (.binanceUnavailableError "Failed to reach Binance")
      | some body => match validShape? body with
        | none => Prog.fail (.binanceUnavailableError
            s!"Binance returned an unexpected response shape for \"{symbol}\"")
        | some body => return body
  | .ok .aborted =>
    Prog.fail (.binanceTimeoutError s!"Binance request for \"{symbol}\" timed out after 5000ms")
  | .ok .failed | .error _ => Prog.fail (.binanceUnavailableError "Failed to reach Binance")

/-- The prices of a symbol. -/
def getBookTicker (symbol : String) : App BookTicker :=
  request "ticker/bookTicker" symbol bookTicker?

/-- The currencies of a symbol: the first one Binance lists for it. -/
def getSymbolInfo (symbol : String) : App SymbolInfo := do
  match ← request "exchangeInfo" symbol exchangeInfo? with
  | [] => Prog.fail (.binanceUnknownSymbolError s!"Binance rejected symbol \"{symbol}\"")
  | info :: _ => return info

end BinanceClient

/-! ## The service -/

namespace PricingService

/-- Where a price is cached. -/
def priceCacheKey (symbol : String) : String := s!"price:{symbol}"

/-- Where the currencies of a symbol are cached. -/
def symbolCacheKey (symbol : String) : String := s!"symbol:{symbol}"

/-- A day: the currencies of a symbol do not change. -/
def SYMBOL_BREAKDOWN_CACHE_TTL_MS : Int := 24 * 60 * 60 * 1000

/-- Binance's failures as exceptions of Nest, 400, 504 and 502; any other error goes on as it is.
-/
def mapBinanceErrors {T : Type} (fn : App T) : App T := do
  match ← fn.attempt with
  | .ok a => return a
  | .error (.binanceUnknownSymbolError message) => Prog.fail (.badRequestException message)
  | .error (.binanceTimeoutError message) => Prog.fail (.gatewayTimeoutException message)
  | .error (.binanceUnavailableError message) => Prog.fail (.badGatewayException message)
  | .error e => Prog.fail e

/-- The price of a symbol, from the cache while it is there. The time in it is that of the answer
of Binance, and a cached price keeps it. -/
def getPrice (rawSymbol : String) : App IndicativePrice := do
  let symbol := upperCase (trim rawSymbol)
  match ← RedisService.getJson (priceCacheKey symbol) with
  | some (.price cached) => return cached
  | _ =>
    let price ← mapBinanceErrors do
      let ticker ← BinanceClient.getBookTicker symbol
      return ⟨symbol, ticker.bidPrice, ticker.askPrice, ← App.dateNow, "binance"⟩
    let ttlMs : Nat ← App.request .priceCacheTtlMs
    RedisService.setJson (priceCacheKey symbol) (.price price) ttlMs
    return price

/-- The currencies of a symbol, from the cache while they are there. -/
def getSymbolBreakdown (rawSymbol : String) : App SymbolBreakdown := do
  let symbol := upperCase (trim rawSymbol)
  match ← RedisService.getJson (symbolCacheKey symbol) with
  | some (.breakdown cached) => return cached
  | _ =>
    let breakdown ← mapBinanceErrors do
      let info ← BinanceClient.getSymbolInfo symbol
      return ⟨info.baseAsset, info.quoteAsset⟩
    RedisService.setJson (symbolCacheKey symbol) (.breakdown breakdown)
      SYMBOL_BREAKDOWN_CACHE_TTL_MS
    return breakdown

end PricingService

end MiniOpenFX
