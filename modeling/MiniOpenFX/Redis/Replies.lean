import MiniOpenFX.Js.Coercion
import MiniOpenFX.Quoting.QuotingService

/-!
# Any reply of Redis

The cached readers on whatever text Redis replies with, not only what the services have stored. A
reply that fails, that is no JSON or that does not count as true is a miss (`RedisService.ofReply`);
any other value is decoded by the reader, outside `failSoft`. What the services store is read back
by `deserializeObject` as by `deserializeQuote` (`deserializeObject_toJson`), and with a miss a
reader does what `QuotingService` and `PricingService` do.

Source: `apps/api/src/redis/redis.service.ts`, and the readers of `pricing` and `quoting` over it.
-/

namespace MiniOpenFX

open Js Transactional

/-- The value `getJson` returns, given the reply to its command, if it counts as true: a failure,
no entry, an empty text and a text that is no JSON are all a miss. -/
def RedisService.ofReply (reply : Except JsError (Option String)) : Option Json :=
  match reply with
  | .error _ | .ok none => none
  | .ok (some raw) => if raw = "" then none else (Json.parse? raw).filter Json.truthy

/-! ## Quotes -/

/-- A side in JSON. -/
def TradeSide.toJson : TradeSide → Json
  | .BUY => .str "BUY"
  | .SELL => .str "SELL"

/-- A stored status in JSON. -/
def QuoteStatus.toJson : QuoteStatus → Json
  | .ACTIVE => .str "ACTIVE"
  | .EXECUTED => .str "EXECUTED"

/-- A shown status in JSON. -/
def QuoteDisplayStatus.toJson : QuoteDisplayStatus → Json
  | .ACTIVE => .str "ACTIVE"
  | .EXECUTED => .str "EXECUTED"
  | .EXPIRED => .str "EXPIRED"

/-- The value `JSON.stringify` writes, its properties in the order in which `serializeQuote` makes
them. -/
def CachedQuote.toJson (q : CachedQuote) : Json :=
  .obj [("id", .str q.id.text), ("clientId", .str q.clientId.text), ("symbol", .str q.symbol),
    ("side", q.side.toJson), ("baseCurrency", .str q.baseCurrency),
    ("quoteCurrency", .str q.quoteCurrency), ("baseAmountMinor", .str q.baseAmountMinor),
    ("price", .str q.price), ("quoteAmountMinor", .str q.quoteAmountMinor),
    ("status", q.status.toJson), ("expiresAt", .str q.expiresAt), ("createdAt", .str q.createdAt)]

/-- What `deserializeQuote` makes of a value: the properties it spreads, and those it replaces. A
date may be invalid. -/
structure QuoteObject where
  spread : Json
  baseAmountMinor : Int
  quoteAmountMinor : Int
  expiresAt : Option Date
  createdAt : Option Date

/-- A row that was read from Postgres. -/
def QuoteObject.ofRow (row : QuoteRow Date) : QuoteObject :=
  ⟨(serializeQuote row).toJson, row.baseAmountMinor, row.quoteAmountMinor, some row.expiresAt,
    some row.createdAt⟩

/-- A response; properties the object does not have are missing. -/
structure QuoteResponseObject where
  id : Option Json
  symbol : Option Json
  side : Option Json
  baseCurrency : Option Json
  quoteCurrency : Option Json
  baseAmount : String
  price : Option Json
  quoteAmount : String
  status : Option Json
  expiresAt : String
  createdAt : String

/-- The properties of the response to a read quote. Where the cached object lacks one, the response
has it `undefined` and `JSON.stringify` leaves it out. -/
def QuoteResponse.toObject (r : QuoteResponse) : QuoteResponseObject where
  id := some (.str r.id.text)
  symbol := some (.str r.symbol)
  side := some r.side.toJson
  baseCurrency := some (.str r.baseCurrency)
  quoteCurrency := some (.str r.quoteCurrency)
  baseAmount := r.baseAmount
  price := some (.str r.price)
  quoteAmount := r.quoteAmount
  status := some r.status.toJson
  expiresAt := r.expiresAt
  createdAt := r.createdAt

section
variable [JsEngine]

/-- The error of `BigInt(value)`. It shows a number as it stands in the text, `1.50` or `1e400`,
where JavaScript prints the number that it has read, `1.5` or `Infinity`. -/
def bigintError : Option Json → JsError
  | none => .error "Cannot convert undefined to a BigInt"
  | some .null => .error "Cannot convert null to a BigInt"
  | some (.num text) => .error
      s!"The number {text} cannot be converted to a BigInt because it is not an integer"
  | some (.str s) => .error s!"Cannot convert {s} to a BigInt"
  | some (.arr items) => match JsEngine.textOfArray items with
    | none => .error "Cannot convert object to primitive value"
    | some s => .error s!"Cannot convert {s} to a BigInt"
  | some v => if v.textless then .error "Cannot convert object to primitive value"
    else .error "Cannot convert [object Object] to a BigInt"

/-- `BigInt(value)`. -/
def bigintOf (v : Option Json) : Except JsError Int :=
  match bigintOfJson? v with
  | none => .error (bigintError v)
  | some n => .ok n

/-- `new Date(value)`; the date may be invalid. -/
def dateOf (v : Option Json) : Except JsError (Option Date) :=
  if v.any Json.textless then .error (.error "Cannot convert object to primitive value")
  else .ok (Date.ofJson? v)

/-- `deserializeQuote` of any value: the two amounts by `BigInt`, which may throw, the two dates by
`new Date`, which does not. The other properties are copied unseen. -/
def deserializeObject (cached : Json) : Except JsError QuoteObject := do
  let baseAmountMinor ← bigintOf (cached.field? "baseAmountMinor")
  let quoteAmountMinor ← bigintOf (cached.field? "quoteAmountMinor")
  let expiresAt ← dateOf (cached.field? "expiresAt")
  let createdAt ← dateOf (cached.field? "createdAt")
  return ⟨cached, baseAmountMinor, quoteAmountMinor, expiresAt, createdAt⟩

/-- What the services store is read back. -/
theorem deserializeObject_toJson (row : QuoteRow Date) :
    deserializeObject (serializeQuote row).toJson = .ok (.ofRow row) := by
  have hbase : (serializeQuote row).toJson.field? "baseAmountMinor" =
      some (.str (bigintText row.baseAmountMinor)) := rfl
  have hquote : (serializeQuote row).toJson.field? "quoteAmountMinor" =
      some (.str (bigintText row.quoteAmountMinor)) := rfl
  have hexpires : (serializeQuote row).toJson.field? "expiresAt" =
      some (.str row.expiresAt.toISOString) := rfl
  have hcreated : (serializeQuote row).toJson.field? "createdAt" =
      some (.str row.createdAt.toISOString) := rfl
  rw [deserializeObject, hbase, hquote, hexpires, hcreated]
  simp only [bigintOf, bigintOfJson?, bigintOfLiteral?_bigintText, dateOf, Option.any_some,
    Json.textless, Date.ofJson?, Date.ofText?_toISOString]
  rfl

end

/-- The object, if it is the client's. -/
def assertObjectOwnedByClient (row : Option QuoteObject) (clientId : Uuid) (message : String) :
    Except JsError QuoteObject :=
  match row with
  | none => .error (.notFoundException message)
  | some row =>
    if row.spread.text? "clientId" ≠ some clientId.text then .error (.notFoundException message)
    else .ok row

/-- `toISOString` of a date that may be invalid. -/
def isoTextOf : Option Date → Except JsError String
  | none => .error (.error "Invalid time value")
  | some d => .ok d.toISOString

/-- An object that a row has been read into is found to be the client's just if the row is. -/
theorem assertObjectOwnedByClient_ofRow (row : Option (QuoteRow Date)) (clientId : Uuid)
    (message : String) : assertObjectOwnedByClient (row.map .ofRow) clientId message =
      (assertOwnedByClient QuoteRow.clientId row clientId message).map .ofRow := by
  cases row with
  | none => rfl
  | some row =>
    have hfield : (QuoteObject.ofRow row).spread.text? "clientId" = some row.clientId.text := rfl
    simp only [Option.map_some, assertObjectOwnedByClient, assertOwnedByClient, hfield]
    by_cases h : row.clientId = clientId
    · simp [h]
      rfl
    · have : row.clientId.text ≠ clientId.text := fun he => h (Uuid.ext he)
      simp [h, this]
      rfl

section
variable [DecimalJs]

/-- The status of a response: no invalid date is in the past, so a quote with one is shown with the
status it has. -/
def objectStatus (now : Int) (row : QuoteObject) : Option Json :=
  match row.spread.field? "status" with
  | some (.str "ACTIVE") =>
    if row.expiresAt.any fun d => now ≥ d.ms then some (.str "EXPIRED") else some (.str "ACTIVE")
  | status => status

/-- `toQuoteResponse` of any object. -/
def toQuoteResponseObject (now : Int) (row : QuoteObject) : Except JsError QuoteResponseObject := do
  let baseAmount := formatMinorUnits row.baseAmountMinor
  let quoteAmount := formatMinorUnits row.quoteAmountMinor
  let status := objectStatus now row
  let expiresAt ← isoTextOf row.expiresAt
  let createdAt ← isoTextOf row.createdAt
  return {
    id := row.spread.field? "id"
    symbol := row.spread.field? "symbol"
    side := row.spread.field? "side"
    baseCurrency := row.spread.field? "baseCurrency"
    quoteCurrency := row.spread.field? "quoteCurrency"
    baseAmount
    price := row.spread.field? "price"
    quoteAmount, status, expiresAt, createdAt }

/-- Of a row from Postgres it is the response of `toQuoteResponse`: nothing is missing, and its
dates are valid. -/
theorem toQuoteResponseObject_ofRow (now : Int) (row : QuoteRow Date) :
    toQuoteResponseObject now (.ofRow row) = .ok (toQuoteResponse now row).toObject := by
  have hstatus : objectStatus now (.ofRow row) = some (displayStatus now row).toJson := by
    obtain ⟨id, c, symbol, side, base, quote, n, price, m, status, expiresAt, createdAt⟩ := row
    cases status with
    | EXECUTED => rfl
    | ACTIVE =>
      change (if decide (now ≥ expiresAt.ms) = true then _ else _) =
        some (QuoteDisplayStatus.toJson (if now ≥ expiresAt.ms then _ else _))
      by_cases h : now ≥ expiresAt.ms <;> simp [h, QuoteDisplayStatus.toJson]
  simp only [toQuoteResponseObject, hstatus]
  rfl

/-! ## The readers -/

namespace QuotingService

/-- `loadQuote` after a miss. -/
def loadUncached (id : String) : App (Option (QuoteRow Date)) := do
  let row : Option (QuoteRow Date) ← App.query (.selectQuote id)
  match row with
  | none => return none
  | some row =>
    let remainingMs := row.expiresAt.ms - (← App.dateNow)
    if remainingMs > 0 then
      RedisService.setJson (quoteCacheKey id) (.quote (serializeQuote row)) remainingMs
    return some row

omit [DecimalJs] in
/-- `loadQuote` reads the cache and goes on with a quote that it finds; with anything else it goes
on as after a miss. -/
theorem loadQuote_eq (id : String) : loadQuote id =
    (RedisService.getJson (quoteCacheKey id)).bind fun
      | some (.quote cached) =>
        (App.ofExcept (deserializeQuote cached)).bind fun row => .done (.ok (some row))
      | _ => loadUncached id := by
  refine congrArg (Prog.bind (RedisService.getJson (quoteCacheKey id)))
    (funext fun cached => ?_)
  rcases cached with _ | ⟨_⟩ | _ | _ <;> rfl

variable [JsEngine]

/-- `loadQuote`, given the reply to its first command. -/
def loadObject (reply : Except JsError (Option String)) (id : String) : App (Option QuoteObject) :=
  match RedisService.ofReply reply with
  | some cached => do return some (← App.ofExcept (deserializeObject cached))
  | none => do return (← loadUncached id).map .ofRow

/-- `getQuoteById`, given the reply to its first command. It is the service with the text in Redis
left open, and no other part changed. -/
def getObjectById (reply : Except JsError (Option String)) (clientId : Uuid) (id : String) :
    App QuoteResponseObject := do
  let row ← loadObject reply id
  let row ← App.ofExcept (assertObjectOwnedByClient row clientId s!"Quote \"{id}\" not found")
  App.ofExcept (toQuoteResponseObject (← App.dateNow) row)

end QuotingService

namespace PricingService

/-- `getPrice` after a miss. -/
def fetchPrice (symbol : String) : App IndicativePrice := do
  let price ← mapBinanceErrors do
    let ticker ← BinanceClient.getBookTicker symbol
    return ⟨symbol, ticker.bidPrice, ticker.askPrice, ← App.dateNow, "binance"⟩
  let ttlMs : Nat ← App.request .priceCacheTtlMs
  RedisService.setJson (priceCacheKey symbol) (.price price) ttlMs
  return price

omit [DecimalJs] in
/-- `getPrice` reads the cache and ends with a price that it finds; with anything else it asks
Binance. -/
theorem getPrice_eq (rawSymbol : String) : getPrice rawSymbol =
    (RedisService.getJson (priceCacheKey (upperCase (trim rawSymbol)))).bind fun
      | some (.price cached) => .done (.ok cached)
      | _ => fetchPrice (upperCase (trim rawSymbol)) := by
  refine congrArg (Prog.bind (RedisService.getJson (priceCacheKey (upperCase (trim rawSymbol)))))
    (funext fun cached => ?_)
  rcases cached with _ | _ | ⟨_⟩ | _ <;> rfl

/-- `getSymbolBreakdown` after a miss. -/
def fetchSymbolBreakdown (symbol : String) : App SymbolBreakdown := do
  let breakdown ← mapBinanceErrors do
    let info ← BinanceClient.getSymbolInfo symbol
    return ⟨info.baseAsset, info.quoteAsset⟩
  RedisService.setJson (symbolCacheKey symbol) (.breakdown breakdown) SYMBOL_BREAKDOWN_CACHE_TTL_MS
  return breakdown

omit [DecimalJs] in
/-- `getSymbolBreakdown` reads the cache and ends with a split that it finds; with anything else it
asks Binance. -/
theorem getSymbolBreakdown_eq (rawSymbol : String) : getSymbolBreakdown rawSymbol =
    (RedisService.getJson (symbolCacheKey (upperCase (trim rawSymbol)))).bind fun
      | some (.breakdown cached) => .done (.ok cached)
      | _ => fetchSymbolBreakdown (upperCase (trim rawSymbol)) := by
  refine congrArg (Prog.bind (RedisService.getJson (symbolCacheKey (upperCase (trim rawSymbol)))))
    (funext fun cached => ?_)
  rcases cached with _ | _ | _ | ⟨_⟩ <;> rfl

/-- `getPrice`, given the reply to its first command: any value that counts as true is returned. -/
def getPriceObject (reply : Except JsError (Option String)) (rawSymbol : String) :
    App (Json ⊕ IndicativePrice) :=
  match RedisService.ofReply reply with
  | some cached => return .inl cached
  | none => do return .inr (← fetchPrice (upperCase (trim rawSymbol)))

/-- `getSymbolBreakdown`, given the reply to its first command. -/
def getSymbolBreakdownObject (reply : Except JsError (Option String)) (rawSymbol : String) :
    App (Json ⊕ SymbolBreakdown) :=
  match RedisService.ofReply reply with
  | some cached => return .inl cached
  | none => do return .inr (← fetchSymbolBreakdown (upperCase (trim rawSymbol)))

end PricingService

end

end MiniOpenFX
