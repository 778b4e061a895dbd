import MiniOpenFX.Api.Responses
import MiniOpenFX.Common.ApiKeyAuthGuard

/-!
# The controllers

From a request to the call that serves it, and from the outcome of the call to the reply. A query or
body comes as the `ValidationPipe` leaves it: read, or refused with messages.

Source: `apps/api/src/main.ts` and the `*.controller.ts` beside each service, with their DTOs.
-/

namespace MiniOpenFX

open Js Transactional

/-- The two currencies of `GET /v1/prices`; the controller joins them to a symbol. -/
structure GetPriceDto where
  baseCurrency : String
  quoteCurrency : String
  deriving DecidableEq

/-- A query or body, or the messages of the `ValidationPipe`. -/
abbrev Validated (α : Type) := Except (List String) α

/-- What is requested. -/
inductive Route where
  | health
  | getPrice (query : Validated GetPriceDto)
  | createQuote (body : Validated CreateQuoteDto)
  | getQuote (id : String)
  | createTrade (body : Validated CreateTradeDto) (idempotencyKey : Option String)
  | getTradeHistory (query : Validated GetTradesQueryDto)
  | getBalances
  | createDeposit (body : Validated CreateDepositDto)

/-- What serves a request. -/
inductive Work where
  | health
  | call (c : Call)
  | history (clientId : Uuid) (query : GetTradesQueryDto)

/-- What a controller returns. -/
inductive ApiAnswer where
  | health (h : HealthResponse)
  | price (price : IndicativePrice)
  | quote (quote : QuoteResponse)
  | trade (result : TradeResult)
  | trades (page : TradeHistoryPage)
  | balances (rows : List BalanceResponse)

/-- What a call answers a request with; the seed script answers none. -/
def Response.answer? : Response → Option ApiAnswer
  | .seeded _ => none
  | .balances rows => some (.balances rows)
  | .price p => some (.price p)
  | .quote q => some (.quote q)
  | .trade result => some (.trade result)

/-- `HealthController.check`, with what the two probes end with. -/
def HealthController.check (selectOne : Except JsError Unit) (ping : Except JsError String) :
    Except Thrown ApiAnswer :=
  let postgres := selectOne matches .ok _
  let redis := match ping with
    | .ok pong => pong = "PONG"
    | .error _ => false
  if !postgres || !redis then
    .error (.serviceUnavailableException
      s!"Dependency check failed (postgres: {postgres}, redis: {redis})")
  else .ok (.health ⟨"ok", postgres, redis⟩)

namespace Route

/-- `@Public()`. -/
def isPublic : Route → Bool
  | .health => true
  | _ => false

/-- The DTO once validated. What the `ValidationPipe` refuses is thrown before the controller runs,
so no call is made for it. -/
def validated {α : Type} (dto : Validated α) : Except Thrown α := dto.mapError Thrown.validation

/-- The controllers, up to the call of a service. -/
def handle (clientId : Uuid) : Route → Except Thrown Work
  | .health => .ok .health
  | .getPrice query => do
    let query ← validated query
    return .call (.getPrice s!"{query.baseCurrency}{query.quoteCurrency}")
  | .createQuote body => do return .call (.createQuote clientId (← validated body))
  -- `ParseUUIDPipe`
  | .getQuote id =>
    if isUuidText id then .ok (.call (.getQuoteById clientId id))
    else .error (.badRequestException "Validation failed (uuid is expected)")
  | .createTrade body idempotencyKey => do
    let dto ← validated body
    match idempotencyKey with
    | none => .error (.badRequestException "Idempotency-Key header is required")
    | some key =>
      if trim key = "" then .error (.badRequestException "Idempotency-Key header is required")
      else return .call (.executeTrade clientId dto key)
  | .getTradeHistory query => do return .history clientId (← validated query)
  | .getBalances => .ok (.call (.getBalances clientId))
  | .createDeposit body => do return .call (.createDeposit clientId (← validated body))

/-- A `@Post()` answers 201, a `@Get()` 200; `createTrade` chooses itself. -/
def status : Route → ApiAnswer → Nat
  | .createTrade .., .trade result => if result.replayed then 200 else 201
  | .createQuote _, _ | .createTrade .., _ | .createDeposit _, _ => 201
  | _, _ => 200

/-- The reply to a request. -/
def reply (route : Route) : Except Thrown ApiAnswer → HttpReply
  | .error exception => AllExceptionsFilter.reply exception
  | .ok answer =>
    let status := route.status answer
    match answer with
    | .health h => .json status h
    | .price p => .json status p
    | .quote q => .json status q
    | .trade result => .json status result.trade
    | .trades page => .json status page
    | .balances rows => .json status rows

end Route

/-- A request as it comes in. -/
structure ApiRequest where
  authorization : Option String
  route : Route

/-- The guard, and the controllers; the rows are those of the clients when the guard reads them. -/
def ApiRequest.handle (k : Keys) (allClients : List ClientRow) (r : ApiRequest) :
    Except Thrown Work :=
  if r.route.isPublic then .ok .health
  else do r.route.handle (← ApiKeyAuthGuard.canActivate k allClients r.authorization)

end MiniOpenFX
