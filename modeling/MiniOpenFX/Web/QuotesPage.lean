import MiniOpenFX.Trading.TradingService

/-!
# The quote screen

`QuotesPage` of the web client: the state of the component, and its handlers up to the request they
await and from there on. A screen with the requests it has out (`Screen`) moves by clicks, by ticks
of the clock and by responses, which arrive in any order (`Screen.step`).

Source: `apps/web/src/pages/QuotesPage.tsx`.
-/

namespace MiniOpenFX

open Js

/-- What a request of the web client may throw. -/
inductive ClientError where
  | apiError (status : Nat) (code message : String)
  | error (message : String)
  deriving DecidableEq

/-- What `api.createTrade` sends. -/
structure CreateTradeRequest where
  quoteId : Uuid
  idempotencyKey : String
  deriving DecidableEq

/-- The state of the component. -/
structure QuotesPage where
  buyCurrency : String := "BTC"
  sellCurrency : String := "USDT"
  buyAmount : String := "0.01"
  sellAmount : String := ""
  activeSide : TradeSide := .BUY
  quote : Option QuoteResponse := none
  status : QuoteDisplayStatus := .ACTIVE
  /-- `none` where the time of the quote cannot be read -/
  remainingMs : Option Int := some 0
  trade : Option TradeResponse := none
  idempotencyKeyRef : Option String := none
  creating : Bool := false
  executing : Bool := false
  createError : Option ClientError := none
  executeError : Option ClientError := none
  deriving DecidableEq

/-- How long the quote on the screen is still valid, on the browser's clock. -/
def msRemaining (expiresAt : String) (now : Int) : Option Int :=
  (Date.ofIso? expiresAt).map fun d => d.ms - now

namespace QuotesPage

variable (p : QuotesPage)

/-- Both currencies are the same, so no quote can be asked for. -/
def sameCurrency : Bool := p.buyCurrency = p.sellCurrency

/-- What the user typed, into whichever field. -/
def activeAmount : String :=
  trim (match p.activeSide with | .BUY => p.buyAmount | .SELL => p.sellAmount)

/-- Let go of the quote and of all that came of it. -/
def reset : QuotesPage :=
  { p with
    quote := none, trade := none, createError := none, executeError := none,
    idempotencyKeyRef := none }

/-- The button between the two cards: the pair is turned round, the amounts are cleared. -/
def swap : QuotesPage :=
  reset { p with
    buyCurrency := p.sellCurrency, sellCurrency := p.buyCurrency, buyAmount := "",
    sellAmount := "", activeSide := .BUY }

/-- The effect that watches the time of the quote. -/
def tick (now : Int) : QuotesPage :=
  match p.quote with
  | none => p
  | some quote =>
    if p.status ≠ .ACTIVE then p
    else
      let ms := msRemaining quote.expiresAt now
      { p with remainingMs := ms, status := if ∃ n ∈ ms, n ≤ 0 then .EXPIRED else p.status }

/-- `createQuote`, up to its request. -/
def createQuote : QuotesPage × CreateQuoteDto :=
  ({ p with creating := true, createError := none, executeError := none, trade := none },
    match p.activeSide with
    | .BUY => ⟨p.buyCurrency, p.sellCurrency, .BUY, trim p.buyAmount⟩
    | .SELL => ⟨p.sellCurrency, p.buyCurrency, .SELL, trim p.sellAmount⟩)

/-- `createQuote`, from the response to its request on; `key` is the new random key. -/
def createQuoteThen (request : CreateQuoteDto) (key : String) :
    Except ClientError QuoteResponse → QuotesPage
  | .ok result =>
    let p := { p with
      quote := some result
      status := if result.status = QuoteDisplayStatus.EXECUTED then .EXECUTED else .ACTIVE
      idempotencyKeyRef := some key
      creating := false }
    match request.side with
    | .BUY => { p with sellAmount := result.quoteAmount }
    | .SELL => { p with buyAmount := result.quoteAmount }
  | .error err => { p with createError := some err, creating := false }

/-- `executeTrade`, up to its request; it makes none without a quote or a key. -/
def executeTrade : QuotesPage × Option CreateTradeRequest :=
  match p.quote, p.idempotencyKeyRef with
  | some quote, some key =>
    ({ p with executing := true, executeError := none }, some ⟨quote.id, key⟩)
  | _, _ => (p, none)

/-- `executeTrade`, from the response to its request on. -/
def executeTradeThen : Except ClientError TradeResponse → QuotesPage
  | .ok result => { p with trade := some result, status := .EXECUTED, executing := false }
  | .error err =>
    let status := match err with
      | .apiError 410 _ _ => .EXPIRED
      | .apiError 409 _ _ => .EXECUTED
      | _ => p.status
    { p with status := status, executeError := some err, executing := false }

/-- The button "Get quote" can be clicked. -/
def canGetQuote : Bool := !(p.creating || p.sameCurrency || p.activeAmount = "")

/-- The button "Execute trade" can be clicked. -/
def canExecute : Bool := p.quote.isSome && p.status = .ACTIVE && !p.executing

/-- The button "New quote" can be clicked. -/
def canReset : Bool := p.quote.isSome

end QuotesPage

/-- The screen, the requests it has out, and the quotes whose trade has been answered: with the
trade, or with 409. -/
structure Screen where
  page : QuotesPage := {}
  creating : List CreateQuoteDto := []
  executing : List CreateTradeRequest := []
  answered : List Uuid := []
  deriving DecidableEq

/-- What happens to the screen. -/
inductive ScreenEvent where
  | selectBuyCurrency (currency : String)
  | selectSellCurrency (currency : String)
  | typeBuyAmount (text : String)
  | typeSellAmount (text : String)
  | swap
  | getQuote
  | execute
  | newQuote
  | tick (now : Int)
  | quoteArrives (request : CreateQuoteDto) (key : String)
      (outcome : Except ClientError QuoteResponse)
  | tradeArrives (request : CreateTradeRequest) (outcome : Except ClientError TradeResponse)

namespace Screen

/-- The response tells that the quote of the request is executed. -/
def settles : Except ClientError TradeResponse → Bool
  | .ok _ => true
  | .error (.apiError status _ _) => status = 409
  | .error (.error _) => false

/-- What an event makes of the screen; `none` where it cannot happen. -/
def step (s : Screen) : ScreenEvent → Option Screen
  | .selectBuyCurrency currency => some { s with page.buyCurrency := currency }
  | .selectSellCurrency currency => some { s with page.sellCurrency := currency }
  | .typeBuyAmount text => some { s with page.buyAmount := text, page.activeSide := .BUY }
  | .typeSellAmount text => some { s with page.sellAmount := text, page.activeSide := .SELL }
  | .swap => some { s with page := s.page.swap }
  | .getQuote =>
    if s.page.canGetQuote then
      let (page, request) := s.page.createQuote
      some { s with page := page, creating := request :: s.creating }
    else none
  | .execute =>
    if s.page.canExecute then
      let (page, request) := s.page.executeTrade
      some { s with page := page, executing := request.toList ++ s.executing }
    else none
  | .newQuote => if s.page.canReset then some { s with page := s.page.reset } else none
  | .tick now => some { s with page := s.page.tick now }
  | .quoteArrives request key outcome =>
    if request ∈ s.creating then
      some { s with
        page := s.page.createQuoteThen request key outcome
        creating := s.creating.erase request }
    else none
  | .tradeArrives request outcome =>
    if request ∈ s.executing then
      some { s with
        page := s.page.executeTradeThen outcome
        executing := s.executing.erase request
        answered := if settles outcome then request.quoteId :: s.answered else s.answered }
    else none

/-- A run of the screen from its first state: the states with what happened in them, oldest first,
and the state reached. -/
inductive Run : List (Screen × ScreenEvent) → Screen → Prop
  | start : Run [] {}
  | step {past : List (Screen × ScreenEvent)} {s s' : Screen} {e : ScreenEvent} :
    Run past s → s.step e = some s' → Run (past ++ [(s, e)]) s'

end Screen

end MiniOpenFX
