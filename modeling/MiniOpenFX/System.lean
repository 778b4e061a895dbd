import MiniOpenFX.Trading.TradingService
import MiniOpenFX.Balances.BalancesService
import MiniOpenFX.Db.Seed

/-!
# The system

Every call the running system serves, and the program that serves it. Any number of calls run at
once, as `Transactional.State` over `backend` describes.
-/

namespace MiniOpenFX

open Js Transactional

variable [DecimalJs]

/-- A call that reaches a service, with the client the guard has found; `seed` is the script. -/
inductive Call where
  | seed
  | getBalances (clientId : Uuid)
  | createDeposit (clientId : Uuid) (dto : CreateDepositDto)
  | getPrice (symbol : String)
  | createQuote (clientId : Uuid) (dto : CreateQuoteDto)
  | getQuoteById (clientId : Uuid) (id : String)
  | executeTrade (clientId : Uuid) (dto : CreateTradeDto) (rawIdempotencyKey : String)
  deriving DecidableEq

/-- What a call returns. -/
inductive Response where
  | seeded (client : Option ClientRow)
  | balances (rows : List BalanceResponse)
  | price (price : IndicativePrice)
  | quote (quote : QuoteResponse)
  | trade (result : TradeResult)
  deriving DecidableEq

/-- The program that serves a call. -/
def program : Call → App Response
  | .seed => do return .seeded (← Seed.main)
  | .getBalances clientId => do return .balances (← BalancesService.getBalances clientId)
  | .createDeposit clientId dto => do
    return .balances (← BalancesService.createDeposit clientId dto)
  | .getPrice symbol => do return .price (← PricingService.getPrice symbol)
  | .createQuote clientId dto => do return .quote (← QuotingService.createQuote clientId dto)
  | .getQuoteById clientId id => do return .quote (← QuotingService.getQuoteById clientId id)
  | .executeTrade clientId dto key => do
    return .trade (← TradingService.executeTrade clientId dto key)

/-- A state of the running system. -/
abbrev Sys : Type := State backend Call Response

end MiniOpenFX
