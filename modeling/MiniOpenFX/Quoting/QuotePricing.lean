import MiniOpenFX.Domain.Money
import MiniOpenFX.Db.Schema

/-!
# The amount of a quote

A client that buys pays the quote currency at the ask, one that sells receives it at the bid. What
a client owes is rounded up, what it receives is rounded down.

Source: `apps/api/src/quoting/quote-pricing.ts`.
-/

namespace MiniOpenFX

open DecimalJs

variable [DecimalJs]

/-- The price a quote is made at and what the client owes or receives, in minor units of the quote
currency. -/
structure QuoteAmount where
  price : String
  quoteAmountMinor : Int
  deriving DecidableEq

/-- What a base amount is worth: at the ask, rounded up, for a client that buys, at the bid,
rounded down, for one that sells. The product is a decimal of at most twenty digits before it is
rounded to minor units. -/
def computeQuoteAmount (side : TradeSide) (baseAmountMinor : Int) (ask bid : String) :
    Except JsError QuoteAmount := do
  let price := match side with | .BUY => ask | .SELL => bid
  let rawQuoteAmount := mul (fromMinorUnits baseAmountMinor) (← (DecimalValue.text price).new)
  let quoteAmountMinor ← roundToMinorUnits (.decimal rawQuoteAmount)
    (match side with | .BUY => .ROUND_UP | .SELL => .ROUND_DOWN)
  return ⟨price, quoteAmountMinor⟩

end MiniOpenFX
