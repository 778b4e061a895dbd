import MiniOpenFX.Web.QuotesPage
import MiniOpenFX.Trades.TradesService

/-!
# The trade history screen

`TradeHistoryPage` of the web client: the state of the component, the effect that loads the first
page when the component is mounted, and `load`, which the two buttons call, up to the request it
awaits and from there on.

Source: `apps/web/src/pages/TradeHistoryPage.tsx`.
-/

namespace MiniOpenFX

/-- Which code awaits the response to `api.getTrades`. -/
inductive HistoryOrigin where
  /-- the effect; `ignore` once it has been cleaned up -/
  | mount (ignore : Bool)
  | load (reset : Bool)
  deriving DecidableEq

/-- A request of the screen. -/
structure HistoryRequest where
  origin : HistoryOrigin
  limit : Nat
  cursor : Option String
  deriving DecidableEq

/-- The state of the component. -/
structure HistoryPage where
  trades : List TradeResponse := []
  cursor : Option String := none
  hasLoaded : Bool := false
  loading : Bool := true
  error : Option ClientError := none
  deriving DecidableEq

namespace HistoryPage

variable (p : HistoryPage)

/-- `load`, up to its request. -/
def load (reset : Bool) : HistoryPage × HistoryRequest :=
  ({ p with loading := true, error := none },
    ⟨.load reset, 20, if reset then none else p.cursor⟩)

/-- `load`, from the response to its request on. -/
def loadThen (reset : Bool) : Except ClientError TradeHistoryPage → HistoryPage
  | .ok page =>
    { p with
      trades := if reset then page.trades else p.trades ++ page.trades
      cursor := page.nextCursor
      loading := false
      hasLoaded := true }
  | .error err => { p with error := some err, loading := false, hasLoaded := true }

/-- The effect, from the response to its request on. -/
def mountThen (ignore : Bool) : Except ClientError TradeHistoryPage → HistoryPage
  | .ok page =>
    if ignore then p
    else { p with
      trades := page.trades, cursor := page.nextCursor, loading := false, hasLoaded := true }
  | .error err =>
    if ignore then p else { p with error := some err, loading := false, hasLoaded := true }

/-- What a response makes of the component. -/
def receive (r : HistoryRequest) (outcome : Except ClientError TradeHistoryPage) : HistoryPage :=
  match r.origin with
  | .mount ignore => p.mountThen ignore outcome
  | .load reset => p.loadThen reset outcome

/-- The button "Refresh" can be clicked. -/
def canRefresh : Bool := !p.loading

/-- The button "Load more" is there and can be clicked. -/
def canLoadMore : Bool := p.cursor.any (· ≠ "") && !p.loading

/-- The requests of a component that is mounted. In strict mode an effect is run, cleaned up and run
again. -/
def mount (strict : Bool) : List HistoryRequest :=
  (if strict then [⟨.mount true, 20, none⟩] else []) ++ [⟨.mount false, 20, none⟩]

end HistoryPage

end MiniOpenFX
