import MiniOpenFX.Common.CursorPagination
import MiniOpenFX.Trading.TradingService

/-!
# The trades service

A client's trades, newest first, page by page. The history is read by one statement that writes
nothing; the place where the next page starts goes to the client as a cursor.

Source: `apps/api/src/trades/trades.service.ts`.
-/

namespace MiniOpenFX

open Js Transactional

variable [DecimalJs] [JsEngine]

/-- The query's parameters once validated; `limit` is 20 if none is given, and from 1 to 100. -/
structure GetTradesQueryDto where
  limit : Nat
  cursor : Option String

/-- A page of a history; without a cursor it is the last one. -/
structure TradeHistoryPage where
  trades : List TradeResponse
  nextCursor : Option String
  deriving DecidableEq

namespace TradesService

/-- The query's cursor; an empty text counts as none. -/
def cursorOf : Option String → Except JsError (Option Cursor)
  | none => .ok none
  | some raw => if raw = "" then .ok none else (decodeCursor raw).map some

/-- The page in the rows that were read, one more than it may have: the extra row tells whether
there is a next page. -/
def pageOf (limit : Nat) (rows : List (TradeRow Date)) : TradeHistoryPage :=
  let hasMore : Bool := rows.length > limit
  let page := if hasMore then rows.take limit else rows
  let nextCursor := if hasMore then
    page.getLast?.map fun last => encodeCursor ⟨last.createdAt, last.id.text⟩ else none
  ⟨page.map toTradeResponse, nextCursor⟩

/-- A page of the client's trades, by one statement. It asks for one row more than the page may
have (`pageOf`). -/
def getTradeHistory (clientId : Uuid) (query : GetTradesQueryDto) : App TradeHistoryPage := do
  let cursor : Option Cursor ← App.ofExcept (cursorOf query.cursor)
  let rows : List (TradeRow Date) ← App.query (.selectTrades clientId
    (cursor.map fun cursor => (cursor.createdAt, cursor.id)) (query.limit + 1))
  return pageOf query.limit rows

/-- With a cursor that can be read, a history is one statement. -/
theorem getTradeHistory_of_cursor {clientId : Uuid} {query : GetTradesQueryDto}
    {cursor : Option Cursor} (h : cursorOf query.cursor = .ok cursor) :
    getTradeHistory clientId query =
      (App.query (.selectTrades clientId (cursor.map fun cursor => (cursor.createdAt, cursor.id))
        (query.limit + 1))).bind fun rows => .done (.ok (pageOf query.limit rows)) := by
  unfold getTradeHistory
  rw [h]
  rfl

/-- A history that is asked for with a bad cursor is refused before anything is read. -/
theorem getTradeHistory_of_error {clientId : Uuid} {query : GetTradesQueryDto} {e : JsError}
    (h : cursorOf query.cursor = .error e) : getTradeHistory clientId query = .done (.error e) := by
  unfold getTradeHistory
  rw [h]
  rfl

end TradesService

end MiniOpenFX
