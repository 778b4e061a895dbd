import MiniOpenFX.Js.Codec
import MiniOpenFX.Redis.Replies
import MiniOpenFX.System
import MiniOpenFX.Trades.TradesService

/-!
# Responses as JSON

What the API answers with, as the JSON values that `JSON.stringify` writes: the properties in the
order in which the source makes them. Each type comes back as it was (`JsonCodec.ofText?_text`).
-/

namespace MiniOpenFX

open Js JsonCodec

/-- A side is the text of its name; any other text is no side. -/
instance : JsonCodec TradeSide where
  toJson := TradeSide.toJson
  ofJson? v := v.str?.bind fun s =>
    if s = "BUY" then some .BUY else if s = "SELL" then some .SELL else none
  valid side := by cases side <;> trivial
  ofJson?_toJson side := by cases side <;> rfl

/-- A shown status is the text of its name. The three are apart, so the reader tells an expired
quote from an active one. -/
instance : JsonCodec QuoteDisplayStatus where
  toJson := QuoteDisplayStatus.toJson
  ofJson? v := v.str?.bind fun s =>
    if s = "ACTIVE" then some .ACTIVE else if s = "EXECUTED" then some .EXECUTED
    else if s = "EXPIRED" then some .EXPIRED else none
  valid status := by cases status <;> trivial
  ofJson?_toJson status := by cases status <;> rfl

/-- The status of a trade is the text of its name. -/
instance : JsonCodec TradeStatusValue where
  toJson
    | .FILLED => .str "FILLED"
    | .REJECTED => .str "REJECTED"
  ofJson? v := v.str?.bind fun s =>
    if s = "FILLED" then some .FILLED else if s = "REJECTED" then some .REJECTED else none
  valid status := by cases status <;> trivial
  ofJson?_toJson status := by cases status <;> rfl

/-- A balance, as `toBalanceResponse` makes the object: the currency first. -/
instance : JsonCodec BalanceResponse where
  toJson b := .obj [("currency", toJson b.currency), ("available", toJson b.available)]
  ofJson? v := do return ⟨← v.read? String "currency", ← v.read? String "available"⟩
  valid _ := by simp [Json.Valid, validFields_iff]
  ofJson?_toJson b := by simp [Json.read?, Json.field?]

/-- A price. Its time is the only number in a response, and a whole one, so it is read back
exactly; bid and ask stay the texts that Binance sent. -/
instance : JsonCodec IndicativePrice where
  toJson p := .obj [("symbol", toJson p.symbol), ("bid", toJson p.bid), ("ask", toJson p.ask),
    ("timestamp", toJson p.timestamp), ("source", toJson p.source)]
  ofJson? v := do
    return ⟨← v.read? String "symbol", ← v.read? String "bid", ← v.read? String "ask",
      ← v.read? Int "timestamp", ← v.read? String "source"⟩
  valid _ := by simp [Json.Valid, validFields_iff]
  ofJson?_toJson p := by simp [Json.read?, Json.field?]

/-- A quote, as `toQuoteResponse` makes the object. Amounts and times are texts; the reader of the
id takes only the text of a uuid, which is what the server writes. -/
instance : JsonCodec QuoteResponse where
  toJson q := .obj [("id", toJson q.id), ("symbol", toJson q.symbol), ("side", toJson q.side),
    ("baseCurrency", toJson q.baseCurrency), ("quoteCurrency", toJson q.quoteCurrency),
    ("baseAmount", toJson q.baseAmount), ("price", toJson q.price),
    ("quoteAmount", toJson q.quoteAmount), ("status", toJson q.status),
    ("expiresAt", toJson q.expiresAt), ("createdAt", toJson q.createdAt)]
  ofJson? v := do
    return ⟨← v.read? Uuid "id", ← v.read? String "symbol", ← v.read? TradeSide "side",
      ← v.read? String "baseCurrency", ← v.read? String "quoteCurrency",
      ← v.read? String "baseAmount", ← v.read? String "price", ← v.read? String "quoteAmount",
      ← v.read? QuoteDisplayStatus "status", ← v.read? String "expiresAt",
      ← v.read? String "createdAt"⟩
  valid _ := by simp [Json.Valid, validFields_iff]
  ofJson?_toJson q := by simp [Json.read?, Json.field?]

/-- A trade, as `toTradeResponse` makes the object. -/
instance : JsonCodec TradeResponse where
  toJson t := .obj [("id", toJson t.id), ("quoteId", toJson t.quoteId),
    ("symbol", toJson t.symbol), ("side", toJson t.side),
    ("baseCurrency", toJson t.baseCurrency), ("quoteCurrency", toJson t.quoteCurrency),
    ("baseAmount", toJson t.baseAmount), ("quoteAmount", toJson t.quoteAmount),
    ("price", toJson t.price), ("status", toJson t.status), ("createdAt", toJson t.createdAt)]
  ofJson? v := do
    return ⟨← v.read? Uuid "id", ← v.read? Uuid "quoteId", ← v.read? String "symbol",
      ← v.read? TradeSide "side", ← v.read? String "baseCurrency",
      ← v.read? String "quoteCurrency", ← v.read? String "baseAmount",
      ← v.read? String "quoteAmount", ← v.read? String "price",
      ← v.read? TradeStatusValue "status", ← v.read? String "createdAt"⟩
  valid _ := by simp [Json.Valid, validFields_iff]
  ofJson?_toJson t := by simp [Json.read?, Json.field?]

/-- A page of a history: the array of its trades, and a cursor or `null`. -/
instance : JsonCodec TradeHistoryPage where
  toJson p := .obj [("trades", toJson p.trades), ("nextCursor", toJson p.nextCursor)]
  ofJson? v := do
    return ⟨← v.read? (List TradeResponse) "trades", ← v.read? (Option String) "nextCursor"⟩
  valid _ := by simp [Json.Valid, validFields_iff]
  ofJson?_toJson p := by simp [Json.read?, Json.field?]

/-- What `GET /v1/health` answers with while both dependencies respond. `HealthController.check`
makes none with a `false` in it: it throws when a probe fails. -/
structure HealthResponse where
  status : String
  postgres : Bool
  redis : Bool
  deriving DecidableEq

/-- What the health route answers with. -/
instance : JsonCodec HealthResponse where
  toJson h := .obj [("status", toJson h.status), ("postgres", toJson h.postgres),
    ("redis", toJson h.redis)]
  ofJson? v := do
    return ⟨← v.read? String "status", ← v.read? Bool "postgres", ← v.read? Bool "redis"⟩
  valid _ := by simp [Json.Valid, validFields_iff]
  ofJson?_toJson h := by simp [Json.read?, Json.field?]

end MiniOpenFX
