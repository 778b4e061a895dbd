import MiniOpenFX.Js.Date

/-!
# The database

The tables of the schema, as lists of rows. Uniqueness is not built into the tables: the unique
indexes are enforced by the statements (`Db.Statements`). Columns nothing reads are left out (the
ids and `updated_at` of balances, the ids and `created_at` of ledger entries, the key hashes and
`created_at` of clients).

A row of quotes or trades holds a `Timestamp` in the database and a `Date` where the services have
loaded it; loading truncates microseconds to milliseconds (`Timestamp.toDate`).

Source: `apps/api/src/db/schema.ts`.
-/

namespace MiniOpenFX

open Js

/-- A `timestamptz`, in microseconds since 1970, of the years 1 to 9999. -/
structure Timestamp where
  micros : Int
  lower : -62135596800000000 ≤ micros
  upper : micros < 253402300800000000
  deriving DecidableEq

namespace Timestamp

/-- The `Date` drizzle loads. -/
def toDate (t : Timestamp) : Date :=
  ⟨t.micros / 1000, by have := t.lower; omega, by have := t.upper; omega⟩

/-- The cast of a date's ISO text to `timestamptz`; only texts with a four-digit year other than
zero are accepted. -/
def ofDate? (d : Date) : Option Timestamp :=
  if h : -62135596800000000 ≤ d.ms * 1000 ∧ d.ms * 1000 < 253402300800000000 then
    some ⟨d.ms * 1000, h.1, h.2⟩
  else none

theorem ext {t t' : Timestamp} (h : t.micros = t'.micros) : t = t' := by
  cases t; cases t'; cases h; rfl

end Timestamp

/-- `ledger_reason`: why an amount moved. -/
inductive LedgerReason where
  | DEPOSIT
  | TRADE
  deriving DecidableEq

/-- `trade_side`, seen from the client: `BUY` buys the base currency. -/
inductive TradeSide where
  | BUY
  | SELL
  deriving DecidableEq

/-- `quote_status`. Expiry is not stored, it is computed on reading (`QuoteDisplayStatus`). -/
inductive QuoteStatus where
  | ACTIVE
  | EXECUTED
  deriving DecidableEq

/-- `trade_status`; no code stores `REJECTED`. -/
inductive TradeStatusValue where
  | FILLED
  | REJECTED
  deriving DecidableEq

/-- A row of `clients`; the hash of its API key is kept apart, in `Keys`. -/
structure ClientRow where
  id : Uuid
  name : String
  deriving DecidableEq

/-- A row of `balances`: what a client has of one currency, in minor units. -/
structure BalanceRow where
  clientId : Uuid
  currency : String
  availableMinor : Int
  deriving DecidableEq

/-- A row of `ledger_entries`: an amount, negative for a debit, with the trade, the deposit or the
seeded client it belongs to. -/
structure LedgerEntryRow where
  clientId : Uuid
  currency : String
  deltaMinor : Int
  reason : LedgerReason
  refType : String
  refId : Uuid
  deriving DecidableEq

/-- A quote; `τ` is the type of its times. -/
structure QuoteRow (τ : Type) where
  id : Uuid
  clientId : Uuid
  symbol : String
  side : TradeSide
  baseCurrency : String
  quoteCurrency : String
  baseAmountMinor : Int
  price : String
  quoteAmountMinor : Int
  status : QuoteStatus
  expiresAt : τ
  createdAt : τ
  deriving DecidableEq

/-- A trade; `τ` is the type of its times. -/
structure TradeRow (τ : Type) where
  id : Uuid
  clientId : Uuid
  quoteId : Uuid
  symbol : String
  side : TradeSide
  baseCurrency : String
  quoteCurrency : String
  baseAmountMinor : Int
  quoteAmountMinor : Int
  price : String
  status : TradeStatusValue
  idempotencyKey : String
  createdAt : τ
  deriving DecidableEq

/-- The quote as drizzle loads it. -/
def QuoteRow.load (q : QuoteRow Timestamp) : QuoteRow Date :=
  { q with expiresAt := q.expiresAt.toDate, createdAt := q.createdAt.toDate }

/-- The trade as drizzle loads it. -/
def TradeRow.load (t : TradeRow Timestamp) : TradeRow Date :=
  { t with createdAt := t.createdAt.toDate }

/-- The tables. -/
structure Database where
  clients : List ClientRow
  balances : List BalanceRow
  ledgerEntries : List LedgerEntryRow
  quotes : List (QuoteRow Timestamp)
  trades : List (TradeRow Timestamp)
  deriving DecidableEq

namespace Database

/-- A database without rows. -/
def empty : Database := ⟨[], [], [], [], []⟩

variable (db : Database)

/-- The client of an id, which the foreign keys ask for. -/
def client? (id : Uuid) : Option ClientRow := db.clients.find? fun c => c.id = id

/-- The client of a name; a name is there once. -/
def clientNamed? (name : String) : Option ClientRow := db.clients.find? fun c => c.name = name

/-- The balance of a client in a currency, the key of `balances`. -/
def balance? (clientId : Uuid) (currency : String) : Option BalanceRow :=
  db.balances.find? fun b => b.clientId = clientId ∧ b.currency = currency

/-- The quote of an id. -/
def quote? (id : Uuid) : Option (QuoteRow Timestamp) := db.quotes.find? fun q => q.id = id

/-- The trade of an id. -/
def trade? (id : Uuid) : Option (TradeRow Timestamp) := db.trades.find? fun t => t.id = id

/-- The trade that executed a quote; its column is unique. -/
def tradeOfQuote? (quoteId : Uuid) : Option (TradeRow Timestamp) :=
  db.trades.find? fun t => t.quoteId = quoteId

/-- The client's trade under an idempotency key; the pair is unique. -/
def tradeByKey? (clientId : Uuid) (key : String) : Option (TradeRow Timestamp) :=
  db.trades.find? fun t => t.clientId = clientId ∧ t.idempotencyKey = key

end Database

end MiniOpenFX
