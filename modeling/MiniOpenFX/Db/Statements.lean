import MiniOpenFX.Common.Errors
import MiniOpenFX.Db.Schema
import Mathlib.Data.String.Basic
import Mathlib.Data.List.Sort
import Mathlib.Data.Prod.Lex

/-!
# The statements

Every statement the services send, as what it computes on the data it sees (`exec`), the rows it
writes (`Write`) and what it locks (`needs`). A statement that touches several rows in a given
order, the multi-row `INSERT ... ON CONFLICT DO NOTHING` and the `SELECT ... ORDER BY currency FOR
UPDATE` of the balances, is one statement for each row (`insertBalanceIfAbsent`, `lockBalance`), so
that waiting for one row comes between the locks of others.

Locks are those that can make another statement wait. A row lock and the unique key of a row
inserted by an open transaction are the same `Resource`: whoever meets either waits for that
transaction. A key that is already taken by a visible row is no wait but an outcome, so a statement
needs a key only where it would insert it.
-/

namespace MiniOpenFX

open Js

/-- The range of a `bigint` column. -/
def inBigint (n : Int) : Bool := -9223372036854775808 ≤ n && n ≤ 9223372036854775807

/-! ## Errors of Postgres -/

/-- A row with the same key exists. -/
def uniqueViolation (constraint : String) : JsError := .drizzleQueryError ⟨"23505", some constraint⟩

/-- The row that is referred to does not exist. -/
def foreignKeyViolation (constraint : String) : JsError :=
  .drizzleQueryError ⟨"23503", some constraint⟩

/-- An amount that `bigint` cannot hold. -/
def numericValueOutOfRange : JsError := .drizzleQueryError ⟨"22003", none⟩

/-- A text that is no uuid. -/
def invalidTextRepresentation : JsError := .drizzleQueryError ⟨"22P02", none⟩

/-- A time that `timestamptz` refuses. -/
def datetimeFieldOverflow : JsError := .drizzleQueryError ⟨"22008", none⟩

/-- A text with the character of code zero. -/
def invalidByteSequence : JsError := .drizzleQueryError ⟨"22021", none⟩

/-! ## Statements -/

/-- The values of a new quote; the creation time is the column's default. -/
structure QuoteValues where
  id : Uuid
  clientId : Uuid
  symbol : String
  side : TradeSide
  baseCurrency : String
  quoteCurrency : String
  baseAmountMinor : Int
  price : String
  quoteAmountMinor : Int
  status : QuoteStatus
  expiresAt : Date
  deriving DecidableEq

/-- Texts are stored without the character of code zero. -/
def storable (text : String) : Bool := '\x00' ∉ text.toList

/-- Postgres accepts the texts that come from outside: from the request and from Binance. The other
texts of the row are made here. -/
def QuoteValues.storable (v : QuoteValues) : Bool :=
  [v.symbol, v.baseCurrency, v.quoteCurrency, v.price].all MiniOpenFX.storable

/-- The values of a new trade; the creation time is the column's default. -/
structure TradeValues where
  id : Uuid
  clientId : Uuid
  quoteId : Uuid
  symbol : String
  side : TradeSide
  baseCurrency : String
  quoteCurrency : String
  baseAmountMinor : Int
  quoteAmountMinor : Int
  price : String
  status : TradeStatusValue
  idempotencyKey : String
  deriving DecidableEq

/-- The row that is inserted: the values, the time of expiry as it is stored and the time of the
transaction. -/
def QuoteValues.row (v : QuoteValues) (expiresAt createdAt : Timestamp) : QuoteRow Timestamp :=
  ⟨v.id, v.clientId, v.symbol, v.side, v.baseCurrency, v.quoteCurrency, v.baseAmountMinor, v.price,
    v.quoteAmountMinor, v.status, expiresAt, createdAt⟩

/-- The row that is inserted: the values and the time of the transaction. -/
def TradeValues.row (v : TradeValues) (createdAt : Timestamp) : TradeRow Timestamp :=
  ⟨v.id, v.clientId, v.quoteId, v.symbol, v.side, v.baseCurrency, v.quoteCurrency,
    v.baseAmountMinor, v.quoteAmountMinor, v.price, v.status, v.idempotencyKey, createdAt⟩

/-- The statements of the services, one constructor for each query they build with drizzle. -/
inductive Stmt where
  /-- `INSERT INTO clients ... ON CONFLICT (name) DO NOTHING RETURNING *` -/
  | insertClientIfAbsent (id : Uuid) (name : String)
  /-- `INSERT INTO balances ...` -/
  | insertBalance (clientId : Uuid) (currency : String) (availableMinor : Int)
  /-- one row of `INSERT INTO balances ... ON CONFLICT (client_id, currency) DO NOTHING` -/
  | insertBalanceIfAbsent (clientId : Uuid) (currency : String) (availableMinor : Int)
  /-- one row of `SELECT ... FROM balances ... FOR UPDATE` -/
  | lockBalance (clientId : Uuid) (currency : String)
  /-- `UPDATE balances SET available_minor = available_minor - ... WHERE ... AND available_minor
  >= ... RETURNING *` -/
  | debitBalance (clientId : Uuid) (currency : String) (amountMinor : Int)
  /-- `INSERT INTO balances ... ON CONFLICT (client_id, currency) DO UPDATE SET available_minor =
  available_minor + ...` -/
  | creditBalance (clientId : Uuid) (currency : String) (amountMinor : Int)
  | selectBalances (clientId : Uuid)
  | insertLedgerEntry (row : LedgerEntryRow)
  | insertQuote (values : QuoteValues)
  | selectQuote (id : String)
  | selectQuoteForUpdate (id : String)
  /-- `UPDATE quotes SET status = 'EXECUTED' WHERE id = ...` -/
  | setQuoteExecuted (id : Uuid)
  | insertTrade (values : TradeValues)
  | selectTradeByKey (clientId : Uuid) (idempotencyKey : String)
  /-- the page of a client's trades below a cursor, newest first -/
  | selectTrades (clientId : Uuid) (cursor : Option (Date × String)) (limit : Nat)

/-- The rows a statement returns. -/
abbrev StmtRes : Stmt → Type
  | .insertClientIfAbsent .. => Option ClientRow
  | .lockBalance .. | .debitBalance .. => Option BalanceRow
  | .selectBalances .. => List BalanceRow
  | .insertQuote .. => QuoteRow Date
  | .selectQuote .. | .selectQuoteForUpdate .. => Option (QuoteRow Date)
  | .insertTrade .. => TradeRow Date
  | .selectTradeByKey .. => Option (TradeRow Date)
  | .selectTrades .. => List (TradeRow Date)
  | .insertBalance .. | .insertBalanceIfAbsent .. | .creditBalance .. | .insertLedgerEntry ..
  | .setQuoteExecuted .. => Unit

/-! ## Writes -/

/-- One new version of a row: an insert, an amount, or a status. These are all the changes that the
statements make. -/
inductive Write where
  | client (row : ClientRow)
  | balance (row : BalanceRow)
  | setBalance (clientId : Uuid) (currency : String) (availableMinor : Int)
  | ledgerEntry (row : LedgerEntryRow)
  | quote (row : QuoteRow Timestamp)
  | executed (id : Uuid)
  | trade (row : TradeRow Timestamp)
  deriving DecidableEq

/-- The tables with the new version. -/
def Write.apply : Write → Database → Database
  | .client row, db => { db with clients := db.clients ++ [row] }
  | .balance row, db => { db with balances := db.balances ++ [row] }
  | .setBalance clientId currency availableMinor, db =>
    { db with balances := db.balances.map fun b =>
        if b.clientId = clientId ∧ b.currency = currency then { b with availableMinor } else b }
  | .ledgerEntry row, db => { db with ledgerEntries := db.ledgerEntries ++ [row] }
  | .quote row, db => { db with quotes := db.quotes ++ [row] }
  | .executed id, db =>
    { db with quotes := db.quotes.map fun q =>
      if q.id = id then { q with status := .EXECUTED } else q }
  | .trade row, db => { db with trades := db.trades ++ [row] }

/-- What can be locked: rows, and entries of unique indexes, which an insert holds before the row
can be seen by others. -/
inductive Resource where
  | clientId (id : Uuid)
  | clientName (name : String)
  | balance (clientId : Uuid) (currency : String)
  | quote (id : Uuid)
  | tradeId (id : Uuid)
  | tradeQuote (quoteId : Uuid)
  | tradeKey (clientId : Uuid) (idempotencyKey : String)
  deriving DecidableEq

/-- The resources whose content a write changes. -/
def Write.touches : Write → List Resource
  | .client row => [.clientName row.name, .clientId row.id]
  | .balance row => [.balance row.clientId row.currency]
  | .setBalance clientId currency _ => [.balance clientId currency]
  | .ledgerEntry _ => []
  | .quote row => [.quote row.id]
  | .executed id => [.quote id]
  | .trade row =>
    [.tradeId row.id, .tradeQuote row.quoteId, .tradeKey row.clientId row.idempotencyKey]

/-! ## What a statement computes -/

/-- The place of a trade in the keyset order: its time with microseconds and, between equal times,
its id. -/
def TradeRow.keyset (t : TradeRow Timestamp) : ℤ ×ₗ String := toLex (t.createdAt.micros, t.id.text)

/-- Newest first. -/
def TradeRow.newer (s t : TradeRow Timestamp) : Prop := t.keyset ≤ s.keyset

instance : DecidableRel TradeRow.newer := fun s t =>
    inferInstanceAs (Decidable (t.keyset ≤ s.keyset))

/-- A client's trades, newest first, those strictly below the keyset `below` if one is given. It is
what the query of the history orders and compares by. -/
def Database.tradesBelow (db : Database) (clientId : Uuid) (below : Option (ℤ ×ₗ String)) :
    List (TradeRow Timestamp) :=
  (db.trades.filter fun t => t.clientId = clientId ∧ ∀ k ∈ below, t.keyset < k).insertionSort
    TradeRow.newer

/-- A client's balances by currency. -/
def Database.balancesOf (db : Database) (clientId : Uuid) : List BalanceRow :=
  (db.balances.filter fun b => b.clientId = clientId).insertionSort fun a b =>
    a.currency ≤ b.currency

/-- The operands of the keyset comparison: the cast of the ISO text to `timestamptz` and of the id
to `uuid`. A date that cannot be cast is one error here and so is an id; Postgres tells a date that
it cannot parse (22007, 22009) from one out of range (22008), and an id with U+0000 (22021) from
other texts that are no uuids (22P02). -/
def keysetOperands : Date × String → Except JsError (ℤ ×ₗ String)
  | (createdAt, id) =>
    match Timestamp.ofDate? createdAt, Uuid.cast? id with
    | some t, some u => .ok (toLex (t.micros, u.text))
    | none, _ => .error datetimeFieldOverflow
    | some _, none => .error invalidTextRepresentation

/-- What a statement returns and writes on the data it sees; `now` is the start of its
transaction. A trade is looked up by any key: one with U+0000, which Postgres refuses and which no
header can carry, is a key without a trade. -/
@[grind =]
def exec (now : Timestamp) (db : Database) : (s : Stmt) → Except JsError (StmtRes s × List Write)
  | .insertClientIfAbsent id name =>
    if (db.clientNamed? name).isSome then .ok (none, [])
    else if (db.client? id).isSome then .error (uniqueViolation "clients_pkey")
    else .ok (some ⟨id, name⟩, [.client ⟨id, name⟩])
  | .insertBalance clientId currency availableMinor =>
    if ¬ inBigint availableMinor then .error numericValueOutOfRange
    else if (db.balance? clientId currency).isSome then
      .error (uniqueViolation "balances_client_currency_unique")
    else if (db.client? clientId).isNone then
      .error (foreignKeyViolation "balances_client_id_clients_id_fk")
    else .ok ((), [.balance ⟨clientId, currency, availableMinor⟩])
  | .insertBalanceIfAbsent clientId currency availableMinor =>
    if ¬ inBigint availableMinor then .error numericValueOutOfRange
    else if (db.balance? clientId currency).isSome then .ok ((), [])
    else if (db.client? clientId).isNone then
      .error (foreignKeyViolation "balances_client_id_clients_id_fk")
    else .ok ((), [.balance ⟨clientId, currency, availableMinor⟩])
  | .lockBalance clientId currency => .ok (db.balance? clientId currency, [])
  | .debitBalance clientId currency amountMinor =>
    if ¬ inBigint amountMinor then .error numericValueOutOfRange
    else match db.balance? clientId currency with
      | none => .ok (none, [])
      | some b =>
        if b.availableMinor < amountMinor then .ok (none, [])
        else if ¬ inBigint (b.availableMinor - amountMinor) then .error numericValueOutOfRange
        else .ok (some { b with availableMinor := b.availableMinor - amountMinor },
          [.setBalance clientId currency (b.availableMinor - amountMinor)])
  | .creditBalance clientId currency amountMinor =>
    if ¬ inBigint amountMinor then .error numericValueOutOfRange
    else match db.balance? clientId currency with
      | none =>
        if (db.client? clientId).isNone then
          .error (foreignKeyViolation "balances_client_id_clients_id_fk")
        else .ok ((), [.balance ⟨clientId, currency, amountMinor⟩])
      | some b =>
        if ¬ inBigint (b.availableMinor + amountMinor) then .error numericValueOutOfRange
        else .ok ((), [.setBalance clientId currency (b.availableMinor + amountMinor)])
  | .selectBalances clientId => .ok (db.balancesOf clientId, [])
  | .insertLedgerEntry row =>
    if ¬ inBigint row.deltaMinor then .error numericValueOutOfRange
    else if (db.client? row.clientId).isNone then
      .error (foreignKeyViolation "ledger_entries_client_id_clients_id_fk")
    else .ok ((), [.ledgerEntry row])
  | .insertQuote v =>
    if ¬ v.storable then .error invalidByteSequence
    else match Timestamp.ofDate? v.expiresAt with
    | none => .error datetimeFieldOverflow
    | some expiresAt =>
      if ¬ (inBigint v.baseAmountMinor ∧ inBigint v.quoteAmountMinor) then
        .error numericValueOutOfRange
      else if (db.quote? v.id).isSome then .error (uniqueViolation "quotes_pkey")
      else if (db.client? v.clientId).isNone then
        .error (foreignKeyViolation "quotes_client_id_clients_id_fk")
      else .ok ((v.row expiresAt now).load, [.quote (v.row expiresAt now)])
  | .selectQuote id | .selectQuoteForUpdate id =>
    match Uuid.ofText? id with
    | none => .error invalidTextRepresentation
    | some id => .ok ((db.quote? id).map QuoteRow.load, [])
  | .setQuoteExecuted id => .ok ((), [.executed id])
  | .insertTrade v =>
    if ¬ (inBigint v.baseAmountMinor ∧ inBigint v.quoteAmountMinor) then
      .error numericValueOutOfRange
    else if (db.trade? v.id).isSome then .error (uniqueViolation "trades_pkey")
    else if (db.tradeOfQuote? v.quoteId).isSome then
      .error (uniqueViolation "trades_quote_id_unique")
    else if (db.tradeByKey? v.clientId v.idempotencyKey).isSome then
      .error (uniqueViolation "trades_client_idempotency_key_unique")
    else if (db.client? v.clientId).isNone then
      .error (foreignKeyViolation "trades_client_id_clients_id_fk")
    else if (db.quote? v.quoteId).isNone then
      .error (foreignKeyViolation "trades_quote_id_quotes_id_fk")
    else .ok ((v.row now).load, [.trade (v.row now)])
  | .selectTradeByKey clientId key => .ok ((db.tradeByKey? clientId key).map TradeRow.load, [])
  | .selectTrades clientId cursor limit =>
    match cursor with
    | none => .ok (((db.tradesBelow clientId none).take limit).map TradeRow.load, [])
    | some cursor =>
      match keysetOperands cursor with
      | .error e => .error e
      | .ok k => .ok (((db.tradesBelow clientId (some k)).take limit).map TradeRow.load, [])

/-- What a statement has to hold before it can run. The keys of a new trade are taken in the order
of the indexes, so one that is already taken ends the list. -/
@[grind =]
def needs (s : Stmt) (db : Database) : List Resource :=
  match s with
  | .insertClientIfAbsent id name =>
    if (db.clientNamed? name).isSome then [] else
      if (db.client? id).isSome then [.clientName name] else [.clientName name, .clientId id]
  | .insertBalance clientId currency _ | .insertBalanceIfAbsent clientId currency _ =>
    if (db.balance? clientId currency).isSome then [] else [.balance clientId currency]
  | .lockBalance clientId currency =>
    if (db.balance? clientId currency).isSome then [.balance clientId currency] else []
  | .debitBalance clientId currency amountMinor =>
    match db.balance? clientId currency with
    | none => []
    | some b => if b.availableMinor < amountMinor then [] else [.balance clientId currency]
  | .creditBalance clientId currency _ => [.balance clientId currency]
  | .insertQuote v => if (db.quote? v.id).isSome then [] else [.quote v.id]
  | .selectQuoteForUpdate id =>
    match Uuid.ofText? id with
    | none => []
    | some id => if (db.quote? id).isSome then [.quote id] else []
  | .setQuoteExecuted id => [.quote id]
  | .insertTrade v =>
    if (db.trade? v.id).isSome then [] else
      if (db.tradeOfQuote? v.quoteId).isSome then [.tradeId v.id] else
        if (db.tradeByKey? v.clientId v.idempotencyKey).isSome then
          [.tradeId v.id, .tradeQuote v.quoteId]
        else [.tradeId v.id, .tradeQuote v.quoteId, .tradeKey v.clientId v.idempotencyKey]
  | .selectBalances _ | .insertLedgerEntry _ | .selectQuote _ | .selectTradeByKey _ _
  | .selectTrades _ _ _ => []

end MiniOpenFX
