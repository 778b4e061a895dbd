import MiniOpenFX.Transactional.Soundness
import MiniOpenFX.Proof.Effects

/-!
# What every call promises and relies on

`rely` is what a call may count on while others run: the committed data move by effects
(`Database.Later`), the clock does not go back, and anything may fail. `obligations` is what every
call promises at each of its acts: inside a transaction, which locks it holds when it runs a
statement (`Running`); at a commit, that its writes are an effect; at a request to Redis, which key
and which row it is about (`Requests`). `answers` is what a call may answer, given the history of
what it saw.
-/

namespace MiniOpenFX

open Js Transactional

/-- The tables with some writes applied. -/
abbrev Database.after (db : Database) (ws : List Write) : Database := backend.applyAll ws db

/-! ## Inside a transaction -/

/-- The quote is there, and still to be executed: what a transaction knows once it has locked the
row and checked it. -/
structure Executing (db : Database) (q : QuoteRow Timestamp) : Prop where
  found : db.quote? q.id = some q
  active : q.status = .ACTIVE

/-- The balance rows among some currencies that are not there yet: locked by inserting them. They
are locked in the order given, before the others are in the order of the currencies. -/
def missing (db : Database) (clientId : Uuid) (currencies : List String) : List Resource :=
  (currencies.filter fun currency => (db.balance? clientId currency).isNone).map
    (.balance clientId)

/-- The client and the currencies `lockBalanceRows` is called for, with the locks held before: none
for a deposit, the quote for a trade. -/
inductive Opening (db : Database) : Uuid → List String → List Resource → Prop where
  | deposit (clientId : Uuid) (currency : String) : Opening db clientId [currency] []
  | trade {q : QuoteRow Timestamp} (h : Executing db q) :
      Opening db q.clientId q.currencies [.quote q.id]

/-- The statements that only change rows the transaction holds, or add to the ledger. They never
wait for anybody. -/
def Moves : Stmt → Prop
  | .debitBalance .. | .creditBalance .. | .insertLedgerEntry _ | .setQuoteExecuted _ => True
  | _ => False

/-- The statements of transactions on the committed data `db`, with the writes made and the locks
held before each. -/
inductive Running (db : Database) : List Write → List Resource → Stmt → Prop where
  | lockQuote (id : String) : Running db [] [] (.selectQuoteForUpdate id)
  | ensure {c xs L₀ pre cur post ws} (opening : Opening db c xs L₀)
    (split : xs = pre ++ cur :: post)
      (view : db.after ws = db.ensureBalances c pre)
      (client : missing db c pre ≠ [] → (db.client? c).isSome) :
      Running db ws (L₀ ++ missing db c pre) (.insertBalanceIfAbsent c cur 0)
  | lock {c xs L₀ pre cur post ws} (opening : Opening db c xs L₀)
      (split : xs.insertionSort (· ≤ ·) = pre ++ cur :: post)
      (view : db.after ws = db.ensureBalances c xs)
      (client : missing db c xs ≠ [] → (db.client? c).isSome) :
      Running db ws (L₀ ++ missing db c xs ++ pre.map (.balance c)) (.lockBalance c cur)
  /-- a statement that needs nothing but what is held -/
  | held {ws L s} (moves : Moves s) (h : ∀ r ∈ needs s (db.after ws), r ∈ L) : Running db ws L s
  | insertTrade {q ws L tradeId key} (executing : Executing db q)
      (trades : (db.after ws).trades = db.trades)
      (locks : ∀ r ∈ L, r = .quote q.id ∨ ∃ currency, r = .balance q.clientId currency) :
      Running db ws L (.insertTrade (q.tradeValues q.clientId tradeId key))
  | insertClient (id : Uuid) : Running db [] [] (.insertClientIfAbsent id Seed.DEMO_CLIENT_NAME)
  | fund {client ws L currency amountMinor} (fresh : db.client? client = none)
      (name : .clientName Seed.DEMO_CLIENT_NAME ∈ L)
      (locks : ∀ r ∈ L, r = .clientName Seed.DEMO_CLIENT_NAME ∨ r = .clientId client ∨
        ∃ currency, r = .balance client currency) :
      Running db ws L (.insertBalance client currency amountMinor)

/-! ## Outside -/

/-- The statements that run outside transactions, with what is checked before they do: a quote is
stored active and for positive amounts only. -/
def Alone : Stmt → Prop
  | .insertQuote v => v.status = .ACTIVE ∧ 0 < v.baseAmountMinor ∧ 0 < v.quoteAmountMinor
  | .selectQuote _ | .selectTradeByKey .. | .selectBalances _ => True
  | _ => False

/-- A call's history. -/
abbrev History : Type := List (Event sig JsError)

/-- The call has put no quote in the cache. -/
def History.Quiet (ℓ : History) : Prop :=
  ∀ key cached ttlMs r, Event.ext (S := sig) (.redisSet key (.quote cached) ttlMs) r ∉ ℓ

/-- The call has read or written the row and not put it in the cache since. A row so held may be an
old one by the time it is put there. -/
structure History.Holds (ℓ : History) (row : QuoteRow Date) : Prop where
  seen : (∃ id, Event.sql (S := sig) (.selectQuote id) (.ok (some row)) ∈ ℓ) ∨
    ∃ v, Event.sql (S := sig) (.insertQuote v) (.ok row) ∈ ℓ
  quiet : ℓ.Quiet

/-- Requests that leave the quotes in the cache alone. Prices and splits are stored under keys that
no quote has. -/
def Plain : Ext → Prop
  | .redisSet _ (.quote _) _ | .redisDel _ => False
  | .redisSet key (.price _) _ => ∃ symbol, key = PricingService.priceCacheKey symbol
  | .redisSet key (.breakdown _) _ => ∃ symbol, key = PricingService.symbolCacheKey symbol
  | _ => True

/-- What goes to Redis, given the committed data and the history: a quote under a spelling of its
own id, straight from a row the call has seen; a price or a breakdown under its symbol; and only
the key of an executed quote is deleted. -/
def Requests (db : Database) (ℓ : History) : Ext → Prop
  | .redisSet key (.quote cached) _ => ∃ id row, key = quoteCacheKey id ∧
      Uuid.ofText? id = some row.id ∧ ℓ.Holds row ∧ cached = serializeQuote row
  | .redisDel key => ∃ id q, key = quoteCacheKey id ∧ Uuid.ofText? id = some q.id ∧
      db.quote? q.id = some q ∧ q.status = .EXECUTED
  | x => Plain x

/-! ## The rely -/

/-- The clock does not go back. -/
theorem tick_now (χ : Choice) (e : Surroundings) : e.now.micros ≤ (tick χ e).now.micros := by
  unfold tick
  split
  · simp only [Timestamp.advance]
    split
    · simp only
      omega
    · exact le_refl _
  · exact le_refl _

/-- Requests do not move the clock. -/
theorem answer_now (x : Ext) (χ : Choice) (e : Surroundings) : (answer x χ e).2.now = e.now := by
  cases x <;> simp only [answer] <;> try rfl
  split <;> rfl

variable [DecimalJs]

/-- What every call promises: the statements it may run where it stands, what its commits do to the
tables, and what it may put in the cache. -/
def obligations : Spec backend where
  inside db _ _ ws L s := Running db ws L s
  commit p _ _ ws _ := ∃ e : Effect, e.Allowed p.data ∧ p.data.after ws = e.apply p.data
  outside _ _ s := Alone s
  request p ℓ x := Requests p.data ℓ x

/-- What every call relies on: others turn the tables into later ones (`Database.Later`), the clock
does not go back, and any act may fail. -/
def rely : Rely backend where
  inv _ := True
  data := Database.Later
  envInv _ := True
  env e e' := e.now.micros ≤ e'.now.micros
  fails _ := True
  data_refl _ := Relation.ReflTransGen.refl
  data_trans := Relation.ReflTransGen.trans
  data_inv _ _ := trivial
  env_refl _ := le_refl _
  env_trans := le_trans
  env_inv _ _ := trivial

/-- What a call promises is what the others rely on. With this, verifying each call by itself
verifies the system. -/
theorem guarantees : Guarantees rely obligations where
  outside {p ℓ s χ r ws} _ h hx := by
    have hx : exec (backend.stamp p.env) p.data s = .ok (r, ws) := hx
    cases s with
    | insertQuote v =>
      obtain ⟨-, t, -, -, -, hfresh, -, -, rfl⟩ := exec_insertQuote.mp hx
      exact .of_effect (e := .quote (v.row t (backend.stamp p.env))) ⟨hfresh, h⟩
    | selectQuote id =>
      obtain ⟨-, -, -, rfl⟩ := exec_selectQuote.mp hx
      exact .refl
    | selectTradeByKey c key =>
      obtain ⟨-, rfl⟩ := exec_selectTradeByKey.mp hx
      exact .refl
    | selectBalances c =>
      obtain ⟨-, rfl⟩ := exec_selectBalances.mp hx
      exact .refl
    | _ => exact h.elim
  commit _ h := by
    obtain ⟨e, he, hws⟩ := h
    have := Database.Later.of_effect he
    rwa [← hws] at this
  request χ _ _ _ := le_of_eq (congrArg Timestamp.micros (answer_now _ χ _)).symm

/-! ## Answers -/

/-- The row a read of a quote has loaded, from Redis or from Postgres, or that neither has it. -/
inductive Loaded (id : String) (ℓ : History) : Option (QuoteRow Date) → Prop where
  | cached {cached row}
      (got : Event.ext (S := sig) (.redisGet (quoteCacheKey id)) (.ok (some (.quote cached))) ∈ ℓ)
      (decoded : deserializeQuote cached = .ok row) : Loaded id ℓ (some row)
  | read {row} (got : Event.sql (S := sig) (.selectQuote id) (.ok row) ∈ ℓ) : Loaded id ℓ row

/-- The answers of `getQuoteById`. -/
inductive QuoteAnswer (clientId : Uuid) (id : String) (ℓ : History) :
    Except JsError Response → Prop where
  | loaded {row} (now : Int) (h : Loaded id ℓ row) : QuoteAnswer clientId id ℓ
      ((assertOwnedByClient QuoteRow.clientId row clientId s!"Quote \"{id}\" not found").map
        fun row => .quote (toQuoteResponse now row))
  | corrupt {cached e}
      (got : Event.ext (S := sig) (.redisGet (quoteCacheKey id)) (.ok (some (.quote cached))) ∈ ℓ)
      (undecoded : deserializeQuote cached = .error e) : QuoteAnswer clientId id ℓ (.error e)
  | failed {e} (got : Event.sql (S := sig) (.selectQuote id) (.error e) ∈ ℓ) :
      QuoteAnswer clientId id ℓ (.error e)

/-- The answers of `executeTrade`, by what its first act, the lookup of the key, returned. The last
act of a call that has executed its quote deletes the quote from the cache. -/
inductive TradeAnswer (clientId : Uuid) (quoteId key : String) (db : Database) (ℓ : History) :
    Except JsError Response → Prop where
  | replay {row : TradeRow Timestamp} (found : db.tradeByKey? clientId key = some row)
      (first : ℓ.head? = some (.sql (S := sig) (.selectTradeByKey clientId key)
        (.ok (some row.load)))) :
      TradeAnswer clientId quoteId key db ℓ
        ((TradingService.replayOrConflict row.load quoteId).map .trade)
  | filled {row : TradeRow Timestamp} (found : db.tradeByKey? clientId key = some row)
      (spelled : Uuid.ofText? quoteId = some row.quoteId)
      (first : ℓ.head? = some (.sql (S := sig) (.selectTradeByKey clientId key) (.ok none)))
      (last : ∃ r, ℓ.getLast? = some (.ext (S := sig) (.redisDel (quoteCacheKey quoteId)) r)) :
      TradeAnswer clientId quoteId key db ℓ (.ok (.trade ⟨toTradeResponse row.load, false⟩))
  | failed {e} (first : ℓ.head? = some (.sql (S := sig) (.selectTradeByKey clientId key)
        (.ok none))) :
      TradeAnswer clientId quoteId key db ℓ (.error e)

/-- What a call may answer; the connection may be lost at any time. It is judged by the tables and
the clock when the call ends, and by its history. -/
def answers (c : Call) : Answer backend Response := fun p ℓ r =>
  r = .error .connectionError ∨
    match c with
    | .getQuoteById clientId id => QuoteAnswer clientId id ℓ r
    | .executeTrade clientId dto key =>
      TradeAnswer clientId dto.quoteId (trim key) p.data ℓ r
    | _ => True

end MiniOpenFX
