import MiniOpenFX.Bookkeeping.Book
import MiniOpenFX.Db.Locking
import MiniOpenFX.System

/-!
# What a commit does

The effect of each committed transaction as one operation on the tables (`Effect.apply`): a deposit
or a seed run posts ledger entries and keeps the balances in step, a trade moves both legs of its
quote and marks the quote executed, and a new quote is added. `Effect.Allowed` says on which tables
an effect can happen. `Database.Later` is any number of effects, one after the other; it is how far
the committed data can have moved between two acts of a request.
-/

namespace MiniOpenFX

open Js Transactional Bookkeeping

namespace Database

/-- Make sure the client has a balance row in the currency, as `lockBalanceRows` does before it
locks: Postgres cannot lock a row that is not there. -/
def ensureBalance (db : Database) (clientId : Uuid) (currency : String) : Database :=
  match db.balance? clientId currency with
  | none => (Write.balance ⟨clientId, currency, 0⟩).apply db
  | some _ => db

/-- Change a balance by the amount of a ledger entry and keep the entry. The two belong together:
everything that moves money does so by posting. -/
def postEntry (db : Database) (e : LedgerEntryRow) : Database :=
  (Write.ledgerEntry e).apply
    (match db.balance? e.clientId e.currency with
      | none => (Write.balance ⟨e.clientId, e.currency, e.deltaMinor⟩).apply db
      | some b =>
        (Write.setBalance e.clientId e.currency (b.availableMinor + e.deltaMinor)).apply db)

/-- The amount on a balance, zero where there is no row. -/
def available (db : Database) (clientId : Uuid) (currency : String) : Int :=
  ((db.balance? clientId currency).map BalanceRow.availableMinor).getD 0

/-- The book the balances and the ledger keep: an account for each row of `balances`, a posting for
each entry. What books satisfy (`Book.Balanced`) then holds of the tables. -/
def book (db : Database) : Book (Uuid × String) where
  balance k := (db.balance? k.1 k.2).map BalanceRow.availableMinor
  entries := db.ledgerEntries.map fun e => ((e.clientId, e.currency), e.deltaMinor)

/-! ## The tables after an operation -/

section
variable (db : Database) (c : Uuid) (cur : String) (e : LedgerEntryRow)

/-- After `ensureBalance` there is a balance: the one that was there, or one of zero. A balance
that was there keeps its amount. -/
theorem balance?_ensureBalance (clientId : Uuid) (currency : String) :
    (db.ensureBalance c cur).balance? clientId currency = (db.balance? clientId currency).or
      (if c = clientId ∧ cur = currency then some ⟨c, cur, 0⟩ else none) := by
  unfold ensureBalance
  split
  · exact balance?_apply_balance db _ clientId currency
  · next b hb =>
    by_cases h : c = clientId ∧ cur = currency
    · obtain ⟨rfl, rfl⟩ := h; simp [hb]
    · simp [h]

/-- `ensureBalance` touches the balances only. This and the lemmas below are what the two
operations on money leave of the other tables. -/
@[simp] theorem ensureBalance_ledgerEntries :
    (db.ensureBalance c cur).ledgerEntries = db.ledgerEntries := by
  unfold ensureBalance; split <;> rfl

@[simp] theorem ensureBalance_clients : (db.ensureBalance c cur).clients = db.clients := by
  unfold ensureBalance; split <;> rfl

@[simp] theorem ensureBalance_quotes : (db.ensureBalance c cur).quotes = db.quotes := by
  unfold ensureBalance; split <;> rfl

@[simp] theorem ensureBalance_trades : (db.ensureBalance c cur).trades = db.trades := by
  unfold ensureBalance; split <;> rfl

/-- Posting an entry appends it to the ledger. -/
@[simp] theorem postEntry_ledgerEntries :
    (db.postEntry e).ledgerEntries = db.ledgerEntries ++ [e] := by
  unfold postEntry; split <;> rfl

@[simp] theorem postEntry_clients : (db.postEntry e).clients = db.clients := by
  unfold postEntry; split <;> rfl

@[simp] theorem postEntry_quotes : (db.postEntry e).quotes = db.quotes := by
  unfold postEntry; split <;> rfl

@[simp] theorem postEntry_trades : (db.postEntry e).trades = db.trades := by
  unfold postEntry; split <;> rfl

/-- Posting an entry moves the balance of its client and currency by the entry, and leaves the
other balances as they are. -/
theorem balance?_postEntry (clientId : Uuid) (currency : String) :
    ((db.postEntry e).balance? clientId currency).map BalanceRow.availableMinor =
      if clientId = e.clientId ∧ currency = e.currency then
        some (db.available e.clientId e.currency + e.deltaMinor)
      else (db.balance? clientId currency).map BalanceRow.availableMinor := by
  unfold postEntry available
  split
  · next hb =>
    change ((Write.apply _ db).balance? clientId currency).map _ = _
    rw [balance?_apply_balance]
    by_cases h : clientId = e.clientId ∧ currency = e.currency
    · obtain ⟨rfl, rfl⟩ := h; simp [hb]
    · simp [h, eq_comm (a := e.clientId), eq_comm (a := e.currency)]
  · next b hb =>
    change ((Write.apply _ db).balance? clientId currency).map _ = _
    rw [balance?_apply_setBalance, Option.map_map]
    by_cases h : clientId = e.clientId ∧ currency = e.currency
    · obtain ⟨rfl, rfl⟩ := h; simp [hb]
    · simp [h, eq_comm (a := e.clientId), eq_comm (a := e.currency), Function.comp_def]

/-- Making sure of a row opens its account. -/
theorem book_ensureBalance :
    (db.ensureBalance c cur).book = db.book.openAccount (c, cur) := by
  simp only [book, Book.openAccount, ensureBalance_ledgerEntries, Book.mk.injEq, and_true]
  funext k
  rw [Function.update_apply, balance?_ensureBalance]
  by_cases hk : k = (c, cur)
  · subst hk
    cases db.balance? c cur <;> simp
  · have : ¬ (c = k.1 ∧ cur = k.2) := fun h => hk (Prod.ext h.1.symm h.2.symm)
    simp [hk, this]

/-- Posting an entry is a posting of the book. -/
theorem book_postEntry :
    (db.postEntry e).book = db.book.post (e.clientId, e.currency) e.deltaMinor := by
  simp only [book, Book.post, postEntry_ledgerEntries, List.map_append, List.map_cons,
    List.map_nil, Book.mk.injEq, and_true]
  funext k
  rw [Function.update_apply, balance?_postEntry]
  simp only [Prod.ext_iff, available]

end

/-! ## Several rows -/

/-- Post entries one after the other. -/
def postEntries (db : Database) (es : List LedgerEntryRow) : Database := es.foldl postEntry db

section
variable (db : Database) (es : List LedgerEntryRow)

/-- What every single posting keeps is kept by all of them. The frame lemmas below go by this, so
none repeats the induction. -/
theorem postEntries_keeps {P : Database → Prop} (hdb : P db)
    (hstep : ∀ d, ∀ e ∈ es, P d → P (d.postEntry e)) : P (db.postEntries es) := by
  induction es generalizing db with
  | nil => exact hdb
  | cons e es ih =>
    exact ih _ (hstep db e (.head _) hdb) fun d f hf => hstep d f (.tail _ hf)

/-- The last of a list of entries is posted after the others. -/
theorem postEntries_concat (e : LedgerEntryRow) :
    db.postEntries (es ++ [e]) = (db.postEntries es).postEntry e := by
  simp [postEntries]

@[simp] theorem postEntries_quotes : (db.postEntries es).quotes = db.quotes :=
  postEntries_keeps db es (P := fun d => d.quotes = db.quotes) rfl
    fun d e _ h => (postEntry_quotes d e).trans h

@[simp] theorem postEntries_trades : (db.postEntries es).trades = db.trades :=
  postEntries_keeps db es (P := fun d => d.trades = db.trades) rfl
    fun d e _ h => (postEntry_trades d e).trans h

/-- Posting entries appends them to the ledger, in their order. -/
@[simp] theorem postEntries_ledgerEntries :
    (db.postEntries es).ledgerEntries = db.ledgerEntries ++ es := by
  induction es generalizing db with
  | nil => simp [postEntries]
  | cons e es ih =>
    change ((db.postEntry e).postEntries es).ledgerEntries = _
    rw [ih, postEntry_ledgerEntries, List.append_assoc, List.singleton_append]

/-- What is available of a currency moves by the entries posted to it, and by nothing else. -/
theorem available_postEntry (e : LedgerEntryRow) (clientId : Uuid) (currency : String) :
    (db.postEntry e).available clientId currency = db.available clientId currency +
      if clientId = e.clientId ∧ currency = e.currency then e.deltaMinor else 0 := by
  rw [available, balance?_postEntry]
  split
  · next h => rw [h.1, h.2]; rfl
  · exact (Int.add_zero _).symm

end

/-- Make sure the client has a balance row in each of the currencies. -/
def ensureBalances (db : Database) (clientId : Uuid) (currencies : List String) : Database :=
  currencies.foldl (fun db currency => db.ensureBalance clientId currency) db

section
variable (db : Database) (c : Uuid) (xs : List String)

/-- The last of a list of balances is made sure of after the others. -/
theorem ensureBalances_concat (cur : String) :
    db.ensureBalances c (xs ++ [cur]) = (db.ensureBalances c xs).ensureBalance c cur := by
  simp [ensureBalances]

/-- What every single ensured row keeps is kept by all of them. -/
theorem ensureBalances_keeps {P : Database → Prop} (hdb : P db)
    (hstep : ∀ d cur, P d → P (d.ensureBalance c cur)) : P (db.ensureBalances c xs) := by
  induction xs generalizing db with
  | nil => exact hdb
  | cons cur xs ih => exact ih _ (hstep db cur hdb)

@[simp] theorem ensureBalances_ledgerEntries :
    (db.ensureBalances c xs).ledgerEntries = db.ledgerEntries :=
  ensureBalances_keeps db c xs (P := fun d => d.ledgerEntries = db.ledgerEntries) rfl
    fun d cur h => (ensureBalance_ledgerEntries d c cur).trans h

@[simp] theorem ensureBalances_clients : (db.ensureBalances c xs).clients = db.clients :=
  ensureBalances_keeps db c xs (P := fun d => d.clients = db.clients) rfl
    fun d cur h => (ensureBalance_clients d c cur).trans h

@[simp] theorem ensureBalances_quotes : (db.ensureBalances c xs).quotes = db.quotes :=
  ensureBalances_keeps db c xs (P := fun d => d.quotes = db.quotes) rfl
    fun d cur h => (ensureBalance_quotes d c cur).trans h

@[simp] theorem ensureBalances_trades : (db.ensureBalances c xs).trades = db.trades :=
  ensureBalances_keeps db c xs (P := fun d => d.trades = db.trades) rfl
    fun d cur h => (ensureBalance_trades d c cur).trans h

/-- Where there is a balance, `ensureBalance` does nothing. -/
theorem ensureBalance_of_isSome {cur : String} (h : (db.balance? c cur).isSome) :
    db.ensureBalance c cur = db := by
  obtain ⟨b, hb⟩ := Option.isSome_iff_exists.mp h
  rw [ensureBalance, hb]

/-- Where there is none, `ensureBalance` inserts one of zero. -/
theorem ensureBalance_of_none {cur : String} (h : db.balance? c cur = none) :
    db.ensureBalance c cur = (Write.balance ⟨c, cur, 0⟩).apply db := by
  rw [ensureBalance, h]

/-- A balance of zero is as much as none: nothing becomes available or is lost. So the rows that
`lockBalanceRows` inserts do not show in what a client can spend. -/
theorem available_ensureBalance (cur : String) (clientId : Uuid) (currency : String) :
    (db.ensureBalance c cur).available clientId currency = db.available clientId currency := by
  simp only [available, balance?_ensureBalance]
  by_cases h : c = clientId ∧ cur = currency
  · cases db.balance? clientId currency <;> simp [h]
  · simp [h]

/-- An ensured row holds what it held, or nothing. -/
theorem available_ensureBalances (clientId : Uuid) (currency : String) :
    (db.ensureBalances c xs).available clientId currency = db.available clientId currency :=
  ensureBalances_keeps db c xs
    (P := fun d => d.available clientId currency = db.available clientId currency) rfl
    fun d cur h => (available_ensureBalance d c cur clientId currency).trans h

/-- Whose rows are there afterwards. -/
theorem isSome_balance?_ensureBalances (clientId : Uuid) (currency : String) :
    ((db.ensureBalances c xs).balance? clientId currency).isSome =
      ((db.balance? clientId currency).isSome || (c = clientId ∧ currency ∈ xs)) := by
  induction xs generalizing db with
  | nil => simp [ensureBalances]
  | cons cur xs ih =>
    change (((db.ensureBalance c cur).ensureBalances c xs).balance? _ _).isSome = _
    rw [ih, balance?_ensureBalance]
    by_cases h : c = clientId ∧ cur = currency
    · obtain ⟨rfl, rfl⟩ := h; simp
    · have : ¬ (c = clientId ∧ currency = cur) := fun h' => h ⟨h'.1, h'.2.symm⟩
      simp only [h, if_false, Option.or_none, List.mem_cons]
      grind

end

end Database

/-! ## Effects -/

/-- What one transaction, or one statement outside a transaction, does to the tables: nothing, a
quote, a deposit, the seed, or a trade. Every commit of a run is one of these (`effect_of_step`),
so what each keeps holds of all reachable tables. -/
inductive Effect where
  | nothing
  | quote (row : QuoteRow Timestamp)
  | deposit (clientId : Uuid) (currency : String) (amountMinor : Int) (depositId : Uuid)
  | seed (client : ClientRow) (funds : List (String × Int))
  | trade (quote : QuoteRow Timestamp) (tradeId : Uuid) (idempotencyKey : String)
      (createdAt : Timestamp)

/-- The ledger entry of what the client owes for a quote. -/
def QuoteRow.debitEntry (q : QuoteRow Timestamp) (tradeId : Uuid) : LedgerEntryRow :=
  ⟨q.clientId, q.debitCurrency, -q.debitAmount, .TRADE, "TRADE", tradeId⟩

/-- The ledger entry of what the client receives for a quote. -/
def QuoteRow.creditEntry (q : QuoteRow Timestamp) (tradeId : Uuid) : LedgerEntryRow :=
  ⟨q.clientId, q.creditCurrency, q.creditAmount, .TRADE, "TRADE", tradeId⟩

/-- The currencies whose balances a quote moves, each once. -/
def QuoteRow.currencies {τ : Type} (q : QuoteRow τ) : List String :=
  LedgerService.uniqueCurrencies [q.debitCurrency, q.creditCurrency]

/-- The ledger entry a seed run explains its funds with. -/
def ClientRow.seedEntry (client : ClientRow) (fund : String × Int) : LedgerEntryRow :=
  ⟨client.id, fund.1, fund.2, .DEPOSIT, "SEED", client.id⟩

/-- The trade that executes a quote. -/
def QuoteRow.trade (q : QuoteRow Timestamp) (tradeId : Uuid) (idempotencyKey : String)
    (createdAt : Timestamp) : TradeRow Timestamp :=
  (q.tradeValues q.clientId tradeId idempotencyKey).row createdAt

namespace Effect

/-- The tables afterwards. A trade marks its quote, makes sure of both balance rows, posts its two
legs and adds its row. -/
def apply (db : Database) : Effect → Database
  | .nothing => db
  | .quote row => (Write.quote row).apply db
  | .deposit clientId currency amountMinor depositId =>
    (db.ensureBalance clientId currency).postEntry
      ⟨clientId, currency, amountMinor, .DEPOSIT, "DEPOSIT", depositId⟩
  | .seed client funds =>
    ((Write.client client).apply db).postEntries (funds.map client.seedEntry)
  | .trade q tradeId key createdAt =>
    (Write.executed q.id).apply ((Write.trade (q.trade tradeId key createdAt)).apply
      (((db.ensureBalances q.clientId q.currencies).postEntry (q.debitEntry tradeId)).postEntry
        (q.creditEntry tradeId)))

/-- Trades are only added. -/
theorem trades_apply (db : Database) (e : Effect) :
    ∃ ts, (e.apply db).trades = db.trades ++ ts := by
  cases e with
  | nothing | quote => exact ⟨[], (List.append_nil _).symm⟩
  | deposit | seed => exact ⟨[], by simp [apply, Write.apply]⟩
  | trade q tradeId key createdAt =>
      exact ⟨[q.trade tradeId key createdAt], by simp [apply, Write.apply]⟩

/-- A trade stays under its key. -/
theorem tradeByKey?_apply {db : Database} {c : Uuid} {key : String} {t : TradeRow Timestamp}
    (h : db.tradeByKey? c key = some t) (e : Effect) : (e.apply db).tradeByKey? c key = some t := by
  obtain ⟨ts, hts⟩ := trades_apply db e
  rw [Database.tradeByKey?] at h
  rw [Database.tradeByKey?, hts, List.find?_append, h]
  rfl

/-- A trade marks its own quote as executed, and no other. -/
theorem quote?_trade (db : Database) (x : QuoteRow Timestamp) (tradeId : Uuid) (key : String)
    (createdAt : Timestamp) (id : Uuid) :
    ((trade x tradeId key createdAt).apply db).quote? id = (db.quote? id).map fun y =>
      if x.id = id then { y with status := .EXECUTED } else y := by
  rw [apply, quote?_apply_executed]
  simp [Database.quote?, Write.apply]

/-- A quote stays; at most it becomes EXECUTED. Neither its amounts nor its owner nor its time
change. -/
theorem quote?_apply {db : Database} {id : Uuid} {q : QuoteRow Timestamp}
    (h : db.quote? id = some q) (e : Effect) :
    (e.apply db).quote? id = some q ∨
      (e.apply db).quote? id = some { q with status := .EXECUTED } := by
  cases e with
  | nothing => exact .inl h
  | quote row => exact .inl (by rw [apply, quote?_apply_quote, h]; rfl)
  | deposit | seed =>
    refine .inl ?_
    rw [Database.quote?] at h ⊢
    simpa [apply, Write.apply] using h
  | trade x tradeId key createdAt =>
    rw [quote?_trade, h, Option.map_some]
    split
    · exact .inr rfl
    · exact .inl rfl

variable [DecimalJs]

/-- The tables on which the effect can happen: what the code has checked by the time it commits,
such as a free id, an active quote, a free key or enough money. -/
def Allowed (db : Database) : Effect → Prop
  | .nothing => True
  | .quote row =>
    db.quote? row.id = none ∧ row.status = .ACTIVE ∧ 0 < row.baseAmountMinor ∧
      0 < row.quoteAmountMinor
  | .deposit _ _ amountMinor _ => 0 < amountMinor
  | .seed client funds =>
    db.client? client.id = none ∧
      List.Forall₂ (fun f g => f.1 = g.1 ∧ toMinorUnits (.text f.2) = .ok g.2) Seed.funding funds
  | .trade q tradeId key _ =>
    db.quote? q.id = some q ∧ q.status = .ACTIVE ∧ db.trade? tradeId = none ∧
      db.tradeOfQuote? q.id = none ∧ db.tradeByKey? q.clientId key = none ∧
      q.debitAmount ≤ db.available q.clientId q.debitCurrency

end Effect

/-- The tables can become `db'` by effects, one after the other, each allowed where it happens. -/
def Database.Later [DecimalJs] : Database → Database → Prop :=
  Relation.ReflTransGen fun db db' => ∃ e : Effect, e.Allowed db ∧ db' = e.apply db

/-- What every effect keeps, all of them keep. Every invariant of reachable tables goes by this:
one case for each effect, and no case for each program. -/
theorem Database.Later.keeps [DecimalJs] {P : Database → Prop} {db db' : Database}
    (h : db.Later db') (hdb : P db) (hstep : ∀ d (e : Effect), e.Allowed d → P d → P (e.apply d)) :
    P db' := by
  induction h with
  | refl => exact hdb
  | tail _ hstep' ih => obtain ⟨e, he, rfl⟩ := hstep'; exact hstep _ e he ih

/-- A trade stays under its key. So a lookup that has found it once finds it ever after, whatever
commits in between. -/
theorem Database.Later.tradeByKey? [DecimalJs] {db db' : Database} (h : db.Later db') {c : Uuid}
    {key : String} {t : TradeRow Timestamp} (ht : db.tradeByKey? c key = some t) :
    db'.tradeByKey? c key = some t :=
  h.keeps (P := fun d => d.tradeByKey? c key = some t) ht fun _ e _ hd =>
    Effect.tradeByKey?_apply hd e

/-- An executed quote does not change any more: an effect changes a quote at most by executing it,
and that has happened. -/
theorem Database.Later.quote? [DecimalJs] {db db' : Database} (h : db.Later db') {id : Uuid}
    {q : QuoteRow Timestamp} (hq : db.quote? id = some q) (hs : q.status = .EXECUTED) :
    db'.quote? id = some q := by
  refine h.keeps (P := fun d => d.quote? id = some q) hq fun d e _ hd => ?_
  have : { q with status := .EXECUTED } = q := by cases q; cases hs; rfl
  simpa only [this, or_self] using Effect.quote?_apply hd e

/-- An effect that can happen leads to later data. -/
theorem Database.Later.of_effect [DecimalJs] {db : Database} {e : Effect} (h : e.Allowed db) :
    db.Later (e.apply db) :=
  .single ⟨e, h, rfl⟩

end MiniOpenFX
