import MiniOpenFX.Guarantees.Replay
import MiniOpenFX.Transactional.Calm

/-!
# The outcomes of a trade

`executeTrade` with nobody else at work, on any tables that satisfy the invariants: which of its
outcomes it comes to (`tradeOutcome`), what it answers and what it leaves in the tables
(`executeTrade_outcome`). Only a filled trade changes them.
-/

namespace MiniOpenFX

open Js Transactional

/-! ## Outcomes -/

/-- What the schema holds of the tables: amounts are bigints and quotes belong to clients.
`schema_kept` shows it of reachable tables. -/
structure Constrained (db : Database) : Prop where
  balances : ∀ b ∈ db.balances, inBigint b.availableMinor
  amounts : ∀ q ∈ db.quotes, inBigint q.baseAmountMinor ∧ inBigint q.quoteAmountMinor
  owners : ∀ q ∈ db.quotes, (db.client? q.clientId).isSome

/-- How a call to execute a quote ends, with the row that the answer is about where there is one.
-/
inductive TradeOutcome where
  | replayed (trade : TradeRow Timestamp)
  | keyReused
  | notFound
  | alreadyExecuted
  | expired
  | insufficient (currency : String)
  | overflow
  | filled (quote : QuoteRow Timestamp)

/-- What the client has of the currency it receives, after the trade. -/
def Database.credited (db : Database) (q : QuoteRow Timestamp) : Int :=
  db.available q.clientId q.creditCurrency -
    (if q.creditCurrency = q.debitCurrency then q.debitAmount else 0) + q.creditAmount

/-- How far a quote's money goes: the debit is not covered, the credit leaves the range of its
column, or the quote is filled. -/
def fundedOutcome (db : Database) (q : QuoteRow Timestamp) : TradeOutcome :=
  if db.available q.clientId q.debitCurrency < q.debitAmount then .insufficient q.debitCurrency
  else if 9223372036854775807 < db.credited q then .overflow
  else .filled q

/-- Which outcome a call comes to when the clock reads `now`: key first, then whether the quote is
there and the client's, its status, its time, and its money. -/
def tradeOutcome (db : Database) (clientId quoteId : Uuid) (idempotencyKey : String) (now : Int) :
    TradeOutcome :=
  match db.tradeByKey? clientId idempotencyKey with
  | some trade => if trade.quoteId = quoteId then .replayed trade else .keyReused
  | none =>
    match db.quote? quoteId with
    | none => .notFound
    | some q =>
      if q.clientId ≠ clientId then .notFound
      else if q.status = .EXECUTED then .alreadyExecuted
      else if now ≥ q.load.expiresAt.ms then .expired
      else fundedOutcome db q

/-- The row is a balance that the quote moves. -/
def QuoteRow.IsLeg (q : QuoteRow Timestamp) (b : BalanceRow) : Prop :=
  b.clientId = q.clientId ∧ (b.currency = q.debitCurrency ∨ b.currency = q.creditCurrency)

instance (q : QuoteRow Timestamp) : DecidablePred q.IsLeg := fun b =>
  inferInstanceAs (Decidable (b.clientId = q.clientId ∧ _))

/-- What a trade changes, and that it changes nothing else: one trade, two entries, two balances,
the status of the quote. -/
structure Filled (db : Database) (q : QuoteRow Timestamp) (trade : TradeRow Timestamp)
    (db' : Database) : Prop where
  clients : db'.clients = db.clients
  quotes : db'.quotes =
    db.quotes.map fun x => if x.id = q.id then { x with status := .EXECUTED } else x
  trades : db'.trades = db.trades ++ [trade]
  ledgerEntries :
    db'.ledgerEntries = db.ledgerEntries ++ [q.debitEntry trade.id, q.creditEntry trade.id]
  others : db'.balances.filter (¬ q.IsLeg ·) = db.balances.filter (¬ q.IsLeg ·)
  unique : (db'.balances.map fun b => (b.clientId, b.currency)).Nodup
  rows : ∀ currency, currency = q.debitCurrency ∨ currency = q.creditCurrency →
    (db'.balance? q.clientId currency).isSome
  available : ∀ clientId currency, db'.available clientId currency =
    db.available clientId currency -
      (if clientId = q.clientId ∧ currency = q.debitCurrency then q.debitAmount else 0) +
      (if clientId = q.clientId ∧ currency = q.creditCurrency then q.creditAmount else 0)

/-- The answer and the tables of an outcome. For every outcome but one the tables are those there
were. -/
def TradeOutcome.Shows [DecimalJs] (db : Database) (quoteId : Uuid) (idempotencyKey : String)
    (r : Except JsError Response) (db' : Database) : TradeOutcome → Prop
  | .replayed trade => r = .ok (.trade ⟨toTradeResponse trade.load, true⟩) ∧ db' = db
  | .keyReused => r = .error (.conflictException
      "Idempotency-Key was already used to execute a different quote") ∧ db' = db
  | .notFound => r = .error (.notFoundException s!"Quote \"{quoteId.text}\" not found") ∧ db' = db
  | .alreadyExecuted => r = .error (.conflictException
      s!"Quote \"{quoteId.text}\" has already been executed") ∧ db' = db
  | .expired => r = .error (.goneException s!"Quote \"{quoteId.text}\" has expired") ∧ db' = db
  | .insufficient currency => r = .error (.unprocessableEntityException
      s!"Insufficient {currency} balance for client") ∧ db' = db
  | .overflow => r = .error numericValueOutOfRange ∧ db' = db
  | .filled q => ∃ tradeId createdAt,
    r = .ok (.trade ⟨toTradeResponse (q.trade tradeId idempotencyKey createdAt).load, false⟩) ∧
      Filled db q (q.trade tradeId idempotencyKey createdAt) db'

/-! ## The parts of the transaction -/

section
variable {A : Choice → Prop} {st : Timestamp} {c : Uuid} {d : Database} {α : Type}
  {Q : Except JsError α → Database → Prop}

/-- A statement that succeeds, and what follows it. -/
theorem settles_ok {s : Stmt} {r : StmtRes s} {w : List Write} {f : StmtRes s → App α}
    (hx : exec st d s = .ok (r, w)) (h : Prog.Settles (B := backend) A st Q (d.after w) (f r)) :
    Prog.Settles (B := backend) A st Q d ((App.query s).bind f) :=
  Prog.settles_query (fun _ => hx) h

/-- A statement that fails. -/
theorem settles_error {s : Stmt} {e : JsError} {f : StmtRes s → App α}
    (hx : exec st d s = .error e) (h : Q (.error e) d) :
    Prog.Settles (B := backend) A st Q d ((App.query s).bind f) :=
  Prog.settles_query_error (fun _ => hx) h

/-- Making sure of balances, with nobody else at work: those that are missing are inserted. -/
theorem ensureBalances_settles (xs : List String) (hc : (d.client? c).isSome) :
    Prog.Settles (B := backend) A st
      (fun r d' => r = .ok PUnit.unit ∧ d' = d.ensureBalances c xs) d
      (xs.forM fun currency => App.query (.insertBalanceIfAbsent c currency 0)) := by
  induction xs generalizing d with
  | nil => exact ⟨rfl, rfl⟩
  | cons cur xs ih =>
    cases hb : d.balance? c cur with
    | some b =>
      have hsome : (d.balance? c cur).isSome := by rw [hb]; rfl
      refine settles_ok (r := ()) (w := []) (exec_insertBalanceIfAbsent.mpr
        ⟨by decide, .inl ⟨hsome, rfl⟩⟩) ((ih hc).mono fun r d' hr => ⟨hr.1, ?_⟩)
      rw [hr.2]
      change d.ensureBalances c xs = (d.ensureBalance c cur).ensureBalances c xs
      rw [d.ensureBalance_of_isSome c hsome]
    | none =>
      have hc' : (((Write.balance ⟨c, cur, 0⟩).apply d).client? c).isSome := hc
      refine settles_ok (r := ()) (exec_insertBalanceIfAbsent.mpr ⟨by decide, .inr ⟨hb, hc, rfl⟩⟩)
        ((ih hc').mono fun r d' hr => ⟨hr.1, ?_⟩)
      rw [hr.2]
      change _ = (d.ensureBalance c cur).ensureBalances c xs
      rw [d.ensureBalance_of_none c hb]

/-- Locking balances, with nobody else at work: nothing is written. -/
theorem lockBalances_settles (xs : List String) :
    Prog.Settles (B := backend) A st (fun r d' => r = .ok PUnit.unit ∧ d' = d) d
      (xs.forM fun currency => do let _ ← App.query (.lockBalance c currency)) := by
  induction xs with
  | nil => exact ⟨rfl, rfl⟩
  | cons cur xs ih =>
    refine Prog.settles_bind (settles_ok (r := d.balance? c cur) (w := []) ?_ ?_)
    · exact exec_lockBalance.mpr ⟨rfl, rfl⟩
    · exact ih

/-- `lockBalanceRows`, with nobody else at work: afterwards there is a balance in each of the
currencies. -/
theorem lockBalanceRows_settles (xs : List String) (hc : (d.client? c).isSome) :
    (LedgerService.lockBalanceRows c xs).Settles (B := backend) A st
      (fun r d' => r = .ok ⟨c, LedgerService.uniqueCurrencies xs⟩ ∧
        d' = d.ensureBalances c (LedgerService.uniqueCurrencies xs)) d := by
  unfold LedgerService.lockBalanceRows
  refine Prog.settles_bind ((ensureBalances_settles _ hc).mono ?_)
  rintro _ d' ⟨rfl, rfl⟩
  refine Prog.settles_bind ((lockBalances_settles _).mono ?_)
  rintro _ d' ⟨rfl, rfl⟩
  exact ⟨rfl, rfl⟩

/-- A row that is there holds what is available. -/
theorem available_of_isSome {cur : String} (h : (d.balance? c cur).isSome) :
    ∃ b, d.balance? c cur = some b ∧ b.availableMinor = d.available c cur := by
  obtain ⟨b, hb⟩ := Option.isSome_iff_exists.mp h
  exact ⟨b, hb, by simp [Database.available, hb]⟩

theorem isSome_balance?_postEntry {e : LedgerEntryRow} {cur : String}
    (h : (d.balance? c cur).isSome) : ((d.postEntry e).balance? c cur).isSome := by
  have hmap := d.balance?_postEntry e c cur
  rw [← Option.isSome_map, hmap]
  split
  · rfl
  · rwa [Option.isSome_map]

section
variable {xs : List String} {cur refType : String} {n : Int} {reason : LedgerReason} {refId : Uuid}
  (covers : cur ∈ xs) (there : (d.balance? c cur).isSome) (client : (d.client? c).isSome)
  (amount : inBigint n) (pos : 0 < n) (lower : 0 ≤ d.available c cur)
include covers there client amount pos lower

/-- `debit` takes the amount if the balance covers it, and otherwise throws that there is too
little. -/
theorem debit_settles (upper : d.available c cur ≤ 9223372036854775807) :
    (LedgerService.debit ⟨c, xs⟩ ⟨c, cur, n, reason, refType, refId⟩).Settles (B := backend) A st
      (fun r d' => if d.available c cur < n then
          r = .error (.unprocessableEntityException s!"Insufficient {cur} balance for client")
        else r = .ok () ∧ d' = d.postEntry ⟨c, cur, -n, reason, refType, refId⟩) d := by
  obtain ⟨b, hb, hbd⟩ := available_of_isSome there
  rw [← hbd] at lower upper ⊢
  unfold LedgerService.debit
  rw [assertCovers_ok covers]
  have hamount := amount
  simp only [inBigint, Bool.and_eq_true, decide_eq_true_eq] at hamount
  by_cases hlt : b.availableMinor < n
  · refine settles_ok (r := none) (w := []) ?_ ?_
    · refine exec_debitBalance.mpr ⟨amount, .inl ⟨fun b' hb' => ?_, rfl, rfl⟩⟩
      cases hb.symm.trans hb'
      exact hlt
    · change if _ then _ else _
      rw [if_pos hlt]
  · have hleft : inBigint (b.availableMinor - n) := by
      simp only [inBigint, Bool.and_eq_true, decide_eq_true_eq]
      omega
    have hdelta : inBigint (-n) := by
      simp only [inBigint, Bool.and_eq_true, decide_eq_true_eq]
      omega
    refine settles_ok (exec_debitBalance.mpr ⟨amount, .inr ⟨b, hb, Int.not_lt.mp hlt, hleft, rfl,
      rfl⟩⟩) (settles_ok (r := ()) (f := fun u => .done (.ok u)) (exec_insertLedgerEntry.mpr
        ⟨hdelta, client, rfl⟩) ?_)
    change if _ then _ else _
    rw [if_neg hlt, Database.postEntry, hb]
    exact ⟨rfl, rfl⟩

/-- `credit` adds the amount if the balance stays a bigint, and otherwise throws what Postgres says
to that. -/
theorem credit_settles :
    (LedgerService.credit ⟨c, xs⟩ ⟨c, cur, n, reason, refType, refId⟩).Settles (B := backend) A st
      (fun r d' => if 9223372036854775807 < d.available c cur + n then
          r = .error numericValueOutOfRange
        else r = .ok () ∧ d' = d.postEntry ⟨c, cur, n, reason, refType, refId⟩) d := by
  obtain ⟨b, hb, hbd⟩ := available_of_isSome there
  rw [← hbd] at lower ⊢
  unfold LedgerService.credit
  rw [assertCovers_ok covers]
  by_cases hlt : 9223372036854775807 < b.availableMinor + n
  · have hover : inBigint (b.availableMinor + n) = false := by
      simp only [inBigint, Bool.and_eq_false_iff, decide_eq_false_iff_not]
      omega
    refine settles_error (e := numericValueOutOfRange) ?_ ?_
    · simp only [exec, amount, hb, hover]
      rfl
    · change if _ then _ else _
      rw [if_pos hlt]
  · have hsum : inBigint (b.availableMinor + n) := by
      simp only [inBigint, Bool.and_eq_true, decide_eq_true_eq]
      omega
    refine settles_ok (r := ()) (exec_creditBalance.mpr ⟨amount, .inr ⟨b, hb, hsum, rfl⟩⟩)
      (settles_ok (r := ()) (f := fun u => .done (.ok u)) (exec_insertLedgerEntry.mpr
        ⟨amount, client, rfl⟩) ?_)
    change if _ then _ else _
    rw [if_neg hlt, Database.postEntry, hb]
    exact ⟨rfl, rfl⟩

end

end

/-! ## Filling -/

section
variable {db : Database} {q : QuoteRow Timestamp} {st : Timestamp} {key : String}

/-- What `executeWithinTransaction` does with a quote that it has found in time. It is split off so
that each part is walked through once. -/
def fillBody (clientId : Uuid) (quote : QuoteRow Date) (idempotencyKey : String) :
    App (TradeRow Date) := do
  let lock ← LedgerService.lockBalanceRows clientId [quote.debitCurrency, quote.creditCurrency]
  let tradeId ← App.uuidv4
  LedgerService.debit lock
    { clientId, currency := quote.debitCurrency, amountMinor := quote.debitAmount
      reason := .TRADE, refType := "TRADE", refId := tradeId }
  LedgerService.credit lock
    { clientId, currency := quote.creditCurrency, amountMinor := quote.creditAmount
      reason := .TRADE, refType := "TRADE", refId := tradeId }
  let trade : TradeRow Date ← App.query
    (.insertTrade (quote.tradeValues clientId tradeId idempotencyKey))
  App.query (.setQuoteExecuted quote.id)
  return trade

/-- What is available is in the range of a bigint. -/
theorem Constrained.available_le (h : Constrained db) (c : Uuid) (cur : String) :
    db.available c cur ≤ 9223372036854775807 := by
  unfold Database.available
  cases hb : db.balance? c cur with
  | none => decide
  | some b =>
    have := h.balances b (List.mem_of_find?_eq_some hb)
    simp only [inBigint, Bool.and_eq_true, decide_eq_true_eq] at this
    exact this.2

/-- The legs of a stored quote are in the range of a bigint, being its amounts. -/
theorem Constrained.legs (h : Constrained db) (hq : q ∈ db.quotes) :
    inBigint q.debitAmount ∧ inBigint q.creditAmount := by
  unfold QuoteRow.debitAmount QuoteRow.creditAmount
  cases q.side with
  | BUY => exact (h.amounts q hq).symm
  | SELL => exact h.amounts q hq

/-- What the credited account holds once the debit is posted, if it is covered. The two accounts
are the same where the currencies are. -/
theorem available_debited {d : Database} (accounts : Accounts db)
    (havailable : ∀ cur, d.available q.clientId cur = db.available q.clientId cur)
    (covered : q.debitAmount ≤ db.available q.clientId q.debitCurrency) (tradeId : Uuid) :
    (d.postEntry (q.debitEntry tradeId)).available q.clientId q.creditCurrency + q.creditAmount =
        db.credited q ∧
      0 ≤ (d.postEntry (q.debitEntry tradeId)).available q.clientId q.creditCurrency := by
  have hnonneg := accounts.available_nonneg q.clientId q.creditCurrency
  rw [Database.available_postEntry, havailable, Database.credited]
  by_cases hsame : q.creditCurrency = q.debitCurrency
  · rw [hsame] at hnonneg ⊢
    constructor <;> simp [QuoteRow.debitEntry] <;> omega
  · constructor <;> simp [QuoteRow.debitEntry, hsame, hnonneg]

/-- The transaction goes as far as the quote's money: each way of ending is the one that
`fundedOutcome` names. -/
theorem fillBody_settles (accounts : Accounts db) (records : Records db) (priced : Priced db)
    (constrained : Constrained db) (found : db.quote? q.id = some q) (active : q.status = .ACTIVE)
    (free : db.tradeByKey? q.clientId key = none) :
    Prog.Settles (B := backend) (fun χ => db.trade? χ.uuid = none) st
      (fun r d' => match fundedOutcome db q with
        | .insufficient currency => r = .error (.unprocessableEntityException
            s!"Insufficient {currency} balance for client")
        | .overflow => r = .error numericValueOutOfRange
        | _ => ∃ tradeId, r = .ok (q.trade tradeId key st).load ∧
            d' = (Effect.trade q tradeId key st).apply db) db
      (fillBody q.clientId q.load key) := by
  have hq := (mem_of_quote? found).1
  have hclient := constrained.owners q hq
  obtain ⟨hdebit, hcredit⟩ := debitAmount_pos priced hq
  obtain ⟨hdebit', hcredit'⟩ := constrained.legs hq
  unfold fillBody
  refine Prog.settles_bind ((lockBalanceRows_settles _ hclient).mono ?_)
  rintro _ d ⟨rfl, hd⟩
  have hd : d = db.ensureBalances q.clientId q.currencies := hd
  refine Prog.settles_bind (p := App.uuidv4) fun χ _ hfresh => ?_
  have havailable : ∀ cur, d.available q.clientId cur = db.available q.clientId cur := fun cur => by
    rw [hd, Database.available_ensureBalances]
  have hthere : ∀ cur ∈ q.currencies, (d.balance? q.clientId cur).isSome := fun cur hcur => by
    rw [hd, Database.isSome_balance?_ensureBalances]
    simp [hcur]
  have hclient' : (d.client? q.clientId).isSome := by
    rw [hd]
    simpa [Database.client?] using hclient
  refine Prog.settles_bind ((debit_settles (mem_currencies q).1
    (hthere _ (mem_currencies q).1) hclient'
    hdebit' hdebit (havailable _ ▸ accounts.available_nonneg _ _)
    (havailable _ ▸ constrained.available_le _ _)).mono fun r d₂ hr => ?_)
  rw [havailable] at hr
  by_cases hlow : db.available q.clientId q.debitCurrency < q.debitAmount
  · rw [if_pos hlow] at hr
    subst hr
    rw [fundedOutcome, if_pos hlow]
  rw [if_neg hlow] at hr
  obtain ⟨rfl, hd₂⟩ := hr
  have hd₂ : d₂ = d.postEntry (q.debitEntry χ.uuid) := hd₂
  obtain ⟨hcredited, hlower⟩ : d₂.available q.clientId q.creditCurrency + q.creditAmount =
      db.credited q ∧ 0 ≤ d₂.available q.clientId q.creditCurrency :=
    hd₂ ▸ available_debited accounts havailable (not_lt.mp hlow) χ.uuid
  refine Prog.settles_bind ((credit_settles (mem_currencies q).2
    (hd₂ ▸ isSome_balance?_postEntry (hthere _ (mem_currencies q).2))
    (by rw [hd₂]; simpa [Database.client?] using hclient') hcredit' hcredit hlower).mono
      fun r d₃ hr => ?_)
  have hr : if 9223372036854775807 < d₂.available q.clientId q.creditCurrency + q.creditAmount then
      r = .error numericValueOutOfRange
    else r = .ok () ∧ d₃ = d₂.postEntry (q.creditEntry χ.uuid) := hr
  rw [hcredited] at hr
  by_cases hhigh : 9223372036854775807 < db.credited q
  · rw [if_pos hhigh] at hr
    subst hr
    rw [fundedOutcome, if_neg hlow, if_pos hhigh]
  rw [if_neg hhigh] at hr
  obtain ⟨rfl, hd₃⟩ := hr
  rw [fundedOutcome, if_neg hlow, if_neg hhigh]
  -- the records
  have htrades : d₃.trades = db.trades := by rw [hd₃, hd₂, hd]; simp
  have hquotes : d₃.quotes = db.quotes := by rw [hd₃, hd₂, hd]; simp
  have hclients : d₃.clients = db.clients := by rw [hd₃, hd₂, hd]; simp
  have huntraded : d₃.tradeOfQuote? q.id = none := by
    rw [Database.tradeOfQuote?, htrades]
    exact List.find?_eq_none.mpr fun t ht => by simpa using records.not_traded hq active t ht
  obtain ⟨hbase, hquote⟩ := constrained.amounts q hq
  refine settles_ok (exec_insertTrade.mpr ⟨hbase, hquote, ?_, huntraded, ?_, ?_, ?_, rfl, rfl⟩) ?_
  · rw [Database.trade?, htrades]
    exact hfresh
  · rw [Database.tradeByKey?, htrades]
    exact free
  · rw [Database.client?, hclients]
    exact hclient
  · rw [Database.quote?, hquotes]
    exact Option.isSome_iff_exists.mpr ⟨q, found⟩
  refine settles_ok (r := ()) (exec_setQuoteExecuted.mpr rfl) ⟨χ.uuid, rfl, ?_⟩
  rw [hd₃, hd₂, hd]
  rfl

/-! ## What a filled trade changes -/

/-- A filter that a map leaves alone. -/
theorem filter_map_of_keeps {ρ : Type} {p : ρ → Bool} {f : ρ → ρ} (hp : ∀ a, p (f a) = p a)
    (hf : ∀ a, p a → f a = a) (l : List ρ) : (l.map f).filter p = l.filter p := by
  rw [List.filter_map, show p ∘ f = p from funext hp]
  exact (List.map_congr_left fun a ha => hf a (List.mem_filter.mp ha).2).trans (List.map_id _)

/-- A balance in one of a quote's currencies is none of the others. -/
theorem filter_ensureBalance {d : Database} {cur : String}
    (h : cur = q.debitCurrency ∨ cur = q.creditCurrency) :
    (d.ensureBalance q.clientId cur).balances.filter (¬ q.IsLeg ·) =
      d.balances.filter (¬ q.IsLeg ·) := by
  unfold Database.ensureBalance
  split
  · simpa [Write.apply, QuoteRow.IsLeg] using h.resolve_left
  · rfl

/-- The currencies of a quote are that of its debit and that of its credit. -/
theorem mem_currencies_iff {cur : String} :
    cur ∈ q.currencies ↔ cur = q.debitCurrency ∨ cur = q.creditCurrency := by
  simp [QuoteRow.currencies, LedgerService.uniqueCurrencies, List.mem_eraseDups]

/-- Balances in a quote's currencies are none of the others. -/
theorem filter_ensureBalances {xs : List String}
    (h : ∀ cur ∈ xs, cur = q.debitCurrency ∨ cur = q.creditCurrency) :
    (db.ensureBalances q.clientId xs).balances.filter (¬ q.IsLeg ·) =
      db.balances.filter (¬ q.IsLeg ·) := by
  induction xs generalizing db with
  | nil => rfl
  | cons cur xs ih =>
    exact (ih fun cur' hcur' => h cur' (.tail _ hcur')).trans
      (filter_ensureBalance (h cur (.head _)))

/-- An entry in one of a quote's currencies leaves the other balances as they are. -/
theorem filter_postEntry {d : Database} {e : LedgerEntryRow} (hc : e.clientId = q.clientId)
    (h : e.currency = q.debitCurrency ∨ e.currency = q.creditCurrency) :
    (d.postEntry e).balances.filter (¬ q.IsLeg ·) = d.balances.filter (¬ q.IsLeg ·) := by
  unfold Database.postEntry
  split
  · simpa [Write.apply, QuoteRow.IsLeg, hc] using h.resolve_left
  · refine filter_map_of_keeps (fun b => ?_) (fun b hb => ?_) d.balances
    · split <;> rfl
    · refine if_neg fun hkey => ?_
      simp only [decide_eq_true_eq] at hb
      exact hb ⟨hkey.1.trans hc, by rwa [hkey.2]⟩

/-- The effect of a trade is what `FILLED` promises, table by table: the rows it adds or changes,
and that all others stay. -/
theorem filled_trade (accounts : Accounts db) {tradeId : Uuid}
    (hcovers : q.debitAmount ≤ db.available q.clientId q.debitCurrency)
    (hcredit : 0 ≤ q.creditAmount) :
    Filled db q (q.trade tradeId key st) ((Effect.trade q tradeId key st).apply db) where
  clients := by simp [Effect.apply, Write.apply]
  quotes := quotes_trade
  trades := trades_trade
  ledgerEntries := ledgerEntries_trade
  others := by
    change ((((db.ensureBalances q.clientId q.currencies).postEntry
      (q.debitEntry tradeId)).postEntry
      (q.creditEntry tradeId)).balances.filter _) = _
    rw [filter_postEntry rfl (.inr rfl), filter_postEntry rfl (.inl rfl),
      filter_ensureBalances fun _ => mem_currencies_iff.mp]
  unique := (accounts.trade hcovers hcredit).unique
  rows := fun cur hcur => by
    refine isSome_balance?_postEntry (isSome_balance?_postEntry ?_)
    rw [Database.isSome_balance?_ensureBalances]
    simp [mem_currencies_iff.mpr hcur]
  available := fun c cur => by
    change (((db.ensureBalances q.clientId q.currencies).postEntry (q.debitEntry tradeId)).postEntry
      (q.creditEntry tradeId)).available c cur = _
    rw [Database.available_postEntry, Database.available_postEntry,
      Database.available_ensureBalances]
    change db.available c cur +
      (if c = q.clientId ∧ cur = q.debitCurrency then -q.debitAmount else 0) +
      (if c = q.clientId ∧ cur = q.creditCurrency then q.creditAmount else 0) = _
    by_cases hdebit : c = q.clientId ∧ cur = q.debitCurrency
    · rw [if_pos hdebit, if_pos hdebit, Int.sub_eq_add_neg]
    · rw [if_neg hdebit, if_neg hdebit, Int.sub_zero, Int.add_zero]

end

/-! ## The call -/

section
variable [DecimalJs] {db : Database} {c quoteId : Uuid} {rawKey : String}

/-- How a call goes on from its transaction. -/
def answerTrade (id : String) : Except JsError (TradeRow Date) → App Response
  | .error error => Prog.fail error
  | .ok row => do
    QuotingService.invalidateCache id
    return .trade ⟨toTradeResponse row, false⟩

/-- A call whose key is free, from its transaction on. -/
theorem runCalm_executeTrade_free {id : String} (free : db.tradeByKey? c (trim rawKey) = none)
    (τ : Nat → Turn backend) (e : Surroundings) :
    (program (.executeTrade c ⟨id⟩ rawKey)).runCalm τ ⟨db, e, none⟩ =
      ((Prog.transaction (TradingService.executeWithinTransaction c id (trim rawKey))).attempt.bind
        (answerTrade id)).runCalm (fun n => τ (n + 1)) ⟨db, (τ 0).env e, none⟩ := by
  have hp : program (.executeTrade c ⟨id⟩ rawKey) =
      (App.query (.selectTradeByKey c (trim rawKey))).bind fun existing => existing.elim
        ((Prog.transaction
          (TradingService.executeWithinTransaction c id (trim rawKey))).attempt.bind
            (answerTrade id))
        fun existing => (App.ofExcept (TradingService.replayOrConflict existing id)).bind fun r =>
          pure (.trade r) := by
    refine (Prog.bind_assoc _ _ _).trans (congrArg _ (funext fun existing => ?_))
    cases existing with
    | some existing => rfl
    | none =>
      refine (Prog.bind_assoc _ _ _).trans (congrArg _ (funext fun row => ?_))
      cases row with
      | error error => rfl
      | ok row => exact Prog.bind_assoc _ _ _
  rw [hp, Prog.runCalm, App.query, Prog.run_query_bind rfl]
  simp only [exec, free]
  rfl

/-- A transaction that fails leaves the tables alone. -/
theorem runCalm_refused (id : String) (x : JsError) (τ : Nat → Turn backend) (e : Surroundings)
    (tx : Tx backend) :
    ((Prog.fail x).attempt.bind (Prog.ending (answerTrade id))).runCalm τ ⟨db, e, some tx⟩ =
      (.error x, ⟨db, (τ 0).env e, none⟩) := by
  simp [Prog.runCalm, Prog.fail, Prog.attempt, Prog.ending, Prog.undo, Prog.run, answerTrade]

/-- Whatever becomes of the cached quote, a committed trade is answered. -/
theorem runCalm_answerTrade (db : Database) (id : String) (row : TradeRow Date)
    (τ : Nat → Turn backend)
    (e : Surroundings) : ∃ e', (answerTrade id (.ok row)).runCalm τ ⟨db, e, none⟩ =
      (.ok (.trade ⟨toTradeResponse row, false⟩), ⟨db, e', none⟩) := by
  refine ⟨(backend.answer (.redisDel (quoteCacheKey id)) (τ 0).choice ((τ 0).env e)).2, ?_⟩
  simp only [answerTrade, QuotingService.invalidateCache, RedisService.del, RedisService.failSoft,
    App.request, Prog.request, Prog.attempt, Prog.bind_eq, Prog.bind_ext, Prog.runCalm, Prog.run,
    Bool.and_false, Bool.false_eq_true, if_false]
  cases (backend.answer (.redisDel (quoteCacheKey id)) (τ 0).choice ((τ 0).env e)).1 <;> rfl

/-- The rest of the transaction, once the quote is found in time, ends with the answer and the
tables of `fundedOutcome`. -/
theorem fillBody_shows {q : QuoteRow Timestamp} {key : String} (accounts : Accounts db)
    (records : Records db) (priced : Priced db) (constrained : Constrained db)
    (found : db.quote? q.id = some q) (active : q.status = .ACTIVE)
    (free : db.tradeByKey? q.clientId key = none) {τ : Nat → Turn backend}
    (fresh : ∀ n, db.trade? (τ n).choice.uuid = none) {e : Surroundings} {L : List Resource}
    {st : Timestamp} {r : Except JsError Response × World backend}
    (hr : ((fillBody q.clientId q.load key).attempt.bind
      (Prog.ending (answerTrade q.id.text))).runCalm τ ⟨db, e, some ⟨[], L, st⟩⟩ = r) :
    (fundedOutcome db q).Shows db q.id key r.1 r.2.data := by
  obtain ⟨τ', e', x, d', hx, hrun⟩ := (fillBody_settles accounts records priced constrained found
    active free).run_ending (answerTrade q.id.text) (e := e) (L := L) fresh
      (show backend.applyAll [] db = db from rfl)
  obtain rfl := hr.symm.trans hrun
  unfold fundedOutcome at hx ⊢
  by_cases hlow : db.available q.clientId q.debitCurrency < q.debitAmount
  · rw [if_pos hlow] at hx ⊢
    obtain rfl := hx
    exact ⟨rfl, rfl⟩
  rw [if_neg hlow] at hx ⊢
  by_cases hhigh : 9223372036854775807 < db.credited q
  · rw [if_pos hhigh] at hx ⊢
    obtain rfl := hx
    exact ⟨rfl, rfl⟩
  rw [if_neg hhigh] at hx ⊢
  obtain ⟨tradeId, rfl, rfl⟩ := hx
  obtain ⟨e₁, hanswer⟩ := runCalm_answerTrade ((Effect.trade q tradeId key st).apply db) q.id.text
    (q.trade tradeId key st).load τ' e'
  have hanswer : (answerTrade q.id.text (.ok (q.trade tradeId key st).load)).runCalm τ'
      ⟨if (Except.ok (q.trade tradeId key st).load : Except JsError (TradeRow Date)).toBool then
        (Effect.trade q tradeId key st).apply db else db, e', none⟩ = _ := hanswer
  rw [hanswer]
  exact ⟨tradeId, st, rfl, filled_trade accounts (Int.not_lt.mp hlow)
    (debitAmount_pos priced (mem_of_quote? found).1).2.le⟩

/-- The transaction of a call whose key is free ends as `tradeOutcome` says. Whether the quote is
found, whose and how old it is, is decided before anything is written. -/
theorem transaction_shows (accounts : Accounts db) (records : Records db) (priced : Priced db)
    (constrained : Constrained db) (free : db.tradeByKey? c (trim rawKey) = none)
    {τ : Nat → Turn backend} (fresh : ∀ n, db.trade? (τ n).choice.uuid = none) {e : Surroundings}
    {r : Except JsError Response × World backend}
    (hr : ((Prog.transaction (TradingService.executeWithinTransaction c quoteId.text
      (trim rawKey))).attempt.bind (answerTrade quoteId.text)).runCalm τ ⟨db, e, none⟩ = r) :
    (tradeOutcome db c quoteId (trim rawKey) (Turn.after τ 3 e).dateNow).Shows db quoteId
      (trim rawKey)
      r.1 r.2.data := by
  have hlock : exec ((τ 0).env e).now db (.selectQuoteForUpdate quoteId.text) =
      .ok ((db.quote? quoteId).map QuoteRow.load, []) :=
    exec_selectQuoteForUpdate.mpr ⟨quoteId, Uuid.ofText?_text _, rfl, rfl⟩
  have hlock : backend.exec (.selectQuoteForUpdate quoteId.text) (τ 1).choice
      (backend.stamp ((τ 0).env e)) (backend.applyAll [] db) = _ := hlock
  rw [Prog.transaction_attempt, Prog.runCalm_begin] at hr
  unfold TradingService.executeWithinTransaction at hr
  rw [Prog.bind_eq, App.query, Prog.runCalm_query, hlock] at hr
  simp only [tradeOutcome, free]
  cases hq : db.quote? quoteId with
  | none =>
    rw [hq] at hr
    obtain rfl := hr.symm.trans (runCalm_refused _ _ _ _ _)
    exact ⟨rfl, rfl⟩
  | some q =>
    rw [hq] at hr
    change TradeOutcome.Shows _ _ _ _ _ (if q.clientId ≠ c then _ else _)
    simp only [Option.map_some] at hr
    by_cases howned : q.clientId = c
    swap
    · rw [if_pos howned]
      rw [show assertOwnedByClient QuoteRow.clientId (some q.load) c _ = .error _ from
        if_pos howned] at hr
      obtain rfl := hr.symm.trans (runCalm_refused _ _ _ _ _)
      exact ⟨rfl, rfl⟩
    rw [show assertOwnedByClient QuoteRow.clientId (some q.load) c _ = .ok q.load from
      if_neg (not_not_intro howned)] at hr
    rw [if_neg (not_not_intro howned)]
    change _ = r at hr
    rw [App.ofExcept, Prog.bind_eq, Prog.bind_ok] at hr
    by_cases hexecuted : q.status = .EXECUTED
    · rw [if_pos hexecuted]
      rw [if_pos (show q.load.status = _ from hexecuted)] at hr
      obtain rfl := hr.symm.trans (runCalm_refused _ _ _ _ _)
      exact ⟨rfl, rfl⟩
    rw [if_neg hexecuted]
    have hnow : (backend.answer .dateNow (τ 2).choice ((τ 2).env ((τ 1).env ((τ 0).env e)))).1 =
      .ok (Turn.after τ 3 e).dateNow := rfl
    rw [if_neg (show ¬ q.load.status = _ from hexecuted), Prog.bind_eq, App.dateNow, App.request,
      Prog.runCalm_request, hnow, Prog.bind_ok] at hr
    by_cases hlate : (Turn.after τ 3 e).dateNow ≥ q.load.expiresAt.ms
    · rw [if_pos hlate] at hr ⊢
      obtain rfl := hr.symm.trans (runCalm_refused _ _ _ _ _)
      exact ⟨rfl, rfl⟩
    rw [if_neg hlate] at hr ⊢
    have hid : q.id = quoteId := (mem_of_quote? hq).2
    subst howned hid
    have hactive : q.status = .ACTIVE := by
      cases hs : q.status with
      | ACTIVE => rfl
      | EXECUTED => exact absurd hs hexecuted
    exact fillBody_shows accounts records priced constrained hq hactive free
      (fun n => fresh (n + 3)) hr

/-- **What a trade comes to.** Alone, a call answers what its outcome says and changes the tables
only if it is filled; a quote of the client is shown as ACTIVE if it is neither executed nor
expired. -/
theorem executeTrade_outcome (accounts : Accounts db) (records : Records db) (priced : Priced db)
    (constrained : Constrained db) {τ : Nat → Turn backend}
    (fresh : ∀ n, db.trade? (τ n).choice.uuid = none) (e : Surroundings) :
    let now := (Turn.after τ 4 e).dateNow
    let run := (program (.executeTrade c ⟨quoteId.text⟩ rawKey)).runCalm τ ⟨db, e, none⟩
    (tradeOutcome db c quoteId (trim rawKey) now).Shows db quoteId (trim rawKey) run.1 run.2.data ∧
      ∀ q, db.quote? quoteId = some q → q.clientId = c →
        ((toQuoteResponse now q.load).status = .ACTIVE ↔
          q.status ≠ .EXECUTED ∧ ¬ now ≥ q.load.expiresAt.ms) := by
  refine ⟨?_, fun q _ _ => ?_⟩
  · cases found : db.tradeByKey? c (trim rawKey) with
    | none =>
      exact transaction_shows accounts records priced constrained found (fun n => fresh (n + 1))
        (runCalm_executeTrade_free found τ e).symm
    | some trade =>
      rw [Prog.runCalm, run_executeTrade_found found, tradeOutcome, found,
        TradingService.replayOrConflict]
      change TradeOutcome.Shows _ _ _ _ _ (if trade.quoteId = quoteId then _ else _)
      by_cases hid : trade.quoteId = quoteId
      · have hsame : ¬ trade.load.quoteId.text ≠ quoteId.text := fun h => h (congrArg Uuid.text hid)
        rw [if_pos hid, if_neg hsame]
        exact ⟨rfl, rfl⟩
      · have hother : trade.load.quoteId.text ≠ quoteId.text := fun h => hid (Uuid.ext h)
        rw [if_neg hid, if_pos hother]
        exact ⟨rfl, rfl⟩
  · refine displayStatus_eq_active.trans (and_congr ?_ Int.not_le.symm)
    change q.status = _ ↔ _
    cases q.status <;> decide

end

section
open scoped Reference

/-- Alice's trade, when nothing disturbs it. -/
theorem executeTrade_outcome_filled :
    let db := (Sample.after (Sample.deposits ++ Sample.quotes)).data
    let now := (Turn.after Sample.calm 4 Sample.surroundings).dateNow
    let run := (program (.executeTrade Sample.alice ⟨Sample.quoteId.text⟩ "key")).runCalm
      Sample.calm ⟨db, Sample.surroundings, none⟩
    (tradeOutcome db Sample.alice Sample.quoteId (trim "key") now).Shows db Sample.quoteId
        (trim "key") run.1 run.2.data ∧
      ∀ q, db.quote? Sample.quoteId = some q → q.clientId = Sample.alice →
        ((toQuoteResponse now q.load).status = .ACTIVE ↔
          q.status ≠ .EXECUTED ∧ ¬ now ≥ q.load.expiresAt.ms) :=
  have reached : State.Reaches program (Sys.start Sample.clients Sample.surroundings)
      (Sample.after (Sample.deposits ++ Sample.quotes)) := Sample.reached (by decide +kernel)
  executeTrade_outcome (accounts_of_reaches reached) (records_of_reaches reached)
    ((later_of_reaches reached).2.keeps (priced_ofClients _) fun _ _ he hd => hd.effect he)
    ⟨by decide +kernel, by decide +kernel, by decide +kernel⟩
    (fun _ => show (Database.trade? _ Sample.tradeId) = none from by decide +kernel)
    Sample.surroundings

end

end MiniOpenFX
