import MiniOpenFX.Proof.Effects

/-!
# What holds of the tables

Three invariants that every effect keeps. `Accounts`: each account has one balance row, and it
holds the sum of the account's ledger entries, never less than nothing. `Priced`: amounts of quotes
are positive. `Records`: quotes, trades and the ledger entries of trades tell the same story, one
trade for each executed quote and two entries for each trade.
-/

namespace MiniOpenFX

open Js Bookkeeping

/-! ## The invariants -/

/-- Balances and ledger agree: one row for each client and currency at most, and in the book they
make up every balance is the sum of its entries and not negative. -/
structure Accounts (db : Database) : Prop where
  unique : (db.balances.map fun b => (b.clientId, b.currency)).Nodup
  book : db.book.Consistent

/-- Quotes are for something. -/
def Priced (db : Database) : Prop :=
  ∀ q ∈ db.quotes, 0 < q.baseAmountMinor ∧ 0 < q.quoteAmountMinor

/-- The trade copies the quote: its owner, its symbol and currencies, its side, amounts and price
are the quote's, so nothing of a trade is decided when it is executed. -/
structure TradeRow.Copies {τ : Type} (t : TradeRow τ) (q : QuoteRow τ) : Prop where
  quoteId : t.quoteId = q.id
  clientId : t.clientId = q.clientId
  symbol : t.symbol = q.symbol
  side : t.side = q.side
  baseCurrency : t.baseCurrency = q.baseCurrency
  quoteCurrency : t.quoteCurrency = q.quoteCurrency
  baseAmountMinor : t.baseAmountMinor = q.baseAmountMinor
  quoteAmountMinor : t.quoteAmountMinor = q.quoteAmountMinor
  price : t.price = q.price

/-- The entry of what the client owes for a trade. -/
def TradeRow.owed {τ : Type} (t : TradeRow τ) : LedgerEntryRow :=
  match t.side with
  | .BUY => ⟨t.clientId, t.quoteCurrency, -t.quoteAmountMinor, .TRADE, "TRADE", t.id⟩
  | .SELL => ⟨t.clientId, t.baseCurrency, -t.baseAmountMinor, .TRADE, "TRADE", t.id⟩

/-- The entry of what the client receives for a trade. -/
def TradeRow.received {τ : Type} (t : TradeRow τ) : LedgerEntryRow :=
  match t.side with
  | .BUY => ⟨t.clientId, t.baseCurrency, t.baseAmountMinor, .TRADE, "TRADE", t.id⟩
  | .SELL => ⟨t.clientId, t.quoteCurrency, t.quoteAmountMinor, .TRADE, "TRADE", t.id⟩

/-- The ledger entries of a trade. -/
def Database.tradeEntries (db : Database) (tradeId : Uuid) : List LedgerEntryRow :=
  db.ledgerEntries.filter fun e => e.reason = .TRADE ∧ e.refId = tradeId

/-- Quotes, trades and ledger agree: ids are distinct, a quote is executed just if it has a trade,
which copies it, and the entries of a trade are its two legs. -/
structure Records (db : Database) : Prop where
  quoteIds : (db.quotes.map QuoteRow.id).Nodup
  tradeIds : (db.trades.map TradeRow.id).Nodup
  tradeQuotes : (db.trades.map TradeRow.quoteId).Nodup
  tradeKeys : (db.trades.map fun t => (t.clientId, t.idempotencyKey)).Nodup
  executed : ∀ t ∈ db.trades, ∃ q ∈ db.quotes, q.status = .EXECUTED ∧ t.Copies q
  traded : ∀ q ∈ db.quotes, q.status = .EXECUTED → ∃ t ∈ db.trades, t.quoteId = q.id
  legs : ∀ t ∈ db.trades, db.tradeEntries t.id = [t.owed, t.received]
  explained : ∀ e ∈ db.ledgerEntries, e.reason = .TRADE → ∃ t ∈ db.trades, t.id = e.refId

/-! ## Rows by their keys -/

/-- A row of a table whose keys are distinct is found by its key: no other row can come first. -/
theorem find?_of_nodup {ρ κ : Type} [DecidableEq κ] {f : ρ → κ} {l : List ρ}
    (h : (l.map f).Nodup) {a : ρ} (ha : a ∈ l) : l.find? (fun b => f b = f a) = some a := by
  induction l with
  | nil => cases ha
  | cons b l ih =>
    obtain ⟨hb, hl⟩ := List.nodup_cons.mp h
    rcases List.mem_cons.mp ha with rfl | ha
    · simp
    · have : f b ≠ f a := fun he => hb (he ▸ List.mem_map_of_mem ha)
      rw [List.find?_cons_of_neg (by simpa using this)]
      exact ih hl ha

/-- Of the rows of a table whose keys are distinct, at most one has a given key. -/
theorem length_filter_le_one {ρ κ : Type} {f : ρ → κ} {l : List ρ} (h : (l.map f).Nodup) (k : κ)
    {p : ρ → Bool} (hp : ∀ a, p a → f a = k) : (l.filter p).length ≤ 1 := by
  have hall : (l.filter p).map f = List.replicate (l.filter p).length k := by
    rw [List.eq_replicate_iff, List.length_map]
    refine ⟨rfl, fun x hx => ?_⟩
    obtain ⟨a, ha, rfl⟩ := List.mem_map.mp hx
    exact hp a (List.mem_filter.mp ha).2
  have hnodup := h.sublist ((List.filter_sublist (p := p) (l := l)).map f)
  rw [hall] at hnodup
  exact List.nodup_replicate.mp hnodup

/-- A row with a key that no other row has can be added to rows with distinct keys. -/
theorem nodup_map_concat {ρ κ : Type} {key : ρ → κ} {l : List ρ} {a : ρ}
    (h : (l.map key).Nodup) (ha : ∀ b ∈ l, key b ≠ key a) : ((l ++ [a]).map key).Nodup := by
  rw [List.map_append, List.nodup_append]
  refine ⟨h, List.nodup_singleton _, fun x hx y hy => ?_⟩
  obtain ⟨b, hb, rfl⟩ := List.mem_map.mp hx
  rw [List.mem_singleton.mp hy]
  exact ha b hb

/-- A stored quote is found by its id, since the ids are distinct. -/
theorem Records.quote? {db : Database} (h : Records db) {q : QuoteRow Timestamp}
    (hq : q ∈ db.quotes) : db.quote? q.id = some q :=
  find?_of_nodup h.quoteIds hq

/-- A quote that is found is stored, under the id it was looked up by. -/
theorem mem_of_quote? {db : Database} {id : Uuid} {q : QuoteRow Timestamp}
    (h : db.quote? id = some q) : q ∈ db.quotes ∧ q.id = id :=
  ⟨List.mem_of_find?_eq_some h, quote?_id h⟩

/-- A quote with a trade is executed, and the trade copies it. The trade's own quote is found by
its id, and ids are distinct. -/
theorem Records.executed_of_trade {db : Database} (h : Records db) {q : QuoteRow Timestamp}
    {t : TradeRow Timestamp} (hq : q ∈ db.quotes) (ht : t ∈ db.trades) (hqt : t.quoteId = q.id) :
    q.status = .EXECUTED ∧ t.Copies q := by
  obtain ⟨x, hx, hs, hc⟩ := h.executed t ht
  have hxq := h.quote? hx
  rw [← hc.quoteId, hqt, h.quote? hq] at hxq
  cases hxq
  exact ⟨hs, hc⟩

/-- An active quote has no trade. -/
theorem Records.not_traded {db : Database} (h : Records db) {q : QuoteRow Timestamp}
    (hq : q ∈ db.quotes) (hs : q.status = .ACTIVE) : ∀ t ∈ db.trades, t.quoteId ≠ q.id := by
  intro t ht hqt
  rw [(h.executed_of_trade hq ht hqt).1] at hs
  cases hs

/-! ## Accounts -/

namespace Accounts

variable {db : Database}

/-- No client owes anything: a balance is never negative, and zero where there is no row. What the
`UPDATE` of a debit checks is so checked against something. -/
theorem available_nonneg (h : Accounts db) (c : Uuid) (cur : String) :
    0 ≤ db.available c cur := by
  unfold Database.available
  cases hb : db.balance? c cur with
  | none => exact Int.le_refl 0
  | some b => exact h.book.covered (c, cur) b.availableMinor (by simp [Database.book, hb])

/-- Only balances and ledger matter. -/
theorem of_same {db' : Database} (h : Accounts db) (hb : db'.balances = db.balances)
    (hl : db'.ledgerEntries = db.ledgerEntries) : Accounts db' := by
  have hbook : db'.book = db.book := by simp [Database.book, Database.balance?, hb, hl]
  exact ⟨hb ▸ h.unique, hbook ▸ h.book⟩

/-- A new row of an account that has none. -/
theorem unique_balance (h : Accounts db) {r : BalanceRow}
    (hb : db.balance? r.clientId r.currency = none) :
    (((Write.balance r).apply db).balances.map fun b => (b.clientId, b.currency)).Nodup := by
  refine nodup_map_concat h.unique fun b hmem he => ?_
  have := List.find?_eq_none.mp hb b hmem
  simp only [decide_eq_true_eq] at this
  exact this ⟨congrArg Prod.fst he, congrArg Prod.snd he⟩

/-- A new balance of zero keeps the books: there are no entries without a balance, so the sum of
the entries was zero. -/
theorem ensureBalance (h : Accounts db) (c : Uuid) (cur : String) :
    Accounts (db.ensureBalance c cur) := by
  refine ⟨?_, Database.book_ensureBalance db c cur ▸ h.book.openAccount (c, cur)⟩
  unfold Database.ensureBalance
  split
  · next hb => exact h.unique_balance hb
  · exact h.unique

theorem ensureBalances (h : Accounts db) (c : Uuid) (xs : List String) :
    Accounts (db.ensureBalances c xs) :=
  Database.ensureBalances_keeps db c xs h fun _ cur hd => hd.ensureBalance c cur

/-- An entry that the balance covers keeps balances and ledger in agreement: the row moves by what
the ledger gains, and stays at least zero. -/
theorem postEntry (h : Accounts db) {e : LedgerEntryRow}
    (he : 0 ≤ db.available e.clientId e.currency + e.deltaMinor) : Accounts (db.postEntry e) := by
  refine ⟨?_, Database.book_postEntry db e ▸ h.book.post he⟩
  unfold Database.postEntry
  split
  · next hb => exact h.unique_balance (r := ⟨e.clientId, e.currency, e.deltaMinor⟩) hb
  · change ((db.balances.map _).map _).Nodup
    rw [List.map_map]
    convert h.unique using 2
    funext b
    simp only [Function.comp_apply]
    split <;> rfl

end Accounts

variable {db : Database} {e : Effect}

/-- Both amounts of a stored quote are positive, on whichever side they are. -/
theorem debitAmount_pos (h : Priced db) {q : QuoteRow Timestamp} (hq : q ∈ db.quotes) :
    0 < q.debitAmount ∧ 0 < q.creditAmount := by
  unfold QuoteRow.debitAmount QuoteRow.creditAmount
  cases q.side with
  | BUY => exact (h q hq).symm
  | SELL => exact h q hq

/-! ## The tables after a trade -/

section
variable {q : QuoteRow Timestamp} {tradeId : Uuid} {key : String} {createdAt : Timestamp}

/-- A trade marks its quote and leaves the others. This and the two lemmas below are what a trade
does to each of the tables. -/
theorem quotes_trade : ((Effect.trade q tradeId key createdAt).apply db).quotes =
    db.quotes.map fun x => if x.id = q.id then { x with status := .EXECUTED } else x := by
  simp [Effect.apply, Write.apply]

theorem trades_trade : ((Effect.trade q tradeId key createdAt).apply db).trades =
    db.trades ++ [q.trade tradeId key createdAt] := by
  simp [Effect.apply, Write.apply]

/-- A trade appends its two legs to the ledger, the debit first. -/
theorem ledgerEntries_trade : ((Effect.trade q tradeId key createdAt).apply db).ledgerEntries =
    db.ledgerEntries ++ [q.debitEntry tradeId, q.creditEntry tradeId] := by
  simp [Effect.apply, Write.apply]

/-- Entries that are no trade's leave the legs of trades as they are. Deposits and seed runs, whose
entries have another reason, so never touch them. -/
theorem tradeEntries_append {es : List LedgerEntryRow} {db' : Database}
    (h : db'.ledgerEntries = db.ledgerEntries ++ es) {id : Uuid}
    (hes : ∀ e ∈ es, ¬ (e.reason = .TRADE ∧ e.refId = id)) :
    db'.tradeEntries id = db.tradeEntries id := by
  have : es.filter (fun e => e.reason = .TRADE ∧ e.refId = id) = [] :=
    List.filter_eq_nil_iff.mpr fun e he => by simpa using hes e he
  rw [Database.tradeEntries, h, List.filter_append, this, List.append_nil]
  rfl

/-- The two entries are the trade's legs. -/
theorem legs_trade : [q.debitEntry tradeId, q.creditEntry tradeId] =
    [(q.trade tradeId key createdAt).owed, (q.trade tradeId key createdAt).received] := by
  simp only [QuoteRow.debitEntry, QuoteRow.creditEntry, QuoteRow.trade, TradeRow.owed,
    TradeRow.received, QuoteRow.debitCurrency, QuoteRow.debitAmount, QuoteRow.creditCurrency,
    QuoteRow.creditAmount, QuoteRow.tradeValues, TradeValues.row]
  cases q.side <;> rfl

end

/-- A trade that the balance covers. The debit is what has to be covered; the credit only adds. -/
theorem Accounts.trade (h : Accounts db) {q : QuoteRow Timestamp} {tradeId : Uuid} {key : String}
    {createdAt : Timestamp} (hcovers : q.debitAmount ≤ db.available q.clientId q.debitCurrency)
    (hcredit : 0 ≤ q.creditAmount) :
      Accounts ((Effect.trade q tradeId key createdAt).apply db) := by
  have hd := (h.ensureBalances q.clientId q.currencies).postEntry
    (e := q.debitEntry tradeId) (by
      rw [Database.available_ensureBalances]
      simp only [QuoteRow.debitEntry]
      omega)
  refine Accounts.of_same (hd.postEntry (e := q.creditEntry tradeId) ?_) rfl rfl
  have := hd.available_nonneg q.clientId q.creditCurrency
  simp only [QuoteRow.creditEntry]
  omega

/-- Effects that leave quotes and trades alone and post nothing for a trade: all that `Records`
speaks of is as it was. -/
theorem Records.of_same {db' : Database} (es : List LedgerEntryRow) (h : Records db)
    (hq : db'.quotes = db.quotes) (ht : db'.trades = db.trades)
    (hl : db'.ledgerEntries = db.ledgerEntries ++ es) (hes : ∀ e ∈ es, e.reason = .DEPOSIT) :
    Records db' := by
  have hno : ∀ e ∈ es, e.reason ≠ .TRADE := fun e he => by rw [hes e he]; decide
  refine ⟨hq ▸ h.quoteIds, ht ▸ h.tradeIds, ht ▸ h.tradeQuotes, ht ▸ h.tradeKeys,
    ht ▸ hq ▸ h.executed, ht ▸ hq ▸ h.traded, fun t hm => ?_, fun e he hr => ?_⟩
  · rw [tradeEntries_append hl fun e he h' => hno e he h'.1]
    exact h.legs t (ht ▸ hm)
  · rw [hl] at he
    rcases List.mem_append.mp he with he | he
    · exact ht ▸ h.explained e he hr
    · exact absurd hr (hno e he)

/-- A new quote has no trade: a trade's quote is stored, and its id is another one. -/
theorem Records.quote (h : Records db) {row : QuoteRow Timestamp} (hfresh : db.quote? row.id = none)
    (hactive : row.status = .ACTIVE) : Records ((Write.quote row).apply db) := by
  refine ⟨nodup_map_concat h.quoteIds fun x hx => ?_, h.tradeIds, h.tradeQuotes, h.tradeKeys,
    fun t ht => ?_, fun x hx hs => ?_, h.legs, h.explained⟩
  · simpa using List.find?_eq_none.mp hfresh x hx
  · obtain ⟨x, hx, hc⟩ := h.executed t ht
    exact ⟨x, List.mem_append_left _ hx, hc⟩
  · rcases List.mem_append.mp hx with hx | hx
    · exact h.traded x hx hs
    · rw [List.mem_singleton.mp hx, hactive] at hs
      cases hs

/-! ## Every effect keeps them -/

variable [DecimalJs]

/-- The amounts of stored quotes stay positive: those of a new quote are, and no effect changes
them. -/
theorem Priced.effect (h : Priced db) (he : e.Allowed db) : Priced (e.apply db) := by
  cases e with
  | nothing => exact h
  | quote row =>
    intro q hq
    rcases List.mem_append.mp hq with hq | hq
    · exact h q hq
    · rw [List.mem_singleton.mp hq]; exact he.2.2
  | deposit c cur n id => exact fun q hq => h q (by simpa [Effect.apply] using hq)
  | seed client funds =>
    intro q hq
    rw [Effect.apply, Database.postEntries_quotes] at hq
    exact h q hq
  | trade q tradeId key at_ =>
    intro x hx
    have hx' : x ∈ db.quotes.map fun y =>
      if y.id = q.id then { y with status := .EXECUTED } else y := by
      simpa [Effect.apply, Write.apply] using hx
    obtain ⟨y, hy, rfl⟩ := List.mem_map.mp hx'
    split <;> exact h y hy

/-- The amounts of a seed run are not negative. It is a fact about two texts and the decimals that
read them, so it is proved where the decimals are known to be lawful. -/
def FundedWell : Prop :=
  ∀ f ∈ Seed.funding, ∀ n, toMinorUnits (.text f.2) = .ok n → 0 ≤ n

/-- The starting funds are not negative, being read from the amounts of `Seed.funding`. By
induction on the list, which the seed goes through. -/
theorem fund_nonneg (hseed : FundedWell) {funding : List (String × String)}
    {funds : List (String × Int)} (hsub : ∀ f ∈ funding, f ∈ Seed.funding)
    (h : List.Forall₂ (fun f g => f.1 = g.1 ∧ toMinorUnits (.text f.2) = .ok g.2) funding funds) :
    ∀ g ∈ funds, 0 ≤ g.2 := by
  induction h with
  | nil => exact fun _ hg => nomatch hg
  | cons hfg _ ih =>
    intro g hg
    rcases List.mem_cons.mp hg with rfl | hg
    · exact hseed _ (hsub _ (.head _)) _ hfg.2
    · exact ih (fun f hf => hsub f (.tail _ hf)) g hg

/-- Every effect keeps the books: it posts entries, moving balances with them, and a debit is
covered by the balance it is taken from. -/
theorem Accounts.effect (hseed : FundedWell) (hp : Priced db) (h : Accounts db)
    (he : e.Allowed db) : Accounts (e.apply db) := by
  cases e with
  | nothing => exact h
  | quote row => exact h.of_same rfl rfl
  | deposit c cur n id =>
    have hd := h.ensureBalance c cur
    refine hd.postEntry ?_
    have := hd.available_nonneg c cur
    have : 0 < n := he
    simp only
    omega
  | seed client funds =>
    have hd : Accounts ((Write.client client).apply db) := h.of_same rfl rfl
    refine Database.postEntries_keeps _ _ hd fun d x hx hd => hd.postEntry ?_
    obtain ⟨f, hf, rfl⟩ := List.mem_map.mp hx
    have := hd.available_nonneg client.id f.1
    have := fund_nonneg hseed (fun f hf => hf) he.2 f hf
    simp only [ClientRow.seedEntry]
    omega
  | trade q tradeId key at_ =>
    obtain ⟨hq, -, -, -, -, hcovers⟩ := he
    exact h.trade hcovers (debitAmount_pos hp (mem_of_quote? hq).1).2.le

/-- A trade executes its quote, once. Before it the quote is active and so without a trade; after
it the quote is executed and this is its trade. -/
theorem Records.trade (h : Records db) {q : QuoteRow Timestamp} {tradeId : Uuid} {key : String}
    {createdAt : Timestamp} (he : (Effect.trade q tradeId key createdAt).Allowed db) :
    Records ((Effect.trade q tradeId key createdAt).apply db) := by
  obtain ⟨hq, hactive, hid, hquote, hkey, -⟩ := he
  have hid : ∀ t ∈ db.trades, t.id ≠ tradeId := fun t ht => by
    simpa using List.find?_eq_none.mp hid t ht
  have hquote : ∀ t ∈ db.trades, t.quoteId ≠ q.id := fun t ht => by
    simpa using List.find?_eq_none.mp hquote t ht
  have hids : (db.quotes.map fun x => if x.id = q.id then { x with status := .EXECUTED } else x).map
      QuoteRow.id = db.quotes.map QuoteRow.id := by
    rw [List.map_map]
    refine List.map_congr_left fun x _ => ?_
    simp only [Function.comp_apply]
    split <;> rfl
  refine ⟨?_, ?_, ?_, ?_, fun t ht => ?_, fun x hx hs => ?_, fun t ht => ?_, fun x hx hr => ?_⟩
  · rw [quotes_trade, hids]
    exact h.quoteIds
  · rw [trades_trade]
    exact nodup_map_concat h.tradeIds hid
  · rw [trades_trade]
    exact nodup_map_concat h.tradeQuotes hquote
  · rw [trades_trade]
    refine nodup_map_concat h.tradeKeys fun t ht hk => ?_
    have := List.find?_eq_none.mp hkey t ht
    simp only [decide_eq_true_eq] at this
    exact this ⟨congrArg Prod.fst hk, congrArg Prod.snd hk⟩
  · -- an executed quote stays so, and the new trade's quote becomes so
    have hexec : ∀ x ∈ db.quotes, x.status = .EXECUTED ∨ x.id = q.id → t.Copies x →
        ∃ y ∈ ((Effect.trade q tradeId key createdAt).apply db).quotes,
          y.status = .EXECUTED ∧ t.Copies y := by
      intro x hx hs hc
      rw [quotes_trade]
      refine ⟨_, List.mem_map_of_mem hx, ?_, ?_⟩
      · split
        · rfl
        · next hne => exact hs.resolve_right hne
      · split
        · exact ⟨hc.1, hc.2, hc.3, hc.4, hc.5, hc.6, hc.7, hc.8, hc.9⟩
        · exact hc
    rw [trades_trade] at ht
    rcases List.mem_append.mp ht with ht | ht
    · obtain ⟨x, hx, hs, hc⟩ := h.executed t ht
      exact hexec x hx (.inl hs) hc
    · rw [List.mem_singleton.mp ht] at hexec ⊢
      exact hexec q (mem_of_quote? hq).1 (.inr rfl) ⟨rfl, rfl, rfl, rfl, rfl, rfl, rfl, rfl, rfl⟩
  · rw [quotes_trade] at hx
    rw [trades_trade]
    obtain ⟨y, hy, rfl⟩ := List.mem_map.mp hx
    by_cases hyq : y.id = q.id
    · refine ⟨_, List.mem_append_right _ (List.mem_singleton_self _), ?_⟩
      rw [if_pos hyq]
      exact hyq.symm
    · rw [if_neg hyq] at hs ⊢
      obtain ⟨t, ht, htq⟩ := h.traded y hy hs
      exact ⟨t, List.mem_append_left _ ht, htq⟩
  · rw [trades_trade] at ht
    rcases List.mem_append.mp ht with ht | ht
    · rw [tradeEntries_append ledgerEntries_trade]
      · exact h.legs t ht
      · rintro e he ⟨-, her⟩
        have : e.refId = tradeId := by
          rcases List.mem_cons.mp he with rfl | he
          · rfl
          · rw [List.mem_singleton.mp he]; rfl
        exact hid t ht (her.symm.trans this)
    · have hnone : db.tradeEntries tradeId = [] := by
        refine List.filter_eq_nil_iff.mpr fun e he hd => ?_
        simp only [decide_eq_true_eq] at hd
        obtain ⟨t', ht', hte⟩ := h.explained e he hd.1
        exact hid t' ht' (hte.trans hd.2)
      rw [List.mem_singleton.mp ht, ← legs_trade]
      have hself : (q.trade tradeId key createdAt).id = tradeId := rfl
      unfold Database.tradeEntries at hnone ⊢
      rw [ledgerEntries_trade, List.filter_append, hself, hnone]
      simp [QuoteRow.debitEntry, QuoteRow.creditEntry]
  · rw [ledgerEntries_trade] at hx
    rw [trades_trade]
    rcases List.mem_append.mp hx with hx | hx
    · obtain ⟨t, ht, htx⟩ := h.explained x hx hr
      exact ⟨t, List.mem_append_left _ ht, htx⟩
    · refine ⟨_, List.mem_append_right _ (List.mem_singleton_self _), ?_⟩
      rcases List.mem_cons.mp hx with rfl | hx
      · rfl
      · rw [List.mem_singleton.mp hx]; rfl

/-- Every effect keeps the records: a trade is of a quote that was active, and marks it; a new
quote has no trade. -/
theorem Records.effect (h : Records db) (he : e.Allowed db) : Records (e.apply db) := by
  cases e with
  | nothing => exact h
  | quote row => exact h.quote he.1 he.2.1
  | deposit c cur n id =>
    exact h.of_same [⟨c, cur, n, .DEPOSIT, "DEPOSIT", id⟩] (by simp [Effect.apply])
      (by simp [Effect.apply]) (by simp [Effect.apply]) (by simp)
  | seed client funds =>
    refine h.of_same (funds.map client.seedEntry) (by simp [Effect.apply, Write.apply])
      (by simp [Effect.apply, Write.apply]) (by simp [Effect.apply, Write.apply]) fun x hx => ?_
    obtain ⟨f, -, rfl⟩ := List.mem_map.mp hx
    rfl
  | trade q tradeId key createdAt => exact h.trade he

end MiniOpenFX
