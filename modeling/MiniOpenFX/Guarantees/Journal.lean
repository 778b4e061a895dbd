import MiniOpenFX.Guarantees.Growth
import MiniOpenFX.Guarantees.Serializability

/-!
# The ledger is the journal of the commits

Where money comes from and where it goes. Every committed call adds its own entries behind those
there are (`Posts`): a deposit one, a trade its two legs, the seed run that makes the demo client
its funds. The ledger is these entries in the order of the commits, with nothing before, between or
after them, and so are the trades (`ledger_is_journal`). A balance is then what was deposited and
what the trades of the client brought in, less what they cost (`balances_reconciled`).
-/

namespace MiniOpenFX

open Js Transactional

/-- The entries of a trade: what the client owes, then what it receives. -/
def TradeRow.legs {τ : Type} (t : TradeRow τ) : List LedgerEntryRow := [t.owed, t.received]

section
variable [DecimalJs]

/-! ## What a commit adds -/

/-- What a committed call adds to the ledger and to the trades: one group for each kind of call,
and nothing for those that move no money. -/
inductive Posts : Call → List LedgerEntryRow × List (TradeRow Timestamp) → Prop where
  /-- a seed run that finds the demo client -/
  | seed : Posts .seed ([], [])
  /-- the seed run that makes it -/
  | seeded (client : ClientRow) (funds : List (String × Int))
      (amounts : List.Forall₂ (fun f g => f.1 = g.1 ∧ toMinorUnits (.text f.2) = .ok g.2)
        Seed.funding funds) : Posts .seed (funds.map client.seedEntry, [])
  | deposit (clientId : Uuid) (dto : CreateDepositDto) (depositId : Uuid) {amountMinor : Int}
      (amount : toMinorUnits (.text dto.amount) = .ok amountMinor) (positive : 0 < amountMinor) :
      Posts (.createDeposit clientId dto)
        ([⟨clientId, dto.currency, amountMinor, .DEPOSIT, "DEPOSIT", depositId⟩], [])
  | trade (t : TradeRow Timestamp) (dto : CreateTradeDto) (rawKey : String)
      (spelled : Uuid.ofText? dto.quoteId = some t.quoteId) (key : t.idempotencyKey = trim rawKey) :
      Posts (.executeTrade t.clientId dto rawKey) (t.legs, [t])

/-- The tables go on by what a call posts. -/
structure Posted (c : Call) (post : List LedgerEntryRow × List (TradeRow Timestamp))
    (db db' : Database) : Prop where
  posts : Posts c post
  ledgerEntries : db'.ledgerEntries = db.ledgerEntries ++ post.1
  trades : db'.trades = db.trades ++ post.2

/-- A commit posts what its call posts. By cases on the effect of the commit. -/
theorem CommitsAlone.posted {c : Call} {ℓ : History} {db db' : Database}
    (h : CommitsAlone c ℓ db db') : ∃ post, Posted c post db db' := by
  obtain ⟨e, he, rfl, hby⟩ := h.effect
  cases e with
  | nothing =>
    cases hby
    exact ⟨_, .seed, by simp [Effect.apply], by simp [Effect.apply]⟩
  | quote row => cases hby
  | deposit clientId currency amountMinor depositId =>
    obtain ⟨dto, rfl, rfl, amount⟩ := hby
    exact ⟨_, .deposit clientId dto depositId amount he, by simp [Effect.apply],
      by simp [Effect.apply]⟩
  | seed client funds =>
    cases hby
    exact ⟨_, .seeded client funds he.2, by simp [Effect.apply, Write.apply],
      by simp [Effect.apply, Write.apply]⟩
  | trade q tradeId key createdAt =>
    obtain ⟨dto, rawKey, rfl, spelled, rfl⟩ := hby
    refine ⟨_, .trade (q.trade tradeId (trim rawKey) createdAt) dto rawKey spelled rfl, ?_,
      trades_trade⟩
    rw [ledgerEntries_trade, TradeRow.legs, ← legs_trade]

/-! ## The journal -/

/-- Ledger and trades are what the calls posted, in this order: the calls are those that have
committed, each with its one group. -/
def Journaled (cs : List (Call × History)) (db : Database) : Prop :=
  ∃ posts, List.Forall₂ (fun c post => Posts c.1 post) cs posts ∧
    db.ledgerEntries = posts.flatMap Prod.fst ∧ db.trades = posts.flatMap Prod.snd

/-- **The ledger is the journal of the commits.** Whatever calls run at once, in any order and with
any failures: the ledger and the trades are what the committed calls posted, each once, in the order
of their commits, and there is nothing else in them. -/
theorem ledger_is_journal {clients : List ClientRow} {e : Surroundings} {s : Sys}
    {ls : List (Label backend Call)} (h : (Sys.start clients e).exec program ls = some s) :
    Journaled ((Sys.start clients e).commits program ls) s.data := by
  refine State.exec_commits (C := fun _ => True) Journaled verified_of (.init trivial trivial) h
    (fun _ _ => trivial) (fun _ _ => trivial) ?_ ?_ (show Journaled [] _ from ⟨[], .nil, rfl, rfl⟩)
  · intro _ c p ℓ st χ r ws cs _ hs hx hjournal
    have hx : exec (backend.stamp p.env) p.data st = .ok (r, ws) := hx
    by_cases hv : ∃ v, st = .insertQuote v
    · obtain ⟨v, rfl⟩ := hv
      obtain ⟨-, expiresAt, -, -, -, -, -, -, rfl⟩ := exec_insertQuote.mp hx
      exact hjournal
    · obtain rfl := hs.1.reads (fun v h => hv ⟨v, h⟩) hx
      exact hjournal
  · rintro _ c p ℓ st ws L cs _ hcommit ⟨posts, hposts, hledger, htrades⟩
    obtain ⟨post, posted⟩ := hcommit.2.posted
    have hledger' : (p.data.after ws).ledgerEntries = p.data.ledgerEntries ++ post.1 :=
      posted.ledgerEntries
    have htrades' : (p.data.after ws).trades = p.data.trades ++ post.2 := posted.trades
    refine ⟨posts ++ [post], List.rel_append hposts (.cons posted.posts .nil), ?_, ?_⟩
    · change (p.data.after ws).ledgerEntries = _
      simp [hledger', hledger]
    · change (p.data.after ws).trades = _
      simp [htrades', htrades]

/-! ## Balances from deposits and trades -/

section
variable {clients : List ClientRow} {e : Surroundings} {s : Sys}

/-- The entries of trades are the legs of the trades, in their order. Both lists grow by the same
groups. -/
theorem tradeEntries_eq_legs (h : State.Reaches program (Sys.start clients e) s) :
    s.data.ledgerEntries.filter (·.reason = .TRADE) = s.data.trades.flatMap TradeRow.legs := by
  refine (later_of_reaches h).2.keeps (P := fun d =>
    d.ledgerEntries.filter (·.reason = .TRADE) = d.trades.flatMap TradeRow.legs) rfl ?_
  intro d eff _ hd
  cases eff with
  | nothing | quote row => exact hd
  | deposit clientId currency amountMinor depositId => simpa [Effect.apply] using hd
  | seed client funds =>
    have hfunds : (funds.map client.seedEntry).filter (·.reason = .TRADE) = [] :=
      List.filter_eq_nil_iff.mpr fun x hx => by
        obtain ⟨f, -, rfl⟩ := List.mem_map.mp hx
        simp [ClientRow.seedEntry]
    simp [Effect.apply, Write.apply, hfunds, hd]
  | trade q tradeId key createdAt =>
    have hlegs : [q.debitEntry tradeId, q.creditEntry tradeId].filter (·.reason = .TRADE) =
        [q.debitEntry tradeId, q.creditEntry tradeId] := by
      simp [QuoteRow.debitEntry, QuoteRow.creditEntry]
    rw [ledgerEntries_trade, trades_trade, List.filter_append, hlegs, hd, List.flatMap_append,
      legs_trade]
    rfl

omit [DecimalJs] in
/-- The book's total of an account. -/
theorem Database.total_book (db : Database) (clientId : Uuid) (currency : String) :
    db.book.total (clientId, currency) = entriesSum db.ledgerEntries clientId currency := by
  simp only [Bookkeeping.Book.total, Database.book, entriesSum, List.filter_map, List.map_map]
  simp [Function.comp_def]

omit [DecimalJs] in
/-- A balance is the sum of its entries. -/
theorem Accounts.available_eq {db : Database} (h : Accounts db) (clientId : Uuid)
    (currency : String) :
    db.available clientId currency = entriesSum db.ledgerEntries clientId currency := by
  rw [← Database.total_book, ← h.book.getD]
  rfl

omit [DecimalJs] in
/-- Entries of two kinds: the sum is that of the one kind and that of the other. -/
theorem entriesSum_partition (es : List LedgerEntryRow) (p : LedgerEntryRow → Bool) (c : Uuid)
    (cur : String) :
    entriesSum es c cur = entriesSum (es.filter p) c cur + entriesSum (es.filter (!p ·)) c cur := by
  induction es with
  | nil => rfl
  | cons x es ih =>
    by_cases hx : x.clientId = c ∧ x.currency = cur <;> cases hp : p x <;>
      simp [entriesSum, hx, hp] at ih ⊢ <;> omega

/-- **Balances reconcile with deposits and trades.** At any time, a client's balance in a currency
is what was deposited for it, and what its trades brought in less what they cost. -/
theorem balances_reconciled [LawfulDecimalJs] (h : State.Reaches program (Sys.start clients e) s)
    (clientId : Uuid) (currency : String) :
    s.data.available clientId currency =
      entriesSum (s.data.ledgerEntries.filter (·.reason = .DEPOSIT)) clientId currency +
        entriesSum (s.data.trades.flatMap TradeRow.legs) clientId currency := by
  have htrades : s.data.ledgerEntries.filter (fun x => !decide (x.reason = .DEPOSIT)) =
      s.data.ledgerEntries.filter (·.reason = .TRADE) :=
    List.filter_congr fun x _ => by cases x.reason <;> rfl
  rw [← tradeEntries_eq_legs h, ← htrades, ← entriesSum_partition,
    (accounts_of_reaches h).available_eq]

end

end

section
open scoped Reference

/-- The journal of Alice's deposit, her quote and her trade. -/
theorem ledger_is_journal_traded :
    Journaled ((Sys.start Sample.clients Sample.surroundings).commits program
      (Sample.deposits ++ Sample.quotes ++ Sample.trades)) Sample.traded.data := by
  have h : (Sample.after []).exec program (Sample.deposits ++ Sample.quotes ++ Sample.trades) =
      some Sample.traded := Sample.exec_after _ (by decide +kernel)
  exact ledger_is_journal h

/-- Alice's balance in USDT after her trade. -/
theorem balances_reconciled_traded :
    Sample.traded.data.available Sample.alice "USDT" =
      entriesSum (Sample.traded.data.ledgerEntries.filter
        (·.reason = .DEPOSIT)) Sample.alice "USDT" +
        entriesSum (Sample.traded.data.trades.flatMap TradeRow.legs) Sample.alice "USDT" :=
  balances_reconciled Sample.traded_reached Sample.alice "USDT"

end

end MiniOpenFX
