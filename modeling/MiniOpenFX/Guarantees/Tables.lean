import MiniOpenFX.Domain.Decimal
import MiniOpenFX.Guarantees.Amounts
import MiniOpenFX.Proof.Invariant
import MiniOpenFX.Proof.Requests

/-!
# The tables at any time

The invariants of the tables, in every state the system can reach from a database that has nothing
but clients, whatever calls run at once and however they fail: balances are the sums of the ledger
and never negative (`balances_match_ledger`), and every executed quote has exactly one trade with
its two ledger entries (`executed_once`), for which no unique index is needed.
-/

namespace MiniOpenFX

open Js Transactional

/-- A database that has nothing but clients. -/
def Database.ofClients (clients : List ClientRow) : Database := ⟨clients, [], [], [], []⟩

/-- The system when it starts, with no call in progress. -/
def Sys.start (clients : List ClientRow) (e : Surroundings) : Sys :=
  State.init (Database.ofClients clients) e

/-! ## A client's first trade

A run of the system over the executable decimals: a client deposits 1000 USDT, asks for a quote to
buy 0.01 BTC and executes it. -/

namespace Sample

open scoped Reference

/-- A client. -/
def alice : Uuid := ⟨"aaaaaaaa-aaaa-4aaa-8aaa-aaaaaaaaaaaa", by decide, by decide⟩

/-- The id of its deposit. -/
def depositId : Uuid := ⟨"dddddddd-dddd-4ddd-8ddd-dddddddddddd", by decide, by decide⟩

/-- The id of its quote. -/
def quoteId : Uuid := ⟨"cccccccc-cccc-4ccc-8ccc-cccccccccccc", by decide, by decide⟩

/-- The id of its trade. -/
def tradeId : Uuid := ⟨"eeeeeeee-eeee-4eee-8eee-eeeeeeeeeeee", by decide, by decide⟩

/-- The clients' table of the samples. -/
def clients : List ClientRow := [⟨alice, "Alice"⟩]

/-- The surroundings of the samples: nothing cached. -/
def surroundings : Surroundings := ⟨⟨1700000000000000, by decide, by decide⟩, fun _ => none, 1000⟩

/-- Alice's quote. -/
def quote : QuoteRow Timestamp :=
  ⟨quoteId, alice, "BTCUSDT", .BUY, "BTC", "USDT", 1000000, "50001", 50001000000, .ACTIVE,
    ⟨1700000015000000, by decide, by decide⟩, surroundings.now⟩

/-- What Binance answers about the symbol. -/
def exchangeInfo : FetchOutcome := .response 200 (some (.obj [("symbols", .arr [.obj
  [("symbol", .str "BTCUSDT"), ("baseAsset", .str "BTC"), ("quoteAsset", .str "USDT")]])]))

/-- What Binance answers about the price. -/
def bookTicker : FetchOutcome := .response 200 (some (.obj
  [("symbol", .str "BTCUSDT"), ("bidPrice", .str "50000"), ("askPrice", .str "50001")]))

/-- Hand out this id and this response of Binance; no time passes. -/
def choice (id : Uuid) (fetched : FetchOutcome) : Choice := ⟨id, fetched, true, .elapse 0⟩

/-- Thread `i` performs its next `n` acts; where it asks for an id, it gets `id`. -/
def acts (i n : Nat) (id : Uuid) : List (Label backend Call) :=
  .replicate n (.run i (choice id .failed))

/-- Thread `i` asks Binance. -/
def asks (i : Nat) (fetched : FetchOutcome) : Label backend Call := .run i (choice quoteId fetched)

/-- Thread 0 deposits. -/
def deposits : List (Label backend Call) :=
  .spawn (.createDeposit alice ⟨"USDT", "1000"⟩) :: acts 0 8 depositId

/-- Thread 1 makes the quote. -/
def quotes : List (Label backend Call) :=
  .spawn (.createQuote alice ⟨"BTC", "USDT", .BUY, "0.01"⟩) :: acts 1 1 quoteId ++
    [asks 1 exchangeInfo] ++ acts 1 2 quoteId ++ [asks 1 bookTicker] ++ acts 1 8 quoteId

/-- A call of Alice to execute the quote spelled `id`. -/
def executes (id key : String) : Label backend Call := .spawn (.executeTrade alice ⟨id⟩ key)

/-- Thread 2 executes it. -/
def trades : List (Label backend Call) := executes quoteId.text "key" :: acts 2 17 tradeId

/-- The state after some steps of a system that has nobody but Alice. -/
def after (ls : List (Label backend Call)) : Sys :=
  ((Sys.start clients surroundings).exec program ls).getD (Sys.start clients surroundings)

section
variable {ls : List (Label backend Call)} (ls' : List (Label backend Call))
  (h : ((Sys.start clients surroundings).exec program (ls ++ ls')).isSome)
include h

/-- A run from the state after `ls` is one after `ls` and itself. -/
theorem exec_after : (after ls).exec program ls' = some (after (ls ++ ls')) := by
  obtain ⟨s, hs⟩ := Option.isSome_iff_exists.mp h
  unfold after
  rw [hs]
  rw [State.exec_append] at hs
  obtain ⟨s', hs', hs⟩ := Option.bind_eq_some_iff.mp hs
  rwa [hs']

/-- The state after more labels is reached from the state after fewer. -/
theorem after_reached : State.Reaches program (after ls) (after (ls ++ ls')) :=
  .of_exec (exec_after ls' h)

end

/-- The last label of a run is a step from the state before it. The samples name a step in the
middle of a run with it. -/
theorem step_after {ls : List (Label backend Call)} (l : Label backend Call)
    (h : ((Sys.start clients surroundings).exec program (ls ++ [l])).isSome) :
    (after ls).step program l = some (after (ls ++ [l])) := by
  simpa [State.exec] using exec_after [l] h

/-- A list of labels that can be executed is a run of the system. -/
theorem reached {ls : List (Label backend Call)}
    (h : ((Sys.start clients surroundings).exec program ls).isSome) :
    State.Reaches program (Sys.start clients surroundings) (after ls) :=
  (after_reached ls h : State.Reaches program (after []) (after ([] ++ ls)))

/-- Thread `i` of a state that has one. -/
def thread (s : Sys) (i : Nat) : Thread backend Call Response :=
  s.threads[i]?.getD (.start program .seed)

theorem getElem?_thread {s : Sys} {i : Nat} (h : i < s.threads.length) :
    s.threads[i]? = some (thread s i) := by
  rw [thread, List.getElem?_eq_getElem h, Option.getD_some]

/-- The state after the trade. -/
def traded : Sys := after (deposits ++ quotes ++ trades)

theorem traded_reached : State.Reaches program (Sys.start clients surroundings) traded :=
  reached (by decide +kernel)

end Sample

/-! ## The invariants -/

theorem accounts_ofClients (clients : List ClientRow) : Accounts (.ofClients clients) where
  unique := List.nodup_nil
  book := ⟨fun _ _ h => (nomatch h), fun _ h => (nomatch h), fun _ _ h => (nomatch h)⟩

theorem priced_ofClients (clients : List ClientRow) : Priced (.ofClients clients) :=
  fun _ h => by cases h

/-- Tables with clients alone have no trades to account for. -/
theorem records_ofClients (clients : List ClientRow) : Records (.ofClients clients) where
  quoteIds := List.nodup_nil
  tradeIds := List.nodup_nil
  tradeQuotes := List.nodup_nil
  tradeKeys := List.nodup_nil
  executed _ h := by cases h
  traded _ h := by cases h
  legs _ h := by cases h
  explained _ h := by cases h

section
variable [DecimalJs] {clients : List ClientRow} {e : Surroundings} {s : Sys}

/-- The system that starts with no call is isolated. -/
theorem isolated_init (db : Database) (e : Surroundings) :
    Isolated isolation rely (fun _ _ => obligations) (fun _ => answers) (State.init db e : Sys) :=
  .init trivial trivial

/-- Whatever happens moves the tables by effects, and the state stays isolated. It is the bridge
from runs to tables: invariants of tables are shown for effects only. -/
theorem later_of_reaches {db : Database} (h : State.Reaches program (State.init db e) s) :
    Isolated isolation rely (fun _ _ => obligations) (fun _ => answers) s ∧ db.Later s.data := by
  obtain ⟨hi, hl⟩ := h.isolated verified (isolated_init db e)
  exact ⟨hi, hl.data⟩

/-- From any state of a run on, the tables and the clock only move on. So what was found in the
tables once stands, as far as effects keep it. -/
theorem moves_on {db : Database} {s' : Sys} (h : State.Reaches program (State.init db e) s)
    (h' : State.Reaches program s s') : rely.Later s.seen s'.seen :=
  (h'.isolated verified (later_of_reaches h).1).2

/-- In every state of every run quotes, trades and ledger agree: each effect keeps `Records`, and
runs move the tables by effects. -/
theorem records_of_reaches (h : State.Reaches program (Sys.start clients e) s) :
    Records s.data :=
  (later_of_reaches h).2.keeps (records_ofClients clients) fun _ _ he hd => hd.effect he

/-! ## Accounts -/

/-- The seed's amounts are not negative. -/
theorem fundedWell [LawfulDecimalJs] : FundedWell := by
  intro f hf n hn
  obtain ⟨v, hv⟩ : ∃ v, decimalText? f.2 = some v := by
    refine decimalText?_of_isPositiveDecimal ?_
    rcases List.mem_cons.mp hf with rfl | hf
    · decide
    · rw [List.mem_singleton.mp hf]
      decide
  exact scaled_nonneg (decimalText?_nonneg hv) ((toMinorUnits_text hv n).mp hn)

/-- In every state of every run balances and ledger agree. That needs decimals that read the
amounts of the seed as what they are. -/
theorem accounts_of_reaches [LawfulDecimalJs]
    (h : State.Reaches program (Sys.start clients e) s) : Accounts s.data :=
  ((later_of_reaches h).2.keeps (P := fun d => Priced d ∧ Accounts d)
    ⟨priced_ofClients clients, accounts_ofClients clients⟩
    fun _ _ he hd => ⟨hd.1.effect he, hd.2.effect fundedWell hd.1 he⟩).2

/-- The sum of a client's ledger entries in a currency. -/
def Database.ledgerSum (db : Database) (clientId : Uuid) (currency : String) : Int :=
  ((db.ledgerEntries.filter fun x => x.clientId = clientId ∧ x.currency = currency).map
    LedgerEntryRow.deltaMinor).sum

/-- **Balances match the ledger.** At any time, a client has at most one balance in a currency; it
is the sum of the client's ledger entries in the currency, and not negative; and without one there
are no such entries. -/
theorem balances_match_ledger [LawfulDecimalJs]
    (h : State.Reaches program (Sys.start clients e) s) (clientId : Uuid)
    (currency : String) :
    (s.data.balances.filter fun b => b.clientId = clientId ∧ b.currency = currency).length ≤ 1 ∧
      (∀ b ∈ s.data.balances, b.clientId = clientId → b.currency = currency →
        b.availableMinor = s.data.ledgerSum clientId currency ∧ 0 ≤ b.availableMinor) ∧
      ((∀ b ∈ s.data.balances, ¬ (b.clientId = clientId ∧ b.currency = currency)) →
        ∀ x ∈ s.data.ledgerEntries, ¬ (x.clientId = clientId ∧ x.currency = currency)) := by
  have ha := accounts_of_reaches h
  have htotal : s.data.book.total (clientId, currency) = s.data.ledgerSum clientId currency := by
    simp only [Bookkeeping.Book.total, Database.book, Database.ledgerSum, List.filter_map,
      List.map_map]
    simp [Function.comp_def]
  refine ⟨?_, fun b hb hc hcur => ?_, fun hnone x hx hxc => ?_⟩
  · refine length_filter_le_one (f := fun b => (b.clientId, b.currency)) ha.unique
      (clientId, currency) fun b hb => ?_
    simpa [Prod.ext_iff] using hb
  · have hfound : s.data.balance? clientId currency = some b := by
      have := find?_of_nodup (f := fun b => (b.clientId, b.currency)) ha.unique hb
      simpa [Database.balance?, Prod.ext_iff, hc, hcur] using this
    have hbook : s.data.book.balance (clientId, currency) = some b.availableMinor := by
      simp [Database.book, hfound]
    exact ⟨htotal ▸ ha.book.settled _ _ hbook, ha.book.covered _ _ hbook⟩
  · have := ha.book.opened ((x.clientId, x.currency), x.deltaMinor)
      (List.mem_map.mpr ⟨x, hx, rfl⟩)
    simp only [Database.book, Option.isSome_map] at this
    obtain ⟨b, hb⟩ := Option.isSome_iff_exists.mp this
    have hkey := balance?_key (show s.data.balance? x.clientId x.currency = some b from hb)
    exact hnone b (List.mem_of_find?_eq_some hb) (hxc.1 ▸ hxc.2 ▸ hkey)

end

section
open scoped Reference

/-- Alice's balance in USDT after her trade. -/
theorem balances_match_ledger_traded :
    (Sample.traded.data.balances.filter fun b =>
        b.clientId = Sample.alice ∧ b.currency = "USDT").length ≤ 1 ∧
      (∀ b ∈ Sample.traded.data.balances, b.clientId = Sample.alice → b.currency = "USDT" →
        b.availableMinor = Sample.traded.data.ledgerSum Sample.alice "USDT" ∧
          0 ≤ b.availableMinor) ∧
      ((∀ b ∈ Sample.traded.data.balances, ¬ (b.clientId = Sample.alice ∧ b.currency = "USDT")) →
        ∀ x ∈ Sample.traded.data.ledgerEntries,
          ¬ (x.clientId = Sample.alice ∧ x.currency = "USDT")) :=
  balances_match_ledger Sample.traded_reached Sample.alice "USDT"

end

/-! ## Records -/

/-- The insert of a trade meets the unique index on quotes only if the quote has a trade, which the
transaction's view shows. -/
theorem tradeOfQuote?_of_violation {now : Timestamp} {db : Database} {v : TradeValues}
    (h : (exec now db (.insertTrade v)).map Prod.fst =
      .error (uniqueViolation TradingService.QUOTE_ID_UNIQUE_CONSTRAINT)) :
    (db.tradeOfQuote? v.quoteId).isSome := by
  by_contra hno
  rw [Bool.not_eq_true] at hno
  simp only [exec, hno, Bool.false_eq_true, if_false] at h
  repeat' split at h
  all_goals
    simp [Except.map, uniqueViolation, foreignKeyViolation, numericValueOutOfRange,
      TradingService.QUOTE_ID_UNIQUE_CONSTRAINT] at h

section
variable [DecimalJs] {clients : List ClientRow} {e : Surroundings} {s : Sys}

/-- No insert of a trade ever meets the unique index on quotes: the transaction has locked the
quote and found it active, and an active quote has no trade. -/
theorem no_quote_violation (h : State.Reaches program (Sys.start clients e) s) :
    ∀ t ∈ s.threads, ∀ v, Event.sql (S := sig) (.insertTrade v)
      (.error (uniqueViolation TradingService.QUOTE_ID_UNIQUE_CONSTRAINT)) ∉ t.log := by
  refine h.events (P := fun _ ℓ _ => ∀ v, Event.sql (S := sig) (.insertTrade v)
    (.error (uniqueViolation TradingService.QUOTE_ID_UNIQUE_CONSTRAINT)) ∉ ℓ) verified
    (isolated_init _ _) (fun t ht => by cases ht) (fun _ _ _ hm => by cases hm)
    (fun _ _ _ _ _ h => h) ?_
  intro u i t ev hu hl hi hlog hsees v hm
  rcases List.mem_append.mp hm with hm | hm
  · exact hlog v hm
  obtain rfl := List.mem_singleton.mp hm
  obtain ⟨k, hp, hbroken | ⟨χ, hx⟩⟩ := hsees.sql
  · cases hbroken
  have hfound := tradeOfQuote?_of_violation hx
  obtain ⟨tx, htx, hrun⟩ | ⟨-, halone⟩ := hu.sql hi hp
  · have hview : (u.world t).view = u.data.after tx.writes := by
      simp [State.world, World.view, htx]
    rw [hview] at hfound
    change Running u.data tx.writes tx.locks (.insertTrade v) at hrun
    generalize hs : Stmt.insertTrade v = st, tx.writes = ws, tx.locks = L at hrun hfound
    cases hrun with
    | @insertTrade q _ _ tradeId key executing trades _ =>
      cases hs
      have hrec : Records u.data :=
        hl.data.keeps (records_ofClients clients) fun _ _ he hd => hd.effect he
      obtain ⟨x, hx⟩ := Option.isSome_iff_exists.mp hfound
      rw [Database.tradeOfQuote?, trades] at hx
      have hid := List.find?_some hx
      simp only [decide_eq_true_eq] at hid
      exact hrec.not_traded (mem_of_quote? executing.found).1 executing.active x
        (List.mem_of_find?_eq_some hx) hid
    | held moves => cases hs; exact moves
    | _ => cases hs
  · exact halone

/-- **A quote is executed at most once, and all records of it agree**, at any time: an executed
quote has exactly one trade and an active one none; a trade copies its quote and has exactly two
ledger entries, what the client owes and what it receives; there are no other entries for trades;
and the insert of a trade has never met the unique index on quotes. -/
theorem executed_once (h : State.Reaches program (Sys.start clients e) s) :
    (∀ q ∈ s.data.quotes,
      (q.status = .EXECUTED ↔ (s.data.trades.filter fun t => t.quoteId = q.id).length = 1) ∧
      (q.status = .ACTIVE ↔ ∀ t ∈ s.data.trades, t.quoteId ≠ q.id)) ∧
    (∀ t ∈ s.data.trades, (∃ q ∈ s.data.quotes, t.Copies q) ∧
      s.data.tradeEntries t.id = [t.owed, t.received]) ∧
    (∀ x ∈ s.data.ledgerEntries, x.reason = .TRADE →
      ∃ t ∈ s.data.trades, x = t.owed ∨ x = t.received) ∧
    ∀ t ∈ s.threads, ∀ v, Event.sql (S := sig) (.insertTrade v)
      (.error (uniqueViolation TradingService.QUOTE_ID_UNIQUE_CONSTRAINT)) ∉ t.log := by
  have hr := records_of_reaches h
  refine ⟨fun q hq => ⟨⟨fun hs => ?_, fun hone => ?_⟩, ?_, fun hno => ?_⟩, fun t ht => ?_,
    fun x hx hreason => ?_, no_quote_violation h⟩
  · obtain ⟨t, ht, htq⟩ := hr.traded q hq hs
    refine le_antisymm (length_filter_le_one hr.tradeQuotes q.id fun t ht => by simpa using ht) ?_
    exact List.length_pos_of_mem (List.mem_filter.mpr ⟨ht, by simpa using htq⟩)
  · obtain ⟨t, ht⟩ := List.exists_mem_of_length_pos (hone ▸ Nat.one_pos)
    obtain ⟨ht, htq⟩ := List.mem_filter.mp ht
    exact (hr.executed_of_trade hq ht (by simpa using htq)).1
  · exact fun hs => hr.not_traded hq hs
  · cases hs : q.status with
    | ACTIVE => rfl
    | EXECUTED =>
      obtain ⟨t, ht, htq⟩ := hr.traded q hq hs
      exact absurd htq (hno t ht)
  · obtain ⟨q, hq, -, hc⟩ := hr.executed t ht
    exact ⟨⟨q, hq, hc⟩, hr.legs t ht⟩
  · obtain ⟨t, ht, htx⟩ := hr.explained x hx hreason
    have hmem : x ∈ s.data.tradeEntries t.id :=
      List.mem_filter.mpr ⟨hx, by simp [hreason, htx]⟩
    rw [hr.legs t ht] at hmem
    exact ⟨t, ht, by simpa using hmem⟩

end

section
open scoped Reference

/-- Alice's quote and its trade. -/
theorem executed_once_traded :
    (∀ q ∈ Sample.traded.data.quotes,
      (q.status = .EXECUTED ↔
        (Sample.traded.data.trades.filter fun t => t.quoteId = q.id).length = 1) ∧
      (q.status = .ACTIVE ↔ ∀ t ∈ Sample.traded.data.trades, t.quoteId ≠ q.id)) ∧
    (∀ t ∈ Sample.traded.data.trades, (∃ q ∈ Sample.traded.data.quotes, t.Copies q) ∧
      Sample.traded.data.tradeEntries t.id = [t.owed, t.received]) ∧
    (∀ x ∈ Sample.traded.data.ledgerEntries, x.reason = .TRADE →
      ∃ t ∈ Sample.traded.data.trades, x = t.owed ∨ x = t.received) ∧
    ∀ t ∈ Sample.traded.threads, ∀ v, Event.sql (S := sig) (.insertTrade v)
      (.error (uniqueViolation TradingService.QUOTE_ID_UNIQUE_CONSTRAINT)) ∉ t.log :=
  executed_once Sample.traded_reached

end

end MiniOpenFX
