import MiniOpenFX.Transactional.Twins
import MiniOpenFX.Proof.Commits
import MiniOpenFX.Proof.Invariant
import MiniOpenFX.Trades.TradesService

/-!
# What a client's requests depend on

Two databases that have the same rows of a client (`SameRows`) answer the client's statements alike
and have the same rows of the client afterwards, whatever rows of other clients they have
(`Twinned`). Foreign rows are in the way at two places: a quote is read by its id alone, before it
is known whose it is, and a trade must be the first of its quote. From this, service by service,
what a client's requests come to on two such databases.
-/

namespace MiniOpenFX

open Js Transactional

/-! ## A client's rows -/

/-- The tables have the same rows of the client: the clients, balances, ledger entries, quotes and
trades that are its own, in the same order. Nothing is said of the rows of others. -/
structure SameRows (c : Uuid) (d d' : Database) : Prop where
  clients : d.clients.filter (·.id = c) = d'.clients.filter (·.id = c)
  balances : d.balances.filter (·.clientId = c) = d'.balances.filter (·.clientId = c)
  ledgerEntries : d.ledgerEntries.filter (·.clientId = c) = d'.ledgerEntries.filter (·.clientId = c)
  quotes : d.quotes.filter (·.clientId = c) = d'.quotes.filter (·.clientId = c)
  trades : d.trades.filter (·.clientId = c) = d'.trades.filter (·.clientId = c)

/-- Quotes are found by their ids, and every trade is of a quote of its client. Without this a
trade of somebody else could stand in the way of the client's own. -/
structure Linked (d : Database) : Prop where
  quoteIds : (d.quotes.map QuoteRow.id).Nodup
  trades : ∀ t ∈ d.trades, ∃ q ∈ d.quotes, q.id = t.quoteId ∧ q.clientId = t.clientId

/-- Tables whose trades copy their quotes are linked. -/
theorem Records.linked {d : Database} (h : Records d) : Linked d where
  quoteIds := h.quoteIds
  trades t ht := by
    obtain ⟨q, hq, -, copies⟩ := h.executed t ht
    exact ⟨q, hq, copies.quoteId.symm, copies.clientId.symm⟩

/-- The quote exists and is another client's. -/
def Database.HasForeign (d : Database) (c u : Uuid) : Prop :=
    ∃ q, d.quote? u = some q ∧ q.clientId ≠ c

/-- Linked tables with the same rows of the client. `F` has the ids of the quotes that others have
in either: the ids a cache may know although the client must not. -/
structure Twinned (c : Uuid) (F : Uuid → Prop) (d d' : Database) : Prop where
  rows : SameRows c d d'
  left : Linked d
  right : Linked d'
  foreign : ∀ u, F u ↔ d.HasForeign c u ∨ d'.HasForeign c u

/-- Having the same rows of a client is symmetric. -/
theorem SameRows.symm {c : Uuid} {d d' : Database} (h : SameRows c d d') : SameRows c d' d :=
  ⟨h.clients.symm, h.balances.symm, h.ledgerEntries.symm, h.quotes.symm, h.trades.symm⟩

/-! ## Finding them -/

/-- A row of the client is found among the client's rows, so lists with the same rows of the client
find the same one. -/
theorem find?_congr_filter {ρ : Type} {l l' : List ρ} {p r : ρ → Bool}
    (h : l.filter p = l'.filter p) (hl : ∀ a ∈ l, r a → p a) (hl' : ∀ a ∈ l', r a → p a) :
    l.find? r = l'.find? r := by
  have hfilter : ∀ l : List ρ, (∀ a ∈ l, r a → p a) → (l.filter p).find? r = l.find? r := by
    intro l hl
    induction l with
    | nil => rfl
    | cons a l ih =>
      have ih := ih fun b hb => hl b (.tail _ hb)
      cases hra : r a with
      | false => cases hpa : p a <;> simp [hpa, hra, ih]
      | true => simp [hl a (.head _) hra, hra]
  rw [← hfilter l hl, h, hfilter l' hl']

namespace SameRows

variable {c : Uuid} {d d' : Database} (h : SameRows c d d')
include h

/-- The client is found in both databases or in neither. This and the lemmas below are what the
lookups for the client's own rows come to. -/
theorem client? : d.client? c = d'.client? c :=
  find?_congr_filter h.clients (fun _ _ ha => ha) fun _ _ ha => ha

/-- The client's balances are the same in both databases. -/
theorem balance? (currency : String) : d.balance? c currency = d'.balance? c currency :=
  find?_congr_filter h.balances (fun _ _ ha => decide_eq_true (of_decide_eq_true ha).1)
    fun _ _ ha => decide_eq_true (of_decide_eq_true ha).1

/-- The client's keys find the same trades in both databases. -/
theorem tradeByKey? (key : String) : d.tradeByKey? c key = d'.tradeByKey? c key :=
  find?_congr_filter h.trades (fun _ _ ha => decide_eq_true (of_decide_eq_true ha).1)
    fun _ _ ha => decide_eq_true (of_decide_eq_true ha).1

/-- The client is shown the same balances by both databases. -/
theorem balancesOf : d.balancesOf c = d'.balancesOf c := by
  rw [Database.balancesOf, h.balances]
  rfl

/-- The client's trades before a cursor are the same in both databases. -/
theorem tradesBelow (below : Option (ℤ ×ₗ String)) :
    d.tradesBelow c below = d'.tradesBelow c below := by
  have hfilter : ∀ l : List (TradeRow Timestamp),
      (l.filter fun t => t.clientId = c ∧ ∀ k ∈ below, t.keyset < k) =
        (l.filter (·.clientId = c)).filter fun t => ∀ k ∈ below, t.keyset < k := fun l => by
    rw [List.filter_filter]
    refine congrArg (List.filter · l) (funext fun t => ?_)
    simp [Bool.and_comm]
  rw [Database.tradesBelow, Database.tradesBelow, hfilter, hfilter, h.trades]

omit h in
/-- A change of rows that leaves them where they are. -/
theorem filter_map_congr {ρ : Type} {l l' : List ρ} {p : ρ → Bool} {f : ρ → ρ}
    (hf : ∀ a, p (f a) = p a) (h : l.filter p = l'.filter p) :
    (l.map f).filter p = (l'.map f).filter p := by
  rw [List.filter_map, List.filter_map, show p ∘ f = p from funext hf, h]

/-- A change that is made to both leaves the same rows of the client. By cases on the write; each
appends a row or changes rows in place, whoever's they are. -/
theorem apply (w : Write) : SameRows c (w.apply d) (w.apply d') := by
  obtain ⟨clients, balances, ledgerEntries, quotes, trades⟩ := h
  cases w with
  | client row =>
    refine ⟨?_, balances, ledgerEntries, quotes, trades⟩
    simp only [Write.apply, List.filter_append, clients]
  | balance row =>
    refine ⟨clients, ?_, ledgerEntries, quotes, trades⟩
    simp only [Write.apply, List.filter_append, balances]
  | setBalance clientId currency availableMinor =>
    refine ⟨clients, filter_map_congr (fun b => ?_) balances, ledgerEntries, quotes, trades⟩
    split <;> rfl
  | ledgerEntry row =>
    refine ⟨clients, balances, ?_, quotes, trades⟩
    simp only [Write.apply, List.filter_append, ledgerEntries]
  | quote row =>
    refine ⟨clients, balances, ledgerEntries, ?_, trades⟩
    simp only [Write.apply, List.filter_append, quotes]
  | executed id =>
    refine ⟨clients, balances, ledgerEntries, filter_map_congr (fun q => ?_) quotes, trades⟩
    split <;> rfl
  | trade row =>
    refine ⟨clients, balances, ledgerEntries, quotes, ?_⟩
    simp only [Write.apply, List.filter_append, trades]

end SameRows

/-! ## Quotes by their ids -/

namespace Linked

variable {d : Database} (h : Linked d)
include h

theorem quote?_eq_some {q : QuoteRow Timestamp} (hq : q ∈ d.quotes) : d.quote? q.id = some q :=
  find?_of_nodup h.quoteIds hq

/-- The trade of a quote is its client's. -/
theorem client_of_trade {t : TradeRow Timestamp} (ht : t ∈ d.trades) {q : QuoteRow Timestamp}
    (hq : q ∈ d.quotes) (hid : q.id = t.quoteId) : t.clientId = q.clientId := by
  obtain ⟨q', hq', hid', hc⟩ := h.trades t ht
  have := (h.quote?_eq_some hq).symm.trans (hid ▸ hid' ▸ h.quote?_eq_some hq')
  rw [Option.some.inj this, hc]

/-- A new quote with an id of its own keeps the tables linked. -/
theorem quote {row : QuoteRow Timestamp} (fresh : d.quote? row.id = none) :
    Linked ((Write.quote row).apply d) where
  quoteIds := nodup_map_concat h.quoteIds fun q hq hid => by
    have := List.find?_eq_none.mp fresh q hq
    simp [hid] at this
  trades t ht := by
    obtain ⟨q, hq, hid⟩ := h.trades t ht
    exact ⟨q, List.mem_append_left _ hq, hid⟩

/-- Marking a quote as executed keeps the tables linked. -/
theorem executed (id : Uuid) : Linked ((Write.executed id).apply d) where
  quoteIds := by
    have hids : ((Write.executed id).apply d).quotes.map QuoteRow.id =
      d.quotes.map QuoteRow.id := by
      simp only [Write.apply, List.map_map]
      refine List.map_congr_left fun q _ => ?_
      simp only [Function.comp_apply]
      split <;> rfl
    exact hids ▸ h.quoteIds
  trades t ht := by
    obtain ⟨q, hq, hid⟩ := h.trades t ht
    exact ⟨_, List.mem_map_of_mem hq, by split <;> exact hid⟩

/-- A trade of a quote of its own client keeps the tables linked. -/
theorem trade {row : TradeRow Timestamp} {q : QuoteRow Timestamp} (hq : q ∈ d.quotes)
    (hid : q.id = row.quoteId) (hc : q.clientId = row.clientId) :
    Linked ((Write.trade row).apply d) where
  quoteIds := h.quoteIds
  trades t ht := by
    rcases List.mem_append.mp ht with ht | ht
    · exact h.trades t ht
    · rw [List.mem_singleton.mp ht]
      exact ⟨q, hq, hid, hc⟩

end Linked

namespace Twinned

variable {c : Uuid} {F : Uuid → Prop} {d d' : Database} (h : Twinned c F d d')
include h

theorem symm : Twinned c F d' d :=
  ⟨h.rows.symm, h.right, h.left, fun u => (h.foreign u).trans Or.comm⟩

/-- A quote of the client's that one database has the other has, too. -/
theorem quote?_of_owned {u : Uuid} {q : QuoteRow Timestamp} (hq : d.quote? u = some q)
    (hc : q.clientId = c) : d'.quote? u = some q := by
  obtain ⟨hmem, rfl⟩ := mem_of_quote? hq
  have hmem' : q ∈ d'.quotes.filter (·.clientId = c) :=
    h.rows.quotes ▸ List.mem_filter.mpr ⟨hmem, by simpa using hc⟩
  exact h.right.quote?_eq_some (List.mem_filter.mp hmem').1

/-- A quote with the id of a foreign one is not the client's. -/
theorem not_owned {u : Uuid} (hu : F u) {q : QuoteRow Timestamp} (hq : d.quote? u = some q) :
    q.clientId ≠ c := by
  intro hc
  rcases (h.foreign u).mp hu with ⟨q', hq', hc'⟩ | ⟨q', hq', hc'⟩
  · exact hc' (Option.some.inj (hq'.symm.trans hq) ▸ hc)
  · exact hc' (Option.some.inj (hq'.symm.trans (h.quote?_of_owned hq hc)) ▸ hc)

/-- Where no other client has a quote, they have the same: the quote of either is the client's, and
the client's quotes are the same. -/
theorem quote?_eq {u : Uuid} (hu : ¬ F u) : d.quote? u = d'.quote? u := by
  have howned : ∀ {d d' : Database}, Twinned c F d d' → ∀ q, d.quote? u = some q →
      d'.quote? u = some q := fun h q hq => h.quote?_of_owned hq <| by
    by_contra hc
    exact hu ((h.foreign u).mpr (.inl ⟨q, hq, hc⟩))
  cases hq : d.quote? u with
  | some q => exact (howned h q hq).symm
  | none =>
    cases hq' : d'.quote? u with
    | none => rfl
    | some q => exact hq ▸ howned h.symm q hq'

/-- A foreign quote looks like none. `assertOwnedByClient` gives one answer for both, so the client
cannot tell which ids other clients use. -/
theorem assertOwned (u : Uuid) (message : String) :
    assertOwnedByClient QuoteRow.clientId ((d.quote? u).map QuoteRow.load) c message =
      assertOwnedByClient QuoteRow.clientId ((d'.quote? u).map QuoteRow.load) c message := by
  by_cases howned : ∃ q, d.quote? u = some q ∧ q.clientId = c
  · obtain ⟨q, hq, hc⟩ := howned
    rw [hq, h.quote?_of_owned hq hc]
  · have hforeign : ∀ {d : Database}, (¬ ∃ q, d.quote? u = some q ∧ q.clientId = c) →
        assertOwnedByClient QuoteRow.clientId ((d.quote? u).map QuoteRow.load) c message =
          .error (.notFoundException message) := by
      intro d hd
      cases hq : d.quote? u with
      | none => rfl
      | some q => exact if_pos fun hc => hd ⟨q, hq, hc⟩
    rw [hforeign howned, hforeign fun hother => howned
      (hother.imp fun q hq => ⟨h.symm.quote?_of_owned hq.1 hq.2, hq.2⟩)]

/-- The trade of the client's quote. -/
theorem tradeOfQuote? {q : QuoteRow Timestamp} (hq : d.quote? q.id = some q) (hc : q.clientId = c) :
    d.tradeOfQuote? q.id = d'.tradeOfQuote? q.id := by
  have hq' := h.quote?_of_owned hq hc
  refine find?_congr_filter h.rows.trades (fun t ht hid => ?_) fun t ht hid => ?_
  · exact decide_eq_true ((h.left.client_of_trade ht (mem_of_quote? hq).1
      (of_decide_eq_true hid).symm).trans hc)
  · exact decide_eq_true ((h.right.client_of_trade ht (mem_of_quote? hq').1
      (of_decide_eq_true hid).symm).trans hc)

end Twinned

/-! ## Statements -/

/-- The statements that read a client's money and trades, or move its money. Those on quotes are
not among them: they go by an id, which may be another client's. -/
def Stmt.About (c : Uuid) : Stmt → Prop
  | .insertBalanceIfAbsent c' _ _ | .lockBalance c' _ | .debitBalance c' _ _
  | .creditBalance c' _ _ | .selectBalances c' | .selectTradeByKey c' _ | .selectTrades c' _ _ =>
    c' = c
  | .insertLedgerEntry row => row.clientId = c
  | _ => False

/-- A statement about the client depends on its rows only: on databases with the same rows it
answers the same and writes the same. -/
theorem SameRows.exec {c : Uuid} {d d' : Database} (h : SameRows c d d') (now : Timestamp)
    {s : Stmt}
    (hs : s.About c) : MiniOpenFX.exec now d s = MiniOpenFX.exec now d' s := by
  cases s with
  | insertBalanceIfAbsent c' _ _ | lockBalance c' _ | debitBalance c' _ _ | creditBalance c' _ _ =>
    obtain rfl : c' = c := hs
    simp only [MiniOpenFX.exec, h.balance?, h.client?]
  | selectBalances c' =>
    obtain rfl : c' = c := hs
    simp only [MiniOpenFX.exec, h.balancesOf]
  | selectTradeByKey c' key =>
    obtain rfl : c' = c := hs
    simp only [MiniOpenFX.exec, h.tradeByKey?]
  | selectTrades c' cursor limit =>
    obtain rfl : c' = c := hs
    simp only [MiniOpenFX.exec, h.tradesBelow]
  | insertLedgerEntry row =>
    obtain rfl : row.clientId = c := hs
    simp only [MiniOpenFX.exec, h.client?]
  | insertClientIfAbsent | insertBalance | insertQuote | selectQuote | selectQuoteForUpdate
  | setQuoteExecuted | insertTrade => exact hs.elim

/-- Databases with the same rows of the client, and the quotes and the trades they had: the state
of a transaction that has locked, debited and credited, and not inserted its trade yet. -/
structure MoneyMoved (c : Uuid) (d d' v v' : Database) : Prop where
  rows : SameRows c v v'
  left : v.quotes = d.quotes ∧ v.trades = d.trades
  right : v'.quotes = d'.quotes ∧ v'.trades = d'.trades

/-- The statements about a client alone leave quotes and trades as they are. -/
theorem Stmt.About.quotes {c : Uuid} {d : Database} {now : Timestamp} {s : Stmt} (hs : s.About c)
    {r : StmtRes s} {ws : List Write} (hx : exec now d s = .ok (r, ws)) :
    (d.after ws).quotes = d.quotes ∧ (d.after ws).trades = d.trades := by
  cases s with
  | insertBalanceIfAbsent c' currency n =>
    obtain ⟨-, ⟨-, rfl⟩ | ⟨-, -, rfl⟩⟩ := exec_insertBalanceIfAbsent.mp hx <;> exact ⟨rfl, rfl⟩
  | lockBalance c' currency =>
    obtain ⟨-, rfl⟩ := exec_lockBalance.mp hx
    exact ⟨rfl, rfl⟩
  | debitBalance c' currency n =>
    obtain ⟨-, ⟨-, -, rfl⟩ | ⟨b, -, -, -, -, rfl⟩⟩ := exec_debitBalance.mp hx <;> exact ⟨rfl, rfl⟩
  | creditBalance c' currency n =>
    obtain ⟨-, ⟨-, -, rfl⟩ | ⟨b, -, -, rfl⟩⟩ := exec_creditBalance.mp hx <;> exact ⟨rfl, rfl⟩
  | selectBalances c' =>
    obtain ⟨-, rfl⟩ := exec_selectBalances.mp hx
    exact ⟨rfl, rfl⟩
  | selectTradeByKey c' key =>
    obtain ⟨-, rfl⟩ := exec_selectTradeByKey.mp hx
    exact ⟨rfl, rfl⟩
  | selectTrades c' cursor limit =>
    rw [exec_selectTrades_writes hx]
    exact ⟨rfl, rfl⟩
  | insertLedgerEntry row =>
    obtain ⟨-, -, rfl⟩ := exec_insertLedgerEntry.mp hx
    exact ⟨rfl, rfl⟩
  | insertClientIfAbsent | insertBalance | insertQuote | selectQuote | selectQuoteForUpdate
  | setQuoteExecuted | insertTrade => exact hs.elim

/-- What a transaction writes in both databases leaves them with the same rows of the client. -/
theorem SameRows.after {c : Uuid} {d d' : Database} (h : SameRows c d d') (ws : List Write) :
    SameRows c (d.after ws) (d'.after ws) := by
  induction ws generalizing d d' with
  | nil => exact h
  | cons w ws ih => exact ih (h.apply w)

/-- A statement about the client's money and trades, on both. It answers the same, and afterwards
still nothing but money has moved. -/
theorem MoneyMoved.exec {c : Uuid} {d d' v v' : Database} (h : MoneyMoved c d d' v v')
    (now : Timestamp)
    {s : Stmt} (hs : s.About c) :
    MiniOpenFX.exec now v s = MiniOpenFX.exec now v' s ∧ MoneyMoved c d d'
      (backend.left v (MiniOpenFX.exec now v s)) (backend.left v' (MiniOpenFX.exec now v' s)) := by
  have hsame := h.rows.exec now hs
  refine ⟨hsame, ?_⟩
  cases hx : MiniOpenFX.exec now v s with
  | error e =>
    rw [← hsame, hx]
    exact h
  | ok r =>
    obtain ⟨r, ws⟩ := r
    obtain ⟨hq, ht⟩ := hs.quotes hx
    obtain ⟨hq', ht'⟩ := hs.quotes (hsame ▸ hx)
    rw [← hsame, hx]
    exact ⟨h.rows.after ws, ⟨hq.trans h.left.1, ht.trans h.left.2⟩,
      ⟨hq'.trans h.right.1, ht'.trans h.right.2⟩⟩

/-- Tables with the quotes and trades of linked ones are linked. -/
theorem Linked.of_same {d v : Database} (h : Linked d)
    (hv : v.quotes = d.quotes ∧ v.trades = d.trades) :
    Linked v where
  quoteIds := hv.1 ▸ h.quoteIds
  trades := by
    rw [hv.1, hv.2]
    exact h.trades

/-- A transaction that has only moved money sees databases that are twins, as the committed ones
are. -/
theorem MoneyMoved.twinned {c : Uuid} {F : Uuid → Prop} {d d' v v' : Database}
    (h : MoneyMoved c d d' v v') (hd : Twinned c F d d') : Twinned c F v v' := by
  refine ⟨h.rows, hd.left.of_same h.left, hd.right.of_same h.right, fun u => ?_⟩
  rw [hd.foreign, Database.HasForeign, Database.HasForeign, Database.HasForeign,
    Database.HasForeign]
  simp only [Database.quote?, h.left.1, h.right.1]

/-- A transaction that has not written anything has only moved money. -/
theorem Twinned.moneyMoved {c : Uuid} {F : Uuid → Prop} {d d' : Database}
    (h : Twinned c F d d') : MoneyMoved c d d' d d' :=
  ⟨h.rows, ⟨rfl, rfl⟩, ⟨rfl, rfl⟩⟩

/-- A new trade of the client's quote, on both. Its indexes are met on both sides or on neither:
the key's by the client's own rows, the quote's as the quote is the client's. -/
theorem Twinned.insertTrade {c : Uuid} {F : Uuid → Prop} {d d' : Database}
    (h : Twinned c F d d') (now : Timestamp)
    {v : TradeValues} {q : QuoteRow Timestamp} (hc : v.clientId = c) (hid : v.quoteId = q.id)
    (hq : d.quote? q.id = some q) (owned : q.clientId = c) (fresh : d.trade? v.id = none)
    (fresh' : d'.trade? v.id = none) :
    exec now d (.insertTrade v) = exec now d' (.insertTrade v) ∧
      Twinned c F (backend.left d (exec now d (.insertTrade v)))
        (backend.left d' (exec now d' (.insertTrade v))) := by
  have hq' := h.quote?_of_owned hq owned
  have hsame : exec now d (.insertTrade v) = exec now d' (.insertTrade v) := by
    simp only [exec, fresh, fresh', hid, hc, hq, hq', h.tradeOfQuote? hq owned, h.rows.tradeByKey?,
      h.rows.client?]
  refine ⟨hsame, ?_⟩
  cases hx : exec now d (.insertTrade v) with
  | error e =>
    rw [← hsame, hx]
    exact h
  | ok r =>
    obtain ⟨r, ws⟩ := r
    rw [← hsame, hx]
    obtain ⟨-, -, -, -, -, -, -, -, rfl⟩ := exec_insertTrade.mp hx
    change Twinned c F ((Write.trade (v.row now)).apply d) ((Write.trade (v.row now)).apply d')
    exact ⟨h.rows.apply _, h.left.trade (mem_of_quote? hq).1 hid.symm (owned.trans hc.symm),
      h.right.trade (mem_of_quote? hq').1 hid.symm (owned.trans hc.symm), h.foreign⟩

/-- A new quote of the client, on both. The id is in use in neither, and every other check is about
the values alone or the client's row. -/
theorem Twinned.insertQuote {c : Uuid} {F : Uuid → Prop} {d d' : Database}
    (h : Twinned c F d d') (now : Timestamp)
    {v : QuoteValues} (hc : v.clientId = c) (fresh : d.quote? v.id = none)
    (fresh' : d'.quote? v.id = none) :
    exec now d (.insertQuote v) = exec now d' (.insertQuote v) ∧
      Twinned c F (backend.left d (exec now d (.insertQuote v)))
        (backend.left d' (exec now d' (.insertQuote v))) := by
  have hsame : exec now d (.insertQuote v) = exec now d' (.insertQuote v) := by
    simp only [exec, fresh, fresh', hc, h.rows.client?]
  refine ⟨hsame, ?_⟩
  cases hx : exec now d (.insertQuote v) with
  | error e =>
    rw [← hsame, hx]
    exact h
  | ok r =>
    obtain ⟨r, ws⟩ := r
    rw [← hsame, hx]
    obtain ⟨-, t, -, -, -, -, -, -, rfl⟩ := exec_insertQuote.mp hx
    change Twinned c F ((Write.quote (v.row t now)).apply d) ((Write.quote (v.row t now)).apply d')
    have hforeign : ∀ (d : Database) u,
        ((Write.quote (v.row t now)).apply d).HasForeign c u ↔ d.HasForeign c u := by
      intro d u
      simp only [Database.HasForeign, quote?_apply_quote]
      cases d.quote? u with
      | some q => rfl
      | none =>
        simp only [Option.none_or, Option.ite_none_right_eq_some, Option.some.injEq, reduceCtorEq,
          false_and, exists_false, iff_false]
        rintro ⟨q, ⟨-, rfl⟩, hne⟩
        exact hne hc
    exact ⟨h.rows.apply _, h.left.quote fresh, h.right.quote fresh', fun u => by
      rw [h.foreign, hforeign, hforeign]⟩

/-- Marking the same quote as executed in both databases leaves them twins. -/
theorem Twinned.executed {c : Uuid} {F : Uuid → Prop} {d d' : Database} (h : Twinned c F d d')
    (id : Uuid) : Twinned c F ((Write.executed id).apply d) ((Write.executed id).apply d') := by
  have hforeign : ∀ (d : Database) u, ((Write.executed id).apply d).HasForeign c u ↔
    d.HasForeign c u := by
    intro d u
    simp only [Database.HasForeign, quote?_apply_executed, Option.map_eq_some_iff]
    constructor
    · rintro ⟨_, ⟨q, hq, rfl⟩, hc⟩
      exact ⟨q, hq, fun h => hc (by split <;> exact h)⟩
    · rintro ⟨q, hq, hc⟩
      exact ⟨_, ⟨q, hq, rfl⟩, fun h => hc (by split at h <;> exact h)⟩
  exact ⟨h.rows.apply _, h.left.executed id, h.right.executed id, fun u => by
    rw [h.foreign, hforeign, hforeign]⟩

/-! ## Money -/

/-- The act is a statement about the client's money and trades. -/
def IsAbout (c : Uuid) : Act sig → Prop
  | .sql s => s.About c
  | _ => False

section
variable {A : Choice → Prop} {E : Surroundings → Surroundings → Prop} {α : Type} {c : Uuid}
  {F : Uuid → Prop}
  {d d' : Database} {t : Twins backend}

/-- Money moves alike, and the quotes and the trades stay. By induction on the program, with
`MoneyMoved.exec` for each statement. -/
theorem moneyMoved_twin {p : App α} (hp : p.Acts (IsAbout c))
    (h : MoneyMoved c d d' t.view.1 t.view.2)
    (ht : t = t.seeing t.view) :
    p.Twin A E (fun _ u => MoneyMoved c d d' u.view.1 u.view.2 ∧ u = t.seeing u.view) t := by
  refine Prog.Acts.twin (P := IsAbout c) (D := MoneyMoved c d d') (fun a ha => ?_)
    (fun s χ st v v' hs _ hv => ?_) (fun x χ e e' hx _ _ => hx.elim) hp h ht
  · cases a with
    | sql s => trivial
    | begin | commit | rollback | ext => exact ha.elim
  · obtain ⟨hsame, hmoved⟩ := hv.exec st hs
    exact ⟨congrArg (Except.map Prod.fst) hsame, hmoved⟩

/-- A statement about the client is an act about the client. -/
theorem query_about {s : Stmt} (hs : s.About c) : (App.query s).Acts (IsAbout c) :=
  Prog.acts_query hs

/-- `lockBalanceRows` has only statements about its client. -/
theorem lockBalanceRows_about (c : Uuid) (currencies : List String) :
    (LedgerService.lockBalanceRows c currencies).Acts (IsAbout c) := by
  refine (forM_acts fun _ => query_about (by exact rfl)).bind fun _ => Prog.Acts.bind ?_ fun _ => ?_
  · exact forM_acts fun _ => Prog.Acts.bind (query_about (by exact rfl)) fun _ => trivial
  · trivial

/-- `debit` has only statements about the client whose balance it moves. -/
theorem debit_about (lock : BalanceLock) {params : LedgerMovementParams}
    (hc : params.clientId = c) :
    (LedgerService.debit lock params).Acts (IsAbout c) := by
  refine Prog.Acts.bind (show (App.ofExcept _).Acts _ from trivial) fun _ =>
    (query_about (by exact hc)).bind fun updated => ?_
  cases updated with
  | none => trivial
  | some _ => exact query_about (by exact hc)

/-- `credit` has only statements about the client whose balance it moves. -/
theorem credit_about (lock : BalanceLock) {params : LedgerMovementParams}
    (hc : params.clientId = c) :
    (LedgerService.credit lock params).Acts (IsAbout c) :=
  Prog.Acts.bind (show (App.ofExcept _).Acts _ from trivial) fun _ =>
    (query_about (by exact hc)).bind fun _ => query_about (by exact hc)

/-! ## Trades -/

/-- The id is in use in neither: no quote and no trade has it. -/
def Unused (d d' : Database) (id : Uuid) : Prop :=
  (d.trade? id = none ∧ d.quote? id = none) ∧ d'.trade? id = none ∧ d'.quote? id = none

instance (d d' : Database) (id : Uuid) : Decidable (Unused d d' id) := inferInstanceAs
  (Decidable ((d.trade? id = none ∧ d.quote? id = none) ∧ d'.trade? id = none ∧
    d'.quote? id = none))

/-- An id that is new to both databases is new to a transaction that has only moved money. -/
theorem MoneyMoved.unused {v v' : Database} (h : MoneyMoved c d d' v v') {id : Uuid}
    (hid : Unused d d' id) : Unused v v' id := by
  obtain ⟨⟨ht, hq⟩, ht', hq'⟩ := hid
  refine ⟨⟨?_, ?_⟩, ?_, ?_⟩
  · rwa [Database.trade?, h.left.2]
  · rwa [Database.quote?, h.left.1]
  · rwa [Database.trade?, h.right.2]
  · rwa [Database.quote?, h.right.1]

/-- A quote is locked by its id, and then it is the client's or there is none: the two runs go on
together in the first case and fail with one message in the second. -/
theorem lockQuote_twin {β : Type} {Q : Except JsError β → Twins backend → Prop}
    {g : QuoteRow Date → App β} (h : Twinned c F d d') (quoteId message : String) (st : Timestamp)
    (herr : ∀ e, Q (.error e) (Twins.inside (d, d') (d, d') st))
    (hok : ∀ q, d.quote? q.id = some q → q.clientId = c →
      (g q.load).Twin A E Q (Twins.inside (d, d') (d, d') st)) :
    ((App.query (.selectQuoteForUpdate quoteId)).bind fun row =>
      (App.ofExcept (assertOwnedByClient QuoteRow.clientId row c message)).bind g).Twin A E Q
      (Twins.inside (B := backend) (d, d') (d, d') st) := by
  refine Prog.twin_query_bind fun χ st' _ _ => ?_
  cases hu : Uuid.ofText? quoteId with
  | none =>
    have hx : ∀ v, backend.exec (.selectQuoteForUpdate quoteId) χ st' v =
        .error invalidTextRepresentation := fun v => by simp only [exec, hu]
    rw [hx, hx]
    exact ⟨rfl, herr _⟩
  | some u =>
    have hx : ∀ v : Database, backend.exec (.selectQuoteForUpdate quoteId) χ st' v =
        .ok ((v.quote? u).map QuoteRow.load, []) := fun v => by simp only [exec, hu]
    rw [hx, hx]
    have howned := h.assertOwned u message
    refine ⟨congrArg (fun r => (App.ofExcept r).bind g) howned, ?_⟩
    change Prog.Twin A E Q (Twins.inside (d, d') (d, d') st) ((App.ofExcept
      (assertOwnedByClient QuoteRow.clientId ((d.quote? u).map QuoteRow.load) c message)).bind g)
    cases hr : assertOwnedByClient QuoteRow.clientId ((d.quote? u).map QuoteRow.load) c message with
    | error e => exact herr e
    | ok quote =>
      obtain ⟨hrow, hc⟩ := assertOwnedByClient_ok hr
      obtain ⟨q, hq, rfl⟩ := Option.map_eq_some_iff.mp hrow
      obtain rfl : q.id = u := (mem_of_quote? hq).2
      exact hok q hq hc

/-- The trade's row, and the status of its quote: the last two statements of the transaction. A
failing one ends both runs; otherwise the views are twins again. -/
theorem insertTrade_twin {d₁ d₁' : Database} (h : Twinned c F d d') (hk : MoneyMoved c d d' d₁ d₁')
    {q : QuoteRow Timestamp} (hq : d.quote? q.id = some q) (hc : q.clientId = c) {v : TradeValues}
    (fresh : Unused d d' v.id) (hv : v.clientId = c) (hid : v.quoteId = q.id) {st : Timestamp}
    {Q : Except JsError (TradeRow Date) → Twins backend → Prop}
    (herr : ∀ e v, Q (.error e) (Twins.inside (d, d') v st))
    (hok : ∀ trade v, Twinned c F v.1 v.2 → Q (.ok trade) (Twins.inside (d, d') v st)) :
    (do
      let trade : TradeRow Date ← App.query (.insertTrade v)
      App.query (.setQuoteExecuted q.id)
      return trade : App (TradeRow Date)).Twin A E Q
      (Twins.inside (B := backend) (d, d') (d₁, d₁') st) := by
  have hq₁ : d₁.quote? q.id = some q := by rw [Database.quote?, hk.left.1]; exact hq
  have hfresh := hk.unused fresh
  refine Prog.twin_query_bind fun χ st' _ hst => ?_
  obtain rfl := hst st rfl
  obtain ⟨hsame, htwin⟩ := (hk.twinned h).insertTrade st hv hid hq₁ hc
    hfresh.1.1 hfresh.2.1
  refine ⟨congrArg (fun r => (Prog.done (Except.map Prod.fst r)).bind _) hsame, ?_⟩
  change Prog.Twin (B := backend) A E Q (Twins.inside (d, d') (backend.left d₁
    (exec st d₁ (.insertTrade v)), backend.left d₁' (exec st d₁' (.insertTrade v))) st)
    ((Prog.done ((exec st d₁ (.insertTrade v)).map Prod.fst)).bind _)
  cases hx : exec st d₁ (.insertTrade v) with
  | error e => exact herr e _
  | ok r =>
    obtain ⟨trade, ws⟩ := r
    rw [← hsame, hx] at htwin ⊢
    refine Prog.twin_query_bind fun χ st' _ hst => ?_
    obtain rfl := hst st rfl
    exact ⟨rfl, hok trade _ (htwin.executed q.id)⟩

/-- The transaction of a trade, on twins. Whatever happens, the committed tables stay as they are;
when it returns, what both have written is twinned, too. -/
theorem executeWithinTransaction_twin (h : Twinned c F d d') (hA : ∀ χ, A χ → Unused d d' χ.uuid)
    (hE : ∀ {e e'}, E e e' → e.dateNow = e'.dateNow) (quoteId key : String) (st : Timestamp) :
    (TradingService.executeWithinTransaction c quoteId key).Twin A E
      (fun r u => u.data = (d, d') ∧ ∀ a, r = .ok a → Twinned c F u.view.1 u.view.2)
      (Twins.inside (B := backend) (d, d') (d, d') st) := by
  have hfail : ∀ {α : Type} (e : JsError) (v : Database × Database),
      (Twins.inside (B := backend) (d, d') v st).data = (d, d') ∧
        ∀ a, (Except.error e : Except JsError α) = .ok a → Twinned c F v.1 v.2 :=
    fun e v => ⟨rfl, fun a ha => by cases ha⟩
  have hinside : ∀ {v : Database × Database} {t : Twins backend},
      t = (Twins.inside (B := backend) (d, d') v st).seeing t.view →
        t = Twins.inside (B := backend) (d, d') t.view st := fun ht => ht
  refine lockQuote_twin h quoteId _ st (fun e => hfail e _) fun q hq hc => ?_
  split
  · exact hfail _ _
  refine Prog.twin_request_bind fun χ e e' _ he => ⟨congrArg Except.ok (hE he), he, ?_⟩
  change Prog.Twin (B := backend) A E _ _ (if e.dateNow ≥ _ then _ else _)
  split
  · exact hfail _ _
  refine (moneyMoved_twin (lockBalanceRows_about c _) h.moneyMoved rfl).bind (fun lock t hk => ?_)
    fun e t hk => hinside hk.2 ▸ hfail e _
  obtain ⟨hk, ht⟩ := hk
  rw [hinside ht]
  refine Prog.twin_request_bind fun χ e e' hχ he => ⟨rfl, he, ?_⟩
  change Prog.Twin (B := backend) A E _ _ ((LedgerService.debit lock _).bind _)
  refine Prog.Twin.bind (moneyMoved_twin (debit_about lock rfl) hk rfl) (fun _ t hk => ?_)
    fun e t hk => hinside hk.2 ▸ hfail e _
  obtain ⟨hk, ht⟩ := hk
  rw [hinside ht]
  refine Prog.Twin.bind (moneyMoved_twin (credit_about lock rfl) hk rfl) (fun _ t hk => ?_)
    fun e t hk => hinside hk.2 ▸ hfail e _
  obtain ⟨hk, ht⟩ := hk
  rw [hinside ht]
  exact insertTrade_twin h hk hq hc (hA χ hχ) rfl rfl (fun e v => hfail e v)
    fun trade v hv => ⟨rfl, fun _ _ => hv⟩

end

end MiniOpenFX
