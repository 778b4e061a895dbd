import MiniOpenFX.Guarantees.Seeding
import MiniOpenFX.Transactional.Fitting

/-!
# The schema holds

What the schema asks of the tables, they satisfy at any time (`schema_kept`): the primary keys and
unique indexes, the foreign keys, and the ranges of the amounts. A foreign key and a range are
checked by a statement against what its transaction sees; no row is deleted, so the check still
stands at the commit.
-/

namespace MiniOpenFX

open Js Transactional

/-! ## Foreign keys and ranges -/

/-- The rows belong to clients that are in `db`, the trades also to its quotes, and their amounts
are in the range of their columns. -/
structure Database.References (rows db : Database) : Prop where
  balances : ∀ b ∈ rows.balances, (db.client? b.clientId).isSome ∧ inBigint b.availableMinor
  ledgerEntries : ∀ x ∈ rows.ledgerEntries,
    (db.client? x.clientId).isSome ∧ inBigint x.deltaMinor
  quotes : ∀ q ∈ rows.quotes, (db.client? q.clientId).isSome ∧ inBigint q.baseAmountMinor ∧
    inBigint q.quoteAmountMinor
  trades : ∀ t ∈ rows.trades, (db.client? t.clientId).isSome ∧ (db.quote? t.quoteId).isSome ∧
    inBigint t.baseAmountMinor ∧ inBigint t.quoteAmountMinor

/-- What Postgres checks of a new version of a row, unique indexes apart: the client or quote it
refers to is there, and its amounts are in range. -/
def Write.Fits (db : Database) : Write → Prop
  | .client _ | .executed _ => True
  | .balance row => (db.client? row.clientId).isSome ∧ inBigint row.availableMinor
  | .setBalance _ _ availableMinor => inBigint availableMinor
  | .ledgerEntry row => (db.client? row.clientId).isSome ∧ inBigint row.deltaMinor
  | .quote row => (db.client? row.clientId).isSome ∧ inBigint row.baseAmountMinor ∧
    inBigint row.quoteAmountMinor
  | .trade row => (db.client? row.clientId).isSome ∧ (db.quote? row.quoteId).isSome ∧
    inBigint row.baseAmountMinor ∧ inBigint row.quoteAmountMinor

/-- The clients and quotes that rows may refer to stay. No statement of the services deletes
anything. -/
structure Database.Keeps (db db' : Database) : Prop where
  clients : ∀ id, (db.client? id).isSome → (db'.client? id).isSome
  quotes : ∀ id, (db.quote? id).isSome → (db'.quote? id).isSome

section
variable {db db' : Database}

/-- A client is there after a write if it was there before or is what is written. -/
theorem isSome_client?_apply (w : Write) (db : Database) (id : Uuid) :
    ((w.apply db).client? id).isSome ↔
      (db.client? id).isSome ∨ ∃ row, w = .client row ∧ row.id = id := by
  cases w with
  | client row =>
    rw [client?_apply_client]
    cases db.client? id <;> simp
  | _ => simp [Write.apply, Database.client?]

/-- A quote is there after a write if it was there before or is what is written. -/
theorem isSome_quote?_apply (w : Write) (db : Database) (id : Uuid) :
    ((w.apply db).quote? id).isSome ↔
      (db.quote? id).isSome ∨ ∃ row, w = .quote row ∧ row.id = id := by
  cases w with
  | quote row =>
    rw [quote?_apply_quote]
    cases db.quote? id <;> simp
  | executed u => simp [quote?_apply_executed]
  | _ => simp [Write.apply, Database.quote?]

/-- No write takes a client or a quote away, so that references to them stay good. -/
theorem Database.Keeps.apply (db : Database) (w : Write) : db.Keeps (w.apply db) :=
  ⟨fun id h => (isSome_client?_apply w db id).mpr (.inl h),
    fun id h => (isSome_quote?_apply w db id).mpr (.inl h)⟩

/-- Nothing spoils what Postgres has checked: a write that fits goes on fitting while the tables
only gain clients and quotes. -/
def rowChecks : Fitting backend where
  Fits := Write.Fits
  Grows := Database.Keeps
  grows_refl _ := ⟨fun _ h => h, fun _ h => h⟩
  grows_trans h h' := ⟨fun id hid => h'.clients id (h.clients id hid),
    fun id hid => h'.quotes id (h.quotes id hid)⟩
  grows_apply {db w} _ := .apply db w
  fits_mono {db db' w} h hw := by
    cases w with
    | client | setBalance | executed => exact hw
    | balance | ledgerEntry | quote => exact ⟨h.clients _ hw.1, hw.2⟩
    | trade => exact ⟨h.clients _ hw.1, h.quotes _ hw.2.1, hw.2.2⟩
  apply_mono {db db'} w h :=
    ⟨fun id hid => (isSome_client?_apply w db' id).mpr
        (((isSome_client?_apply w db id).mp hid).imp_left (h.clients id)),
      fun id hid => (isSome_quote?_apply w db' id).mpr
        (((isSome_quote?_apply w db id).mp hid).imp_left (h.quotes id))⟩

/-- Every statement checks what it writes. By cases on the statement, each with the checks that
`exec` makes. -/
theorem rowChecks_checked : rowChecks.Checked := by
  intro st χ now db r ws hx
  have hx : exec now db st = .ok (r, ws) := hx
  have hone : ∀ {w : Write}, w.Fits db → rowChecks.FitAll db [w] := fun h => ⟨h, trivial⟩
  cases st with
  | insertClientIfAbsent id name =>
    obtain ⟨-, -, rfl⟩ | ⟨-, -, -, rfl⟩ := exec_insertClientIfAbsent.mp hx
    · trivial
    · exact hone trivial
  | insertBalance c cur n =>
    obtain ⟨hn, -, hc, rfl⟩ := exec_insertBalance.mp hx
    exact hone ⟨hc, hn⟩
  | insertBalanceIfAbsent c cur n =>
    obtain ⟨hn, ⟨-, rfl⟩ | ⟨-, hc, rfl⟩⟩ := exec_insertBalanceIfAbsent.mp hx
    · trivial
    · exact hone ⟨hc, hn⟩
  | lockBalance c cur =>
    obtain ⟨-, rfl⟩ := exec_lockBalance.mp hx
    trivial
  | debitBalance c cur n =>
    obtain ⟨-, ⟨-, -, rfl⟩ | ⟨b, -, -, hb, -, rfl⟩⟩ := exec_debitBalance.mp hx
    · trivial
    · exact hone hb
  | creditBalance c cur n =>
    obtain ⟨hn, ⟨-, hc, rfl⟩ | ⟨b, -, hb, rfl⟩⟩ := exec_creditBalance.mp hx
    · exact hone ⟨hc, hn⟩
    · exact hone hb
  | selectBalances c =>
    obtain ⟨-, rfl⟩ := exec_selectBalances.mp hx
    trivial
  | insertLedgerEntry row =>
    obtain ⟨hn, hc, rfl⟩ := exec_insertLedgerEntry.mp hx
    exact hone ⟨hc, hn⟩
  | insertQuote v =>
    obtain ⟨-, -, -, hbase, hquote, -, hc, -, rfl⟩ := exec_insertQuote.mp hx
    exact hone ⟨hc, hbase, hquote⟩
  | selectQuote id =>
    obtain ⟨-, -, -, rfl⟩ := exec_selectQuote.mp hx
    trivial
  | selectQuoteForUpdate id =>
    obtain ⟨-, -, -, rfl⟩ := exec_selectQuoteForUpdate.mp hx
    trivial
  | setQuoteExecuted id =>
    obtain rfl := exec_setQuoteExecuted.mp hx
    exact hone trivial
  | insertTrade v =>
    obtain ⟨hbase, hquote, -, -, -, hc, hq, -, rfl⟩ := exec_insertTrade.mp hx
    exact hone ⟨hc, hq, hbase, hquote⟩
  | selectTradeByKey c key =>
    obtain ⟨-, rfl⟩ := exec_selectTradeByKey.mp hx
    trivial
  | selectTrades c cursor limit =>
    obtain rfl := exec_selectTrades_writes hx
    trivial

/-- Rows refer to what is there as long as this only grows. -/
theorem Database.References.mono {rows : Database} (h : rows.References db) (hk : db.Keeps db') :
    rows.References db' where
  balances b hb := (h.balances b hb).imp_left (hk.clients _)
  ledgerEntries x hx := (h.ledgerEntries x hx).imp_left (hk.clients _)
  quotes q hq := (h.quotes q hq).imp_left (hk.clients _)
  trades t ht := (h.trades t ht).imp (hk.clients _) (And.imp_left (hk.quotes _))

/-- A write that fits keeps the tables whole: the row it adds or changes is good, and what others
refer to stays. -/
theorem Database.References.write {w : Write} (hw : w.Fits db) (h : db.References db) :
    (w.apply db).References (w.apply db) := by
  have h := h.mono (.apply db w)
  have hw := rowChecks.fits_mono (.apply db w) hw
  have hnew : ∀ {ρ : Type} {l : List ρ} {a : ρ} {P : ρ → Prop}, (∀ b ∈ l, P b) → P a →
      ∀ b ∈ l ++ [a], P b :=
    fun hl ha => List.forall_mem_append.mpr ⟨hl, List.forall_mem_singleton.mpr ha⟩
  cases w with
  | client row => exact { h with }
  | balance row => exact { h with balances := hnew h.balances hw }
  | setBalance c cur n =>
    refine { h with balances := List.forall_mem_map.mpr fun b hb => ?_ }
    split
    · exact ⟨(h.balances b hb).1, hw⟩
    · exact h.balances b hb
  | ledgerEntry row => exact { h with ledgerEntries := hnew h.ledgerEntries hw }
  | quote row => exact { h with quotes := hnew h.quotes hw }
  | executed id =>
    refine { h with quotes := List.forall_mem_map.mpr fun q hq => ?_ }
    split <;> exact h.quotes q hq
  | trade row => exact { h with trades := hnew h.trades hw }

end

section
variable [DecimalJs] {clients : List ClientRow} {e : Surroundings} {s s' : Sys}
  {l : Label backend Call}

/-- Foreign keys and ranges hold of the committed data, and of what every transaction sees. The
second part is what lets its commit keep the first. -/
theorem references_of_reaches (h : State.Reaches program (Sys.start clients e) s) :
    s.data.References s.data ∧ ∀ t ∈ s.threads,
      Database.References (s.world t).view (s.world t).view := by
  have hstart : (Database.ofClients clients).References (.ofClients clients) :=
    ⟨fun _ h => (by cases h), fun _ h => (by cases h), fun _ h => (by cases h),
      fun _ h => (by cases h)⟩
  have hkeeps : ∀ {db ws}, rowChecks.FitAll db ws → db.References db →
      (db.after ws).References (db.after ws) := fun hws hdb =>
    hws.keeps (P := fun db => Database.References db db) (fun _ _ hw hdb => hdb.write hw) hdb
  obtain ⟨hfit, ws, hws, hdata⟩ := h.fitting rowChecks_checked fun t ht => by cases ht
  have hdb : s.data.References s.data := hdata ▸ hkeeps hws hstart
  refine ⟨hdb, fun t ht => ?_⟩
  obtain ⟨ws, hws, hview⟩ := hfit.view ht
  exact hview ▸ hkeeps hws hdb

/-! ## Clients -/

/-- A step makes no client, or one whose id and name are new. -/
theorem clients_of_step (hs : State.Reaches program (Sys.start clients e) s)
    (hst : s.step program l = some s') : s'.data.clients = s.data.clients ∨
      ∃ row : ClientRow, s'.data.clients = s.data.clients ++ [row] ∧ s.data.client? row.id = none ∧
        s.data.clientNamed? row.name = none := by
  rcases tables_of_step (isolated_of_reaches hs) hst with
    ⟨-, hdata | ⟨t, -, row, dto, -, -, hdata⟩⟩ |
    ⟨c, ℓ, -, alone⟩
  · exact .inl (by rw [hdata])
  · exact .inl (by rw [hdata]; rfl)
  by_cases hseed : c = .seed
  · subst hseed
    obtain ⟨client, ws, -, hdata, hrun⟩ := alone.seedRun
    cases hrun with
    | found => exact .inl (by rw [hdata]; rfl)
    | @made client funds _ named fresh allowed after =>
      refine .inr ⟨client, ?_, allowed.1, named ▸ fresh⟩
      rw [hdata, after, Effect.apply, Database.postEntries_clients]
      rfl
  · obtain ⟨eff, -, hdata, hby⟩ := alone.effect
    cases eff with
    | nothing | seed => exact absurd hby hseed
    | quote row => cases hby
    | deposit | trade => exact .inl (by simp [hdata, Effect.apply, Write.apply])

/-! ## The schema -/

/-- What the schema asks of the tables: its primary keys and unique indexes, its foreign keys, and
the ranges of its columns. Balances and ledger entries have no ids here, since nothing refers to
them by id. -/
structure Schema (db : Database) : Prop where
  clientIds : (db.clients.map ClientRow.id).Nodup
  clientNames : (db.clients.map ClientRow.name).Nodup
  accounts : (db.balances.map fun b => (b.clientId, b.currency)).Nodup
  quoteIds : (db.quotes.map QuoteRow.id).Nodup
  tradeIds : (db.trades.map TradeRow.id).Nodup
  tradeQuotes : (db.trades.map TradeRow.quoteId).Nodup
  tradeKeys : (db.trades.map fun t => (t.clientId, t.idempotencyKey)).Nodup
  references : db.References db

/-- **The schema holds.** Whatever calls are in progress, and however their acts interleave, fail
and crash: at any time the ids of clients, quotes and trades, the names, the accounts, and the
quotes and keys of trades are unique, every row belongs to a client that is there and every trade
to a quote, and every amount is in the range of its column. -/
theorem schema_kept [LawfulDecimalJs] (ids : (clients.map ClientRow.id).Nodup)
    (names : (clients.map ClientRow.name).Nodup)
    (h : State.Reaches program (Sys.start clients e) s) : Schema s.data := by
  have hclients : State.Reaches program (Sys.start clients e) s ∧
      (s.data.clients.map ClientRow.id).Nodup ∧ (s.data.clients.map ClientRow.name).Nodup := by
    refine h.invariant (I := fun u : Sys => State.Reaches program (Sys.start clients e) u ∧
      (u.data.clients.map ClientRow.id).Nodup ∧ (u.data.clients.map ClientRow.name).Nodup)
      ⟨.refl _, ids, names⟩ ?_
    rintro u l u' ⟨hu, hids, hnames⟩ hst
    refine ⟨hu.tail hst, ?_⟩
    rcases clients_of_step hu hst with hsame | ⟨row, hnew, hid, hname⟩
    · rw [hsame]
      exact ⟨hids, hnames⟩
    · rw [hnew]
      exact ⟨nodup_map_concat hids fun c hc heq =>
          List.find?_eq_none.mp hid c hc (decide_eq_true heq),
        nodup_map_concat hnames fun c hc heq =>
          List.find?_eq_none.mp hname c hc (decide_eq_true heq)⟩
  have hrecords := records_of_reaches h
  exact ⟨hclients.2.1, hclients.2.2, (accounts_of_reaches h).unique, hrecords.quoteIds,
    hrecords.tradeIds, hrecords.tradeQuotes, hrecords.tradeKeys, (references_of_reaches h).1⟩

end

section
open scoped Reference

/-- The tables after Alice's trade. -/
theorem schema_kept_traded : Schema Sample.traded.data :=
  schema_kept (by decide) (by decide) Sample.traded_reached

end

end MiniOpenFX
