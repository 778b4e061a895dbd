import MiniOpenFX.Db.Statements

/-!
# What the statements do

One theorem for each statement: when it succeeds, what it returns and what it writes. Everything
proved about a statement goes through its theorem.
-/

namespace MiniOpenFX

open Js

variable {now : Timestamp} {db : Database} {ws : List Write}

/-- Two successful outcomes are the same if they have the same answer and the same writes. -/
theorem ok_iff {ρ : Type} {r r' : ρ} {ws ws' : List Write} :
    (Except.ok (r', ws') : Except JsError (ρ × List Write)) = .ok (r, ws) ↔ r = r' ∧ ws = ws' := by
  simp [eq_comm]

/-- What a statement returns, it returns with some writes; histories have only the former. It is
the way back from a history to `exec`. -/
theorem ok_of_map_fst {ρ : Type} {x : Except JsError (ρ × List Write)} {r : ρ}
    (h : x.map Prod.fst = .ok r) : ∃ ws, x = .ok (r, ws) := by
  cases x with
  | ok p => exact ⟨p.2, by cases h; rfl⟩
  | error e => cases h

/-- A statement that fails is reported as a failed query: drizzle wraps the error of Postgres, with
its code and constraint, in one of its own. -/
theorem exec_error {s : Stmt} {e : JsError} (h : exec now db s = .error e) :
    ∃ cause, e = .drizzleQueryError cause := by
  cases s with
  | selectTrades clientId cursor limit =>
    cases cursor with
    | none => cases h
    | some cursor =>
      simp only [exec] at h
      split at h
      · next hk =>
        cases h
        obtain ⟨createdAt, id⟩ := cursor
        simp only [keysetOperands] at hk
        split at hk
        · cases hk
        all_goals
          cases hk
          exact ⟨_, rfl⟩
      · cases h
  | _ =>
    simp only [exec] at h
    repeat' split at h
    all_goals
      cases h
      try exact ⟨_, rfl⟩

/-- `ON CONFLICT DO NOTHING` on the name: the client is made and returned, or there is one of that
name and nothing is returned. An id that is taken is an error, as the conflict target is the name
only. -/
theorem exec_insertClientIfAbsent {id : Uuid} {name : String} {r : Option ClientRow} :
    exec now db (.insertClientIfAbsent id name) = .ok (r, ws) ↔
      (db.clientNamed? name).isSome ∧ r = none ∧ ws = [] ∨
      db.clientNamed? name = none ∧ db.client? id = none ∧ r = some ⟨id, name⟩ ∧
        ws = [.client ⟨id, name⟩] := by
  cases hname : db.clientNamed? name <;> cases hid : db.client? id <;>
    simp [exec, hname, hid, ok_iff, -Except.ok.injEq]

/-- A balance can be inserted for a client that is there and has none in the currency. -/
theorem exec_insertBalance {c : Uuid} {cur : String} {n : Int} {r : Unit} :
    exec now db (.insertBalance c cur n) = .ok (r, ws) ↔
      inBigint n ∧ db.balance? c cur = none ∧ (db.client? c).isSome ∧
        ws = [.balance ⟨c, cur, n⟩] := by
  cases hn : inBigint n <;> cases hb : db.balance? c cur <;> cases hc : db.client? c <;>
    simp [exec, hn, hb, hc, ok_iff, -Except.ok.injEq]

/-- A balance that is there is left alone; otherwise it is inserted, which needs the client. The
range of the amount is checked in both cases. -/
theorem exec_insertBalanceIfAbsent {c : Uuid} {cur : String} {n : Int} {r : Unit} :
    exec now db (.insertBalanceIfAbsent c cur n) = .ok (r, ws) ↔
      inBigint n ∧ ((db.balance? c cur).isSome ∧ ws = [] ∨
        db.balance? c cur = none ∧ (db.client? c).isSome ∧ ws = [.balance ⟨c, cur, n⟩]) := by
  cases hn : inBigint n <;> cases hb : db.balance? c cur <;> cases hc : db.client? c <;>
    simp [exec, hn, hb, hc, ok_iff, -Except.ok.injEq]

/-- `SELECT .. FOR UPDATE` returns the balance as it is, and writes nothing; that it waits is a
matter of the machine. -/
theorem exec_lockBalance {c : Uuid} {cur : String} {r : Option BalanceRow} :
    exec now db (.lockBalance c cur) = .ok (r, ws) ↔ r = db.balance? c cur ∧ ws = [] := by
  simp [exec, ok_iff, -Except.ok.injEq]

/-- The guarded update finds the row with enough on it, or it does nothing: in the first case it
returns the row as it is afterwards, in the second no row, which the service takes for insufficient
funds. -/
theorem exec_debitBalance {c : Uuid} {cur : String} {n : Int} {r : Option BalanceRow} :
    exec now db (.debitBalance c cur n) = .ok (r, ws) ↔
      inBigint n ∧ ((∀ b ∈ db.balance? c cur, b.availableMinor < n) ∧ r = none ∧ ws = [] ∨
        ∃ b ∈ db.balance? c cur, n ≤ b.availableMinor ∧ inBigint (b.availableMinor - n) ∧
          r = some { b with availableMinor := b.availableMinor - n } ∧
          ws = [.setBalance c cur (b.availableMinor - n)]) := by
  cases hn : inBigint n with
  | false => simp [exec, hn]
  | true =>
    cases hb : db.balance? c cur with
    | none => simp [exec, hn, hb, ok_iff, -Except.ok.injEq]
    | some b =>
      by_cases hlt : b.availableMinor < n
      · simp [exec, hn, hb, hlt, Int.not_le.mpr hlt, ok_iff, -Except.ok.injEq]
      · cases hr : inBigint (b.availableMinor - n) <;>
          simp [exec, hn, hb, hlt, Int.not_lt.mp hlt, hr, ok_iff, -Except.ok.injEq]

/-- The upsert of a credit: a balance is inserted with the amount or moved by it, and what it comes
to has to be in range. -/
theorem exec_creditBalance {c : Uuid} {cur : String} {n : Int} {r : Unit} :
    exec now db (.creditBalance c cur n) = .ok (r, ws) ↔
      inBigint n ∧ (db.balance? c cur = none ∧ (db.client? c).isSome ∧
          ws = [.balance ⟨c, cur, n⟩] ∨
        ∃ b ∈ db.balance? c cur, inBigint (b.availableMinor + n) ∧
          ws = [.setBalance c cur (b.availableMinor + n)]) := by
  cases hn : inBigint n with
  | false => simp [exec, hn]
  | true =>
    cases hb : db.balance? c cur with
    | none => cases hc : db.client? c <;> simp [exec, hn, hb, hc, ok_iff, -Except.ok.injEq]
    | some b =>
      cases hr : inBigint (b.availableMinor + n) <;>
        simp [exec, hn, hb, hr, ok_iff, -Except.ok.injEq]

/-- An entry can be inserted for a client that is there; nothing else of it is checked but the
range of its amount. -/
theorem exec_insertLedgerEntry {row : LedgerEntryRow} {r : Unit} :
    exec now db (.insertLedgerEntry row) = .ok (r, ws) ↔
      inBigint row.deltaMinor ∧ (db.client? row.clientId).isSome ∧ ws = [.ledgerEntry row] := by
  cases hn : inBigint row.deltaMinor <;> cases hc : db.client? row.clientId <;>
    simp [exec, hn, hc, ok_iff, -Except.ok.injEq]

/-- A quote can be inserted if Postgres can store its texts, its expiry and its amounts, its id is
new and its client is there. What is returned is the row as it is loaded again. -/
theorem exec_insertQuote {v : QuoteValues} {r : QuoteRow Date} :
    exec now db (.insertQuote v) = .ok (r, ws) ↔
      v.storable ∧ ∃ expiresAt ∈ Timestamp.ofDate? v.expiresAt,
        inBigint v.baseAmountMinor ∧ inBigint v.quoteAmountMinor ∧ db.quote? v.id = none ∧
        (db.client? v.clientId).isSome ∧ r = (v.row expiresAt now).load ∧
        ws = [.quote (v.row expiresAt now)] := by
  cases hs : v.storable with
  | false => simp [exec, hs]
  | true =>
    cases ht : Timestamp.ofDate? v.expiresAt <;> cases hb : inBigint v.baseAmountMinor <;>
      cases ha : inBigint v.quoteAmountMinor <;> cases hq : db.quote? v.id <;>
      cases hc : db.client? v.clientId <;>
      simp [exec, hs, ht, hb, ha, hq, hc, ok_iff, -Except.ok.injEq]

/-- A quote is looked up by a text, which has to spell a uuid in one of the forms that Postgres
takes; any other text is an error of the cast. -/
theorem exec_selectQuote {id : String} {r : Option (QuoteRow Date)} :
    exec now db (.selectQuote id) = .ok (r, ws) ↔
      ∃ u ∈ Uuid.ofText? id, r = (db.quote? u).map QuoteRow.load ∧ ws = [] := by
  cases hu : Uuid.ofText? id <;> simp [exec, hu, ok_iff, -Except.ok.injEq]

/-- A quote is locked by a text, too, and returned as it is then. A text that is no uuid is an
error and locks nothing. -/
theorem exec_selectQuoteForUpdate {id : String} {r : Option (QuoteRow Date)} :
    exec now db (.selectQuoteForUpdate id) = .ok (r, ws) ↔
      ∃ u ∈ Uuid.ofText? id, r = (db.quote? u).map QuoteRow.load ∧ ws = [] := by
  cases hu : Uuid.ofText? id <;> simp [exec, hu, ok_iff, -Except.ok.injEq]

/-- The update of the status cannot fail; without the quote it changes no row. The services run it
on a row they hold. -/
theorem exec_setQuoteExecuted {id : Uuid} {r : Unit} :
    exec now db (.setQuoteExecuted id) = .ok (r, ws) ↔ ws = [.executed id] := by
  simp [exec, ok_iff, -Except.ok.injEq]

/-- A trade can be inserted if its amounts are in range, its id, its quote and its client's key are
new to the unique indexes, and its client and its quote are there. -/
theorem exec_insertTrade {v : TradeValues} {r : TradeRow Date} :
    exec now db (.insertTrade v) = .ok (r, ws) ↔
      inBigint v.baseAmountMinor ∧ inBigint v.quoteAmountMinor ∧ db.trade? v.id = none ∧
      db.tradeOfQuote? v.quoteId = none ∧ db.tradeByKey? v.clientId v.idempotencyKey = none ∧
      (db.client? v.clientId).isSome ∧ (db.quote? v.quoteId).isSome ∧
      r = (v.row now).load ∧ ws = [.trade (v.row now)] := by
  cases hb : inBigint v.baseAmountMinor <;> cases ha : inBigint v.quoteAmountMinor <;>
    cases hi : db.trade? v.id <;> cases hq : db.tradeOfQuote? v.quoteId <;>
    cases hk : db.tradeByKey? v.clientId v.idempotencyKey <;>
    cases hc : db.client? v.clientId <;> cases hu : db.quote? v.quoteId <;>
    simp [exec, hb, ha, hi, hq, hk, hc, hu, ok_iff, -Except.ok.injEq]

/-- The lookup by client and key returns the trade, if there is one, as it is loaded, with its time
cut to milliseconds. -/
theorem exec_selectTradeByKey {c : Uuid} {key : String} {r : Option (TradeRow Date)} :
    exec now db (.selectTradeByKey c key) = .ok (r, ws) ↔
      r = (db.tradeByKey? c key).map TradeRow.load ∧ ws = [] := by
  simp [exec, ok_iff, -Except.ok.injEq]

/-- The balances of a client are returned in the order that the query asks for, by currency. -/
theorem exec_selectBalances {c : Uuid} {r : List BalanceRow} :
    exec now db (.selectBalances c) = .ok (r, ws) ↔ r = db.balancesOf c ∧ ws = [] := by
  simp [exec, ok_iff, -Except.ok.injEq]

/-- A page of trades is read without a write. Which rows it returns is the matter of
`Database.tradesBelow`. -/
theorem exec_selectTrades_writes {c : Uuid} {cursor : Option (Date × String)} {limit : Nat}
    {r : List (TradeRow Date)} (h : exec now db (.selectTrades c cursor limit) = .ok (r, ws)) :
    ws = [] := by
  cases cursor with
  | none => simp_all [exec]
  | some k =>
    simp only [exec] at h
    split at h <;> simp_all

end MiniOpenFX
