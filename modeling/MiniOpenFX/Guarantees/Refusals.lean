import MiniOpenFX.Guarantees.Receipts

/-!
# Refusals are on record

A client whose call is refused is told why, and the tables bear it out (`refusals_on_record`): a
quote said to be unknown was not the client's when the call came in, one said to be executed is
executed, one said to have expired has, and where funds are said to be lacking they lacked at a
time not before the call. Whatever else a call on the tables ends with is a connection that was
lost or an error of Postgres.
-/

namespace MiniOpenFX

open Js Transactional

/-! ## Faults -/

/-- A lost connection, or an error of Postgres: a failure that says nothing about the request and
may go away when it is made again. -/
def JsError.Fault (e : JsError) : Prop :=
    e = .connectionError ∨ ∃ cause, e = .drizzleQueryError cause

/-- The errors of a statement are faults: where nothing is taken for granted, it fails by an error
of Postgres or of the connection. -/
theorem fault_of_possible {st : Stmt} {e : JsError}
    (h : Event.Possible (.free backend) (.sql (S := sig) st (.error e))) : e.Fault := by
  rcases h.2 with h | ⟨χ, now, db, -, h⟩
  · exact .inl (Except.error.inj h)
  · have h : (exec now db st).map Prod.fst = .error e := h
    cases hx : exec now db st with
    | ok out => rw [hx] at h; cases h
    | error e' =>
      rw [hx] at h
      cases h
      exact .inr (exec_error hx)

theorem query_faults (st : Stmt) : (App.query st).Throws (.free backend) JsError.Fault :=
  Prog.throws_query fun _ => fault_of_possible

/-- What every fault satisfies, where a program fails only by faults. Most parts of a service are
dealt with so. -/
theorem yields_of_faults {α : Type} {x : App α} {Q : History → JsError → Prop}
    (h : x.Throws (.free backend) JsError.Fault) (hQ : ∀ ℓ e, e.Fault → Q ℓ e) (ℓ : History) :
    x.Yields (.free backend) (fun ℓ r => ∀ e, r = .error e → Q ℓ e) ℓ := by
  refine (h ℓ).mono fun ℓ r hr e he => ?_
  rw [he] at hr
  exact hQ ℓ e hr

/-- A request that always has an answer fails only with the connection. -/
theorem request_faults {x : Ext} (hx : ∀ χ e, ∃ a, (answer x χ e).1 = .ok a) :
    (App.request x).Throws (.free backend) JsError.Fault := by
  refine Prog.throws_request trivial fun e he => .inl ?_
  exact broken_of_possible he hx

theorem forM_faults {γ : Type} (xs : List γ) {f : γ → App PUnit}
    (h : ∀ a, (f a).Throws (.free backend) JsError.Fault) :
    Prog.Throws (.free backend) JsError.Fault (xs.forM f : App PUnit) := by
  induction xs with
  | nil => exact fun _ => trivial
  | cons a xs ih => exact (h a).bind fun _ => ih

/-! ## Up to the debit -/

/-- The statements of a trade before its debit. They insert empty balances and lock rows; what is
available does not change by any of them. -/
def BeforeDebit : Stmt → Prop
  | .insertBalanceIfAbsent _ _ n => n = 0
  | .lockBalance .. | .selectQuoteForUpdate _ | .selectTradeByKey .. => True
  | _ => False

/-- The acts before the debit. -/
def Act.BeforeDebit : Act sig → Prop
  | .sql st => MiniOpenFX.BeforeDebit st
  | .ext _ | .begin => True
  | _ => False

/-- Nothing but these statements has been run. So a debit that finds too little has found too
little in the committed tables. -/
def History.Opening (ℓ : History) : Prop :=
  ∀ st r, Event.sql (S := sig) st (.ok r) ∈ ℓ → BeforeDebit st

/-- A transaction has not come to its debit by acts that are none. -/
theorem History.Opening.append {ℓ ℓ₁ : History} (h : ℓ.Opening)
    (h₁ : ∀ ev ∈ ℓ₁, Act.BeforeDebit ev.act) :
    History.Opening (ℓ ++ ℓ₁) := by
  intro st r hm
  rcases List.mem_append.mp hm with hm | hm
  · exact h st r hm
  · exact h₁ _ hm

/-- A transaction has not come to its debit by one more act that is none. -/
theorem History.Opening.concat {ℓ : History} (h : ℓ.Opening) (ev : Event sig JsError)
    (hev : Act.BeforeDebit ev.act) : History.Opening (ℓ ++ [ev]) :=
  h.append fun _ hm => List.mem_singleton.mp hm ▸ hev

/-- `lockBalanceRows` locks the balances of the currencies, before any debit, or ends with a fault.
-/
theorem lockBalanceRows_yields (clientId : Uuid) (currencies : List String) (ℓ : History) :
    (LedgerService.lockBalanceRows clientId currencies).Yields (.free backend) (fun ℓ' r =>
      (∃ ℓ₁, ℓ' = ℓ ++ ℓ₁ ∧ ∀ ev ∈ ℓ₁, Act.BeforeDebit ev.act) ∧ match r with
        | .ok lock => lock = ⟨clientId, LedgerService.uniqueCurrencies currencies⟩
        | .error e => e.Fault) ℓ := by
  have hacts : (LedgerService.lockBalanceRows clientId currencies).Acts Act.BeforeDebit := by
    refine Prog.Acts.bind ?_ fun _ => Prog.Acts.bind ?_ fun _ => ?_
    · exact forM_acts fun _ => ⟨rfl, fun _ => trivial⟩
    · exact forM_acts fun _ => (Prog.acts_query (S := sig) trivial).bind fun _ => trivial
    · trivial
  refine (hacts.yields fun _ _ => trivial).and ?_
  refine Prog.yields_bind.mpr ((forM_faults _ (fun _ => query_faults _) ℓ).mono fun ℓ r hr => ?_)
  cases r with
  | error e => exact hr
  | ok u =>
    have hlocks := forM_faults ((LedgerService.uniqueCurrencies currencies).insertionSort (· ≤ ·))
      fun currency => (query_faults (.lockBalance clientId currency)).bind
        (f := fun _ => .done (.ok PUnit.unit)) fun _ _ => trivial
    refine Prog.yields_bind.mpr ((hlocks ℓ).mono fun ℓ r hr => ?_)
    cases r with
    | error e => exact hr
    | ok u => exact rfl

/-- A debit of locked rows fails for want of funds, or by a fault. The check of the lock passes, as
the currency is among those locked. -/
theorem debit_yields (currencies : List String) (params : LedgerMovementParams)
    (covered : params.currency ∈ currencies) (ℓ : History) :
    (LedgerService.debit ⟨params.clientId, currencies⟩ params).Yields (.free backend)
      (fun ℓ' r => ∀ e,
      r = .error e → e.Fault ∨ e = .unprocessableEntityException
          s!"Insufficient {params.currency} balance for client" ∧
        ℓ' = ℓ ++ [.sql (S := sig)
          (.debitBalance params.clientId params.currency params.amountMinor)
          (.ok none)]) ℓ := by
  unfold LedgerService.debit
  rw [assertCovers_ok covered]
  refine Prog.yields_query (fun updated _ => ?_) fun e he _ h => ?_
  swap
  · cases h
    exact .inl (fault_of_possible he)
  cases updated with
  | none =>
    rintro e ⟨⟩
    exact .inr ⟨rfl, rfl⟩
  | some row =>
    exact yields_of_faults (query_faults _) (fun _ _ h => .inl h) _

/-- A credit of locked rows fails only by a fault. -/
theorem credit_faults (currencies : List String) (params : LedgerMovementParams)
    (covered : params.currency ∈ currencies) :
    (LedgerService.credit ⟨params.clientId, currencies⟩ params).Throws (.free backend)
      JsError.Fault := by
  unfold LedgerService.credit
  rw [assertCovers_ok covered]
  exact (query_faults _).bind fun _ => query_faults _

/-! ## Why a trade is refused -/

/-- Why a call is told that it may not trade, by its history: each case has the answer of the
statement or clock that the refusal rests on. -/
inductive TradeRefusal (clientId : Uuid) (id key : String) (ℓ : History) : JsError → Prop
  | fault {e} (h : e.Fault) : TradeRefusal clientId id key ℓ e
  | reused {row : TradeRow Date}
      (found : Event.sql (S := sig) (.selectTradeByKey clientId key) (.ok (some row)) ∈ ℓ)
      (other : row.quoteId.text ≠ id) : TradeRefusal clientId id key ℓ
        (.conflictException "Idempotency-Key was already used to execute a different quote")
  | unknown {row : Option (QuoteRow Date)}
      (read : Event.sql (S := sig) (.selectQuoteForUpdate id) (.ok row) ∈ ℓ)
      (foreign : ∀ q ∈ row, q.clientId ≠ clientId) : TradeRefusal clientId id key ℓ
        (.notFoundException s!"Quote \"{id}\" not found")
  | executed {row : QuoteRow Date}
      (read : Event.sql (S := sig) (.selectQuoteForUpdate id) (.ok (some row)) ∈ ℓ)
      (owner : row.clientId = clientId) (status : row.status = .EXECUTED) :
      TradeRefusal clientId id key ℓ
        (.conflictException s!"Quote \"{id}\" has already been executed")
  | expired {row : QuoteRow Date} {n : Int}
      (read : Event.sql (S := sig) (.selectQuoteForUpdate id) (.ok (some row)) ∈ ℓ)
      (owner : row.clientId = clientId) (clock : .ext .dateNow (.ok n) ∈ ℓ)
      (past : row.expiresAt.ms ≤ n) : TradeRefusal clientId id key ℓ
        (.goneException s!"Quote \"{id}\" has expired")
  | insufficient {row : QuoteRow Date} {ℓ₁ : History}
      (read : Event.sql (S := sig) (.selectQuoteForUpdate id) (.ok (some row)) ∈ ℓ)
      (owner : row.clientId = clientId) (opening : ℓ₁.Opening)
      (lacking : ℓ₁ ++ [.sql (S := sig) (.debitBalance clientId row.debitCurrency row.debitAmount)
        (.ok none)] <+: ℓ) : TradeRefusal clientId id key ℓ
        (.unprocessableEntityException s!"Insufficient {row.debitCurrency} balance for client")

/-- What a trade has been refused for stands in its history, which only goes on. -/
theorem TradeRefusal.append {clientId : Uuid} {id key : String} {ℓ : History} {e : JsError}
    (h : TradeRefusal clientId id key ℓ e) (ℓ' : History) :
    TradeRefusal clientId id key (ℓ ++ ℓ') e := by
  cases h with
  | fault h => exact .fault h
  | reused found other => exact .reused (List.mem_append_left _ found) other
  | unknown read foreign => exact .unknown (List.mem_append_left _ read) foreign
  | executed read owner status => exact .executed (List.mem_append_left _ read) owner status
  | expired read owner clock past =>
    exact .expired (List.mem_append_left _ read) owner (List.mem_append_left _ clock) past
  | insufficient read owner opening lacking =>
    exact .insufficient (List.mem_append_left _ read) owner opening
      (lacking.trans (List.prefix_append _ _))

section
variable [DecimalJs]

/-- A replay is refused with a conflict only, and only where the stored quote id is not spelled as
the caller has spelled it. -/
theorem replayOrConflict_error {row : TradeRow Date} {quoteId : String} {e : JsError}
    (h : TradingService.replayOrConflict row quoteId = .error e) :
    e = .conflictException "Idempotency-Key was already used to execute a different quote" ∧
      row.quoteId.text ≠ quoteId := by
  unfold TradingService.replayOrConflict at h
  split at h
  · next hne =>
    cases h
    exact ⟨rfl, hne⟩
  · cases h

omit [DecimalJs] in
/-- A row is refused as not found only, and only where there is none or it is another client's. -/
theorem assertOwnedByClient_error {T : Type} {clientIdOf : T → Uuid} {row : Option T}
    {clientId : Uuid} {message : String} {e : JsError}
    (h : assertOwnedByClient clientIdOf row clientId message = .error e) :
    e = .notFoundException message ∧ ∀ r ∈ row, clientIdOf r ≠ clientId := by
  unfold assertOwnedByClient at h
  split at h
  · cases h
    exact ⟨rfl, fun r hr => by cases hr⟩
  · split at h
    · next hne =>
      cases h
      exact ⟨rfl, fun r hr => Option.mem_some.mp hr ▸ hne⟩
    · cases h

omit [DecimalJs] in
/-- The trade's transaction ends with one of the refusals of a trade, each with what it has read
for it in the history, or with a fault. -/
theorem executeWithinTransaction_refuses (clientId : Uuid) (id key : String) {ℓ : History}
    (opening : ℓ.Opening) :
    (TradingService.executeWithinTransaction clientId id key).Yields (.free backend)
      (fun ℓ r => ∀ e,
      r = .error e → TradeRefusal clientId id key ℓ e) ℓ := by
  unfold TradingService.executeWithinTransaction
  refine Prog.yields_query (fun row _ => ?_) fun e he _ h => ?_
  swap
  · cases h
    exact .fault (fault_of_possible he)
  replace opening := opening.concat (.sql (S := sig) (.selectQuoteForUpdate id) (.ok row)) trivial
  have hread : Event.sql (S := sig) (.selectQuoteForUpdate id) (.ok row) ∈
    ℓ ++ [.sql (S := sig) (.selectQuoteForUpdate id) (.ok row)] := List.mem_concat_self
  generalize ℓ ++ [.sql (S := sig) (.selectQuoteForUpdate id) (.ok row)] = ℓ at opening hread ⊢
  cases howned : assertOwnedByClient QuoteRow.clientId row clientId
      s!"Quote \"{id}\" not found" with
  | error e =>
    obtain ⟨rfl, hforeign⟩ := assertOwnedByClient_error howned
    rintro _ ⟨⟩
    exact .unknown hread hforeign
  | ok quote =>
    obtain ⟨rfl, owner⟩ := assertOwnedByClient_ok howned
    rw [App.ofExcept, Prog.bind_eq, Prog.bind_ok]
    split
    · next hs =>
      rintro _ ⟨⟩
      exact .executed hread owner hs
    refine Prog.yields_request trivial (fun n _ => ?_) fun e he _ h => ?_
    swap
    · cases h
      exact .fault (.inl (broken_of_possible he fun _ _ => ⟨_, rfl⟩))
    split
    · next hn =>
      rintro _ ⟨⟩
      exact .expired (List.mem_append_left _ hread) owner List.mem_concat_self hn
    replace opening := opening.concat (.ext (S := sig) .dateNow (.ok n)) trivial
    replace hread := List.mem_append_left [.ext (S := sig) .dateNow (.ok n)] hread
    generalize ℓ ++ [.ext (S := sig) .dateNow (.ok n)] = ℓ at opening hread ⊢
    refine Prog.yields_bind.mpr ((lockBalanceRows_yields _ _ _).mono ?_)
    rintro ℓ' r ⟨⟨ℓ₁, rfl, hℓ₁⟩, hr⟩
    cases r with
    | error e =>
      rintro _ ⟨⟩
      exact .fault hr
    | ok lock =>
      subst hr
      replace hread := List.mem_append_left ℓ₁ hread
      refine Prog.yields_request trivial (fun tradeId _ => ?_) fun e he _ h => ?_
      swap
      · cases h
        exact .fault (.inl (broken_of_possible he fun _ _ => ⟨_, rfl⟩))
      refine Prog.yields_bind.mpr ((debit_yields quote.currencies
        ⟨clientId, quote.debitCurrency, quote.debitAmount, .TRADE, "TRADE", tradeId⟩
        (mem_currencies quote).1 _).mono fun ℓ' r hr => ?_)
      cases r with
      | error e =>
        rintro _ ⟨⟩
        rcases hr e rfl with hfault | ⟨rfl, rfl⟩
        · exact .fault hfault
        · replace opening := (opening.append hℓ₁).concat
            (.ext (S := sig) .uuidv4 (.ok tradeId)) trivial
          exact .insufficient (List.mem_append_left _ (List.mem_append_left _ hread)) owner opening
            (List.prefix_refl _)
      | ok u =>
        refine yields_of_faults ((credit_faults quote.currencies
          ⟨clientId, quote.creditCurrency, quote.creditAmount, .TRADE, "TRADE", tradeId⟩
          (mem_currencies quote).2).bind fun _ => (query_faults _).bind fun trade => ?_)
          (fun _ _ h => .fault h) _
        exact (query_faults _).bind fun _ _ => trivial

/-- Why `executeTrade` fails: one walk through the program, with the statement that was answered at
every place where it throws. -/
theorem executeTrade_refuses (clientId : Uuid) (dto : CreateTradeDto) (rawKey : String) :
    (TradingService.executeTrade clientId dto rawKey).Yields (.free backend) (fun ℓ r => ∀ e,
      r = .error e → TradeRefusal clientId dto.quoteId (trim rawKey) ℓ e) [] := by
  unfold TradingService.executeTrade
  refine Prog.yields_query (fun found _ => ?_) fun e he _ h => ?_
  swap
  · cases h
    exact .fault (fault_of_possible he)
  cases found with
  | some row =>
    intro e h
    obtain ⟨rfl, other⟩ := replayOrConflict_error h
    exact .reused List.mem_concat_self other
  | none =>
    refine Prog.yields_bind.mpr (Prog.yields_attempt.mpr ((Prog.yields_transaction
      (Q := fun ℓ r => ∀ e, r = .error e → TradeRefusal clientId dto.quoteId (trim rawKey) ℓ e)
      (fun ℓ e h => ?_) ?_).mono ?_))
    · cases h
      exact .fault (.inl rfl)
    · refine (executeWithinTransaction_refuses clientId dto.quoteId
        (trim rawKey) ?_).mono fun ℓ r hr => ?_
      · exact History.Opening.concat (ℓ := [_])
          (fun _ _ h => by cases List.mem_singleton.mp h; trivial) _ trivial
      cases r with
      | ok row => exact fun _ h => by cases h
      | error e => exact fun _ h => (hr _ h).append _
    · intro ℓ r hr
      cases r with
      | ok row => exact yields_failSoft fun _ _ h => by cases h
      | error e =>
        -- drizzle wraps the error of Postgres, so it is never taken for a unique violation
        rintro _ ⟨⟩
        exact hr e rfl

/-! ## What a refused call has seen -/

/-- A write that opens an empty balance. -/
def Write.Empty (w : Write) : Prop := ∃ clientId currency, w = .balance ⟨clientId, currency, 0⟩

omit [DecimalJs] in
theorem available_after_empty {db : Database} {ws : List Write} (h : ∀ w ∈ ws, w.Empty)
    (clientId : Uuid) (currency : String) :
    (db.after ws).available clientId currency = db.available clientId currency := by
  induction ws generalizing db with
  | nil => rfl
  | cons w ws ih =>
    obtain ⟨c, cur, rfl⟩ := h w (.head _)
    refine (ih fun w hw => h w (.tail _ hw)).trans ?_
    rw [Database.available, balance?_apply_balance, Database.available]
    cases db.balance? clientId currency with
    | some b => rfl
    | none =>
      rw [Option.none_or]
      split <;> rfl

omit [DecimalJs] in
/-- The statements before the debit write nothing else. Only the insertion of a balance writes at
all. -/
theorem BeforeDebit.writes {st : Stmt} {now : Timestamp} {db : Database} {r : StmtRes st}
    {ws : List Write}
    (h : BeforeDebit st) (hx : exec now db st = .ok (r, ws)) : ∀ w ∈ ws, w.Empty := by
  cases st with
  | insertBalanceIfAbsent c cur n =>
    obtain rfl : n = 0 := h
    simp only [exec] at hx
    repeat' split at hx
    all_goals cases hx
    · exact fun w hw => by cases hw
    · exact fun w hw => ⟨c, cur, List.mem_singleton.mp hw⟩
  | lockBalance c cur =>
    cases hx
    exact fun w hw => by cases hw
  | selectQuoteForUpdate id =>
    obtain ⟨-, -, -, rfl⟩ := exec_selectQuoteForUpdate.mp hx
    exact fun w hw => by cases hw
  | selectTradeByKey c key =>
    obtain ⟨-, rfl⟩ := exec_selectTradeByKey.mp hx
    exact fun w hw => by cases hw
  | _ => exact h.elim

/-- What the history of a call says about what it did not find, since the tables were as `before`:
the quotes, and the money for a debit. -/
structure Missed (before : Database) (ℓ : History) (db : Database) : Prop where
  quotes : ∀ id u, Event.sql (S := sig) (.selectQuote id) (.ok none) ∈ ℓ ∨
    Event.sql (S := sig) (.selectQuoteForUpdate id) (.ok none) ∈ ℓ → Uuid.ofText? id = some u →
      before.quote? u = none
  funds : ∀ (ℓ₁ : History) clientId currency n, ℓ₁.Opening → 0 < n →
    ℓ₁ ++ [.sql (S := sig) (.debitBalance clientId currency n) (.ok none)] <+: ℓ →
      ∃ new, before.ledgerEntries ++ new <+: db.ledgerEntries ∧
        entriesSum (before.ledgerEntries ++ new) clientId currency < n
  keys : ∀ clientId key row,
    Event.sql (S := sig) (.selectTradeByKey clientId key) (.ok (some row)) ∈ ℓ →
    ∃ trade, db.tradeByKey? clientId key = some trade ∧ row = trade.load

section
variable {before db db' : Database} {ℓ : History}

omit [DecimalJs] in
theorem Missed.start : Missed before [] db where
  quotes id u h := by rcases h with h | h <;> cases h
  funds _ _ _ _ _ _ h := absurd (List.prefix_nil.mp h) (by simp)
  keys _ _ _ h := by cases h

/-- What a call has missed it has missed still when time has passed, since it speaks of the tables
as they were. -/
theorem Missed.later (h : Missed before ℓ db) (hl : db.Later db') : Missed before ℓ db' where
  quotes := h.quotes
  funds ℓ₁ clientId currency n opening pos hm := (h.funds ℓ₁ clientId currency n opening pos hm).imp
    fun _ h => ⟨h.1.trans hl.ledgerEntries, h.2⟩
  keys clientId key row hm := (h.keys clientId key row hm).imp fun _ h =>
    ⟨hl.tradeByKey? h.1, h.2⟩

end

variable {clients : List ClientRow} {e : Surroundings} {s s' : Sys}

/-- A debit that finds too little, after nothing but openings: the committed balance does not cover
the amount, so the ledger's sum at that moment does not. -/
theorem lacking_of_act [LawfulDecimalJs] {u : Sys} {i : Nat} {t : Thread backend Call Response}
    {clientId : Uuid} {currency : String} {n : Int} {w : World backend}
    (hreach : State.Reaches program (Sys.start clients e) u) (hi : u.threads[i]? = some t)
    (hw : u.Acts t (.sql (S := sig) (.debitBalance clientId currency n) (.ok none)) w)
    (opening : History.Opening t.log) (pos : 0 < n) :
    entriesSum u.data.ledgerEntries clientId currency < n := by
  obtain ⟨k, χ, ws, hp, hx, -⟩ := hw.sql_ok
  have hview : (u.world t).view.available clientId currency =
    u.data.available clientId currency := by
    cases htx : t.tx with
    | none => simp only [State.world, World.view, htx]
    | some tx =>
      simp only [State.world, World.view, htx]
      refine available_after_empty ?_ clientId currency
      refine (hreach.writes (O := BeforeDebit) (fun st χ now d r ws h hx => h.writes hx) rfl t
        (List.mem_of_getElem? hi) tx htx).resolve_right ?_
      rintro ⟨st, r, hst, hm⟩
      exact hst (opening st r hm)
  have hx : exec (u.world t).stamp (u.world t).view (.debitBalance clientId currency n) =
    .ok (none, ws) := hx
  rw [← (accounts_of_reaches hreach).available_eq, ← hview]
  obtain ⟨-, ⟨hless, -⟩ | ⟨b, -, -, -, hsome, -⟩⟩ := exec_debitBalance.mp hx
  · rw [Database.available]
    cases hb : (u.world t).view.balance? clientId currency with
    | none => exact pos
    | some b => exact hless b hb
  · cases hsome

omit [DecimalJs] in
/-- A transaction locks its quote before it writes anything, so the row that the lock returns is
the committed one. -/
theorem Running.lockQuote_nil {db : Database} {ws : List Write} {L : List Resource} {id : String}
    (h : Running db ws L (.selectQuoteForUpdate id)) : ws = [] := by
  cases h with
  | lockQuote => rfl
  | held moves => exact moves.elim

/-- An act adds what it has missed: a quote that is not found was not there before, and funds that
are lacking were so at this moment. -/
theorem Missed.act [LawfulDecimalJs] (hs : State.Reaches program (Sys.start clients e) s) {u : Sys}
    {i : Nat} {t : Thread backend Call Response} {ev : Event sig JsError} {w : World backend}
    (hreach : State.Reaches program s u)
    (hu : Isolated isolation rely (fun _ => obligationsOf) (fun _ => answers) u)
    (hi : u.threads[i]? = some t) (hP : Missed s.data t.log u.data) (hw : u.Acts t ev w)
    (hd : Database.Later u.data w.data) : Missed s.data (t.log ++ [ev]) w.data := by
  have hgrown : s.data.Later u.data := (moves_on hs hreach).data
  obtain ⟨new, hnew⟩ := hgrown.ledgerEntries
  have hP' := hP.later hd
  refine ⟨fun id v hm spelled => ?_, fun ℓ₁ clientId currency n opening pos hm => ?_,
    fun clientId key row hm => ?_⟩
  · rcases hm with hm | hm <;> rcases List.mem_append.mp hm with hm | hm
    · exact hP.quotes id v (.inl hm) spelled
    · obtain rfl := List.mem_singleton.mp hm
      obtain ⟨ws, hx⟩ := exec_of_act hu hi hw fun _ _ h => absurd rfl ((Running.not_saw h).1 id)
      obtain ⟨v', spelled', hnone, -⟩ := exec_selectQuote.mp hx
      cases spelled'.symm.trans spelled
      exact quote?_of_later hgrown (Option.map_eq_none_iff.mp hnone.symm)
    · exact hP.quotes id v (.inr hm) spelled
    · obtain rfl := List.mem_singleton.mp hm
      obtain ⟨ws, hx⟩ := exec_of_act hu hi hw fun _ _ h => h.lockQuote_nil
      obtain ⟨v', spelled', hnone, -⟩ := exec_selectQuoteForUpdate.mp hx
      cases spelled'.symm.trans spelled
      exact quote?_of_later hgrown (Option.map_eq_none_iff.mp hnone.symm)
  · rcases List.prefix_concat_iff.mp hm with heq | hm
    swap
    · exact hP'.funds ℓ₁ clientId currency n opening pos hm
    obtain ⟨rfl, hev⟩ := List.append_inj' heq rfl
    cases hev
    refine ⟨new, hnew ▸ hd.ledgerEntries, ?_⟩
    rw [hnew]
    exact lacking_of_act (hs.trans hreach) hi hw opening pos
  · rcases List.mem_append.mp hm with hm | hm
    · exact hP'.keys clientId key row hm
    obtain rfl := List.mem_singleton.mp hm
    obtain ⟨ws, hx⟩ := exec_of_act hu hi hw fun _ _ h => absurd h Running.not_lookup
    obtain ⟨hrow, -⟩ := exec_selectTradeByKey.mp hx
    obtain ⟨trade, found, rfl⟩ := Option.map_eq_some_iff.mp hrow.symm
    exact ⟨trade, hd.tradeByKey? found, rfl⟩

/-- What a call has not found since the tables were as they were before it. Every act of the call
keeps it, and later tables do not change what was missed. -/
theorem missed_of_reaches [LawfulDecimalJs] (hs : State.Reaches program (Sys.start clients e) s)
    (h : State.Reaches program s s') {i : Nat} {t : Thread backend Call Response}
    (new : s.threads.length ≤ i) (hi : s'.threads[i]? = some t) :
    Missed s.data t.log s'.data :=
  h.new_histories (P := fun _ => Missed s.data) verified_of (isolated_of_reaches hs)
    (fun _ _ => Missed.start) (fun _ _ _ _ hd hP => hP.later hd)
    (fun _ _ _ _ _ hreach hu hi hP hw hd => hP.act hs hreach hu hi hw hd) new hi

/-! ## On record -/

/-- The calls that only ask Postgres and Redis. -/
def Call.OnTables : Call → Prop
  | .getBalances _ | .createDeposit .. | .getQuoteById .. | .executeTrade .. => True
  | _ => False

/-- The client has no quote of the id. -/
def Database.Foreign (db : Database) (clientId : Uuid) (id : String) : Prop :=
  ∀ q, Uuid.ofText? id = some q.id → db.quote? q.id = some q → q.clientId ≠ clientId

/-- What the tables and the clock say `now` about a call that came in when the tables were as
`before`, and the error it ended with. -/
inductive Justified (before : Database) (now : Seen backend) : Call → JsError → Prop
  | fault {c e} (h : e.Fault) : Justified before now c e
  | finer {clientId : Uuid} {dto : CreateDepositDto}
      (amount : ∀ n, toMinorUnits (.text dto.amount) ≠ .ok n) :
      Justified before now (.createDeposit clientId dto)
        (.badRequestException "amount must not have more than 8 decimal places")
  | nothing {clientId : Uuid} {dto : CreateDepositDto} {n : Int}
      (amount : toMinorUnits (.text dto.amount) = .ok n) (small : n ≤ 0) :
      Justified before now (.createDeposit clientId dto)
        (.badRequestException "amount must be greater than zero")
  | unseen {clientId : Uuid} {id : String} (foreign : before.Foreign clientId id) :
      Justified before now (.getQuoteById clientId id)
        (.notFoundException s!"Quote \"{id}\" not found")
  | unknown {clientId : Uuid} {dto : CreateTradeDto} {rawKey : String}
      (foreign : before.Foreign clientId dto.quoteId) :
      Justified before now (.executeTrade clientId dto rawKey)
        (.notFoundException s!"Quote \"{dto.quoteId}\" not found")
  | reused {clientId : Uuid} {dto : CreateTradeDto} {rawKey : String} {trade : TradeRow Timestamp}
      (found : now.data.tradeByKey? clientId (trim rawKey) = some trade)
      (other : trade.quoteId.text ≠ dto.quoteId) :
      Justified before now (.executeTrade clientId dto rawKey)
        (.conflictException "Idempotency-Key was already used to execute a different quote")
  | executed {dto : CreateTradeDto} {rawKey : String} {q : QuoteRow Timestamp}
      (stored : now.data.quote? q.id = some q) (spelled : Uuid.ofText? dto.quoteId = some q.id)
      (status : q.status = .EXECUTED) :
      Justified before now (.executeTrade q.clientId dto rawKey)
        (.conflictException s!"Quote \"{dto.quoteId}\" has already been executed")
  | expired {dto : CreateTradeDto} {rawKey : String} {q : QuoteRow Timestamp}
      (stored : now.data.quote? q.id = some q) (spelled : Uuid.ofText? dto.quoteId = some q.id)
      (past : q.expiresAt.toDate.ms ≤ now.env.dateNow) :
      Justified before now (.executeTrade q.clientId dto rawKey)
        (.goneException s!"Quote \"{dto.quoteId}\" has expired")
  | insufficient {dto : CreateTradeDto} {rawKey : String} {q : QuoteRow Timestamp}
      {new : List LedgerEntryRow} (stored : now.data.quote? q.id = some q)
      (spelled : Uuid.ofText? dto.quoteId = some q.id)
      (posted : before.ledgerEntries ++ new <+: now.data.ledgerEntries)
      (lacking : entriesSum (before.ledgerEntries ++ new) q.clientId q.debitCurrency <
        q.debitAmount) :
      Justified before now (.executeTrade q.clientId dto rawKey)
        (.unprocessableEntityException s!"Insufficient {q.debitCurrency} balance for client")

/-- In every state of every run the amounts of quotes are positive. -/
theorem priced_of_reaches [LawfulDecimalJs] (h : State.Reaches program (Sys.start clients e) s) :
    Priced s.data :=
  (later_of_reaches h).2.keeps (P := Priced) (priced_ofClients clients) fun _ _ he hd =>
    hd.effect he

/-- A known row of another client. If there was a quote of that id before, it was that client's,
too, since no quote changes its owner. -/
theorem foreign_of_knows {before db : Database} {row : QuoteRow Date} {clientId : Uuid}
    {id : String}
    (h : db.Knows row) (later : before.Later db) (spelled : Uuid.ofText? id = some row.id)
    (foreign : row.clientId ≠ clientId) : before.Foreign clientId id := by
  intro q hid hq howner
  obtain ⟨q₁, hq₁, hcopy⟩ := h
  obtain ⟨q₂, hq₂, hcopy₂⟩ := (Database.knows_load hq).later later
  have hids : row.id = q.load.id := Option.some.inj (spelled.symm.trans hid)
  rw [← hids] at hq₂
  cases hq₁.symm.trans hq₂
  have hclient : q.clientId = q₁.clientId := hcopy₂.values.2.1
  exact foreign (hcopy.values.2.1.trans (hclient.symm.trans howner))

omit [DecimalJs] in
/-- A call that fails passes on the error of its service. -/
theorem yields_errors {α : Type} {x : App α} {f : α → Response} {Q : History → JsError → Prop}
    {ℓ : History} (h : x.Yields (.free backend) (fun ℓ r => ∀ e, r = .error e → Q ℓ e) ℓ) :
    (x.bind fun a => .done (.ok (f a))).Yields (.free backend) (fun ℓ r => ∀ e,
      r = .error e → Q ℓ e) ℓ := by
  refine Prog.yields_bind.mpr (h.mono fun ℓ r hr => ?_)
  cases r with
  | error e =>
    rintro _ ⟨⟩
    exact hr e rfl
  | ok a => exact fun _ h => by cases h

/-- Reading the balances fails by faults only. -/
theorem getBalances_faults (clientId : Uuid) :
    (BalancesService.getBalances clientId).Throws (.free backend) JsError.Fault :=
  (query_faults _).bind fun _ _ => trivial

omit [DecimalJs] in
theorem depositBody_faults (clientId : Uuid) (currency : String) (amountMinor : Int)
    (depositId : Uuid) :
    (depositBody clientId currency amountMinor depositId).Throws (.free backend) JsError.Fault := by
  refine fun ℓ => Prog.yields_bind.mpr ((lockBalanceRows_yields _ _ ℓ).mono fun ℓ' r hr => ?_)
  cases r with
  | error e => exact hr.2
  | ok lock =>
    obtain ⟨-, rfl⟩ := hr
    exact credit_faults _ ⟨clientId, currency, amountMinor, .DEPOSIT, "DEPOSIT", depositId⟩
      (by simp [LedgerService.uniqueCurrencies, List.eraseDups_cons]) ℓ'

omit [DecimalJs] in
/-- A transaction whose body fails by faults fails by faults, whatever becomes of its commit and
its rollback. -/
theorem transaction_faults {α : Type} {body : App α}
    (h : body.Throws (.free backend) JsError.Fault) :
    (Prog.transaction body).Throws (.free backend) JsError.Fault := by
  refine fun ℓ => Prog.yields_transaction (fun _ => .inl rfl) ((h _).mono fun ℓ r hr => ?_)
  cases r with
  | error e => exact hr
  | ok a => trivial

/-- Why a deposit is refused: too many decimals, no positive amount, or a fault. In the order in
which the service checks. -/
theorem createDeposit_errors (clientId : Uuid) (dto : CreateDepositDto) :
    (BalancesService.createDeposit clientId dto).Yields (.free backend) (fun _ r => ∀ e,
      r = .error e → e.Fault ∨
        e = .badRequestException "amount must not have more than 8 decimal places" ∧
          (∀ n, toMinorUnits (.text dto.amount) ≠ .ok n) ∨
        e = .badRequestException "amount must be greater than zero" ∧
          ∃ n, toMinorUnits (.text dto.amount) = .ok n ∧ n ≤ 0) [] := by
  unfold BalancesService.createDeposit
  cases hamount : toMinorUnits (.text dto.amount) with
  | error e =>
    rintro _ ⟨⟩
    exact .inr (.inl ⟨rfl, fun n hn => by cases hn⟩)
  | ok amountMinor =>
    simp only [Prog.bind_eq, Prog.pure_eq, Prog.bind_ok]
    split
    · next hsmall =>
      rintro _ ⟨⟩
      exact .inr (.inr ⟨rfl, amountMinor, rfl, hsmall⟩)
    refine yields_of_faults ((request_faults fun χ e => ⟨_, rfl⟩).bind fun depositId => ?_)
      (fun _ _ h => .inl h) []
    exact (transaction_faults (depositBody_faults clientId dto.currency amountMinor depositId)).bind
      fun _ => getBalances_faults clientId

/-- A quote that a statement has not found, or found to be another client's: before the call the
client had no quote of that id either. -/
theorem foreign_of_read {before db : Database} {t : Thread backend Call Response} {clientId : Uuid}
    {id : String} {row : Option (QuoteRow Date)}
    (hs : State.Reaches program (Sys.start clients e) s) (ht : t ∈ s.threads)
    (hbefore : before.Later s.data) (missed : Missed before t.log db)
    (read : Event.sql (S := sig) (.selectQuote id) (.ok row) ∈ t.log ∨
      Event.sql (S := sig) (.selectQuoteForUpdate id) (.ok row) ∈ t.log)
    (foreign : ∀ q ∈ row, q.clientId ≠ clientId) : before.Foreign clientId id := by
  cases row with
  | none =>
    intro q hid hq
    rw [missed.quotes _ _ read hid] at hq
    cases hq
  | some row =>
    obtain ⟨spelled, hknows⟩ := knows_of_read hs t ht id row read
    exact foreign_of_knows hknows hbefore spelled (foreign row rfl)

/-- What a read of a quote is refused for: a row that is not there or is another client's, or a
fault. What the cache has can always be read. -/
theorem QuoteAnswer.justified {before db : Database} {now : Seen backend}
    {t : Thread backend Call Response} {c : Uuid} {id : String} {x : JsError}
    (hs : State.Reaches program (Sys.start clients e) s) (ht : t ∈ s.threads)
    (hbefore : before.Later s.data) (told : Told before t.log s.data)
    (missed : Missed before t.log db) (hpossible : ∀ ev ∈ t.log, ev.Possible (.free backend))
    (h : QuoteAnswer c id t.log (.error x)) : Justified before now (.getQuoteById c id) x := by
  generalize hr : Except.error x = r at h
  cases h with
  | @failed e got =>
    cases hr
    exact .fault (fault_of_possible (hpossible _ got))
  | @corrupt cached e got undecoded =>
    -- what is cached has been serialized
    obtain ⟨row, rfl, -⟩ := told.cached id cached got
    rw [deserializeQuote_serializeQuote] at undecoded
    cases undecoded
  | @loaded row clock hload =>
    cases howned : assertOwnedByClient QuoteRow.clientId row c s!"Quote \"{id}\" not found" with
    | ok row =>
      rw [howned] at hr
      cases hr
    | error e =>
      rw [howned] at hr
      cases hr
      obtain ⟨rfl, foreign⟩ := assertOwnedByClient_error howned
      refine .unseen ?_
      cases row with
      | none =>
        obtain _ | got := hload
        exact foreign_of_read hs ht hbefore missed (.inl got) foreign
      | some row =>
        obtain ⟨spelled, hknows⟩ := hload.knows hs ht told
        exact foreign_of_knows hknows hbefore spelled (foreign row rfl)

/-- What a trade is refused for, borne out by tables and clock. One case for each reason; what a
statement has answered was true when it ran. -/
theorem TradeRefusal.justified [LawfulDecimalJs] {before : Database}
    {t : Thread backend Call Response} {c : Uuid} {dto : CreateTradeDto} {rawKey : String}
    {x : JsError} (hs : State.Reaches program (Sys.start clients e) s) (ht : t ∈ s.threads)
    (h' : State.Reaches program s s') (hbefore : before.Later s.data)
    (missed : Missed before t.log s'.data)
    (h : TradeRefusal c dto.quoteId (trim rawKey) t.log x) :
    Justified before s'.seen (.executeTrade c dto rawKey) x := by
  have hlater := moves_on hs h'
  have hknown : ∀ {row},
      Event.sql (S := sig) (.selectQuoteForUpdate dto.quoteId) (.ok (some row)) ∈ t.log →
        Uuid.ofText? dto.quoteId = some row.id ∧ s'.data.Knows row := fun hm =>
    (knows_of_read hs _ ht dto.quoteId _ (.inr hm)).imp_right (·.later hlater.data)
  cases h with
  | fault h => exact .fault h
  | reused found other =>
    obtain ⟨trade, hfound, rfl⟩ := missed.keys _ _ _ found
    exact .reused hfound other
  | unknown read foreign =>
    exact .unknown (foreign_of_read hs ht hbefore missed (.inr read) foreign)
  | @executed row read owner status =>
    obtain ⟨spelled, q, hq, hcopy⟩ := hknown read
    obtain rfl : row = q.load := hcopy.resolve_right fun h => by
      rw [h] at status
      cases status
    subst owner
    exact .executed hq spelled status
  | @expired row n read owner clock past =>
    obtain ⟨spelled, q, hq, hcopy⟩ := hknown read
    have hpast : q.expiresAt.toDate.ms ≤ s'.env.dateNow := by
      have hrow : row.expiresAt = q.expiresAt.toDate := expiresAt_of_copy hcopy
      rw [← hrow]
      exact past.trans ((reading_le hs _ ht n clock).trans (dateNow_mono hlater.env))
    obtain ⟨hid, hclient, -⟩ := hcopy.values
    rw [hid] at hq spelled
    rw [← owner, hclient]
    exact .expired hq spelled hpast
  | @insufficient row ℓ₁ read owner opening lacking =>
    obtain ⟨spelled, q, hq, hcopy⟩ := hknown read
    have hpriced := priced_of_reaches (hs.trans h') q (mem_of_quote? hq).1
    obtain ⟨hid, hclient, hdebit, hamount⟩ : row.id = q.id ∧ row.clientId = q.clientId ∧
        row.debitCurrency = q.debitCurrency ∧ row.debitAmount = q.debitAmount := by
      rcases hcopy with rfl | rfl <;> exact ⟨rfl, rfl, rfl, rfl⟩
    have hpos : 0 < q.debitAmount := by
      unfold QuoteRow.debitAmount
      cases q.side with
      | BUY => exact hpriced.2
      | SELL => exact hpriced.1
    rw [hid] at hq spelled
    obtain rfl : c = q.clientId := owner.symm.trans hclient
    rw [hdebit, hamount] at lacking
    obtain ⟨new, hposted, hless⟩ := missed.funds ℓ₁ _ _ _ opening hpos lacking
    rw [hdebit]
    exact .insufficient hq spelled hposted hless

/-- **Refusals are on record.** Whatever calls are in progress, and however their acts interleave,
fail and crash: where a client's call on the tables is refused, the tables and the clock bear out
the reason it is given, then and at any later time, and without a reason it fails only by a fault.
-/
theorem refusals_on_record [LawfulDecimalJs] (hcache : ∀ key, e.cache key = none) {s₀ : Sys}
    (h₀ : State.Reaches program (Sys.start clients e) s₀) (h : State.Reaches program s₀ s) {i : Nat}
    {t : Thread backend Call Response} (new : s₀.threads.length ≤ i) (hi : s.threads[i]? = some t)
    (onTables : t.call.OnTables) {x : JsError} (refused : t.result? = some (.error x))
    (h' : State.Reaches program s s') : Justified s₀.data s'.seen t.call x := by
  have hs := h₀.trans h
  have ht := List.mem_of_getElem? hi
  have hlater := moves_on hs h'
  have hbefore : s₀.data.Later s.data := (moves_on h₀ h).data
  have missed := (missed_of_reaches h₀ h new hi).later hlater.data
  have told := told_of_reaches hcache h₀ h new hi
  by_cases hx : x = .connectionError
  · exact .fault (.inl hx)
  have hended : ∀ {Q : History → Except JsError Response → Prop},
      (program t.call).Yields (.free backend) Q [] → Q t.log (.error x) := fun hQ =>
    (ended_of_yields hs ht rfl refused hQ).resolve_left fun h => hx (Except.error.inj h)
  obtain ⟨p, hp, hanswer⟩ := (later_of_reaches hs).1.answer hi refused
  have hpossible := (hended (((program_acts t.call).yields fun _ _ => trivial).possible
    fun _ h => by cases h)).2
  obtain ⟨c, prog, ℓ, tx⟩ := t
  cases c with
  | seed | getPrice | createQuote => exact onTables.elim
  | getBalances c =>
    exact .fault (hended (yields_errors
      (yields_of_faults (getBalances_faults c) (fun _ _ h => h) []))
      x rfl)
  | createDeposit c dto =>
    rcases hended (yields_errors (createDeposit_errors c dto)) x rfl with
      h | ⟨rfl, amount⟩ | ⟨rfl, n, amount, small⟩
    · exact .fault h
    · exact .finer amount
    · exact .nothing amount small
  | getQuoteById c id =>
    exact QuoteAnswer.justified hs ht hbefore told missed hpossible
      (hanswer.resolve_left fun h => hx (Except.error.inj h))
  | executeTrade c dto rawKey =>
    exact (hended (yields_errors (executeTrade_refuses c dto rawKey)) x rfl).justified hs ht h'
      hbefore missed

end

section
open scoped Reference

/-- Alice's quote has run out before her trade starts, and she is told so. -/
theorem refusals_on_record_expired :
    Justified (Sample.after Sample.lapsed).data
      (Sample.after (Sample.lapsed ++ Sample.refused)).seen
      (Sample.thread (Sample.after (Sample.lapsed ++ Sample.refused)) 3).call
      (.goneException s!"Quote \"{Sample.quoteId.text}\" has expired") :=
  refusals_on_record (fun _ => rfl) (Sample.reached (by decide +kernel))
    (Sample.after_reached Sample.refused (by decide +kernel)) (by decide +kernel)
    (Sample.getElem?_thread (by decide +kernel))
    (by
      rw [show (Sample.thread _ 3).call = .executeTrade Sample.alice
        ⟨Sample.quoteId.text⟩ "key" from
        by decide +kernel]
      trivial)
    (show (Sample.thread _ 3).result? = some (.error (.goneException _)) from by decide +kernel)
    (State.Reaches.refl _)

end

end MiniOpenFX
