import MiniOpenFX.Guarantees.Expiry
import MiniOpenFX.Guarantees.Seeding
import MiniOpenFX.Guarantees.Upstream

/-!
# Answers are on record

Whatever a client is told stands in the tables, now and from then on (`answers_on_record`).
Balances are those of the ledger at a moment of the call's run; a deposit is told the balances
after the entry that a step of its own has posted; a quote that is shown is one of the client's, as
it was stored; and a trade is the one under the client's key, which is said to be new where a step
of the call has put it there, and to be replayed where it was there before the call did anything.
Two calls with one key are therefore never told of two trades, and one of them at most is told that
it has made it (`one_trade_for_key`).
-/

namespace MiniOpenFX

open Js Transactional

/-! ## What is on record -/

/-- The rows are the balances of a client after the entries: one in each currency there is an entry
of, with the sum of the entries. -/
structure BalancesAfter (es : List LedgerEntryRow) (clientId : Uuid) (rows : List BalanceRow) :
    Prop where
  sums : ∀ b ∈ rows, b.clientId = clientId ∧ b.availableMinor = entriesSum es clientId b.currency
  once : (rows.map BalanceRow.currency).Nodup
  complete : ∀ x ∈ es, x.clientId = clientId → x.currency ∈ rows.map BalanceRow.currency

section
variable [DecimalJs]

/-- A moment of the run between two states: the run goes through it. What is said of a moment is
therefore true of tables that there really were. -/
structure Moment (s₀ s m : Sys) : Prop where
  since : State.Reaches program s₀ m
  ago : State.Reaches program m s

/-- A step of call `i` in the run between two states, from `m` to `m'`. The tables before and after
it are those of the commit, not those that the call or anybody else made later. -/
structure OwnStep (s₀ s : Sys) (i : Nat) (m m' : Sys) : Prop where
  since : State.Reaches program s₀ m
  own : ∃ t, m.threads[i]? = some t ∧ State.Move m i t m'
  ago : State.Reaches program m' s

/-- The state that a step of a call leads to is a moment of the run, so what the step has put into
the tables is there at that moment. -/
theorem OwnStep.moment {s₀ s m m' : Sys} {i : Nat} (h : OwnStep s₀ s i m m') : Moment s₀ s m' := by
  obtain ⟨t, ht, hmove⟩ := h.own
  exact ⟨h.since.trans (.of_move ht hmove), h.ago⟩

/-- What stands behind the answer of call `i`, which came in at or after `s₀` and has ended in `s`,
given the tables as they are `now`. -/
inductive OnRecord (s₀ s : Sys) (i : Nat) (now : Database) : Call → Response → Prop
  | balances {clientId rows m} (moment : Moment s₀ s m)
      (posted : m.data.ledgerEntries <+: now.ledgerEntries)
      (shown : BalancesAfter m.data.ledgerEntries clientId rows) :
      OnRecord s₀ s i now (.getBalances clientId) (.balances (rows.map toBalanceResponse))
  /-- the balances are read at `m`, and the entry is the one that the call has posted before -/
  | deposited {clientId dto amountMinor depositId rows m₁ m₂ m}
      (amount : toMinorUnits (.text dto.amount) = .ok amountMinor) (own : OwnStep s₀ m i m₁ m₂)
      (entry : m₂.data.ledgerEntries = m₁.data.ledgerEntries ++
        [⟨clientId, dto.currency, amountMinor, .DEPOSIT, "DEPOSIT", depositId⟩])
      (moment : Moment s₀ s m) (posted : m.data.ledgerEntries <+: now.ledgerEntries)
      (shown : BalancesAfter m.data.ledgerEntries clientId rows) :
      OnRecord s₀ s i now (.createDeposit clientId dto) (.balances (rows.map toBalanceResponse))
  | quoted {dto : CreateQuoteDto} {q : QuoteRow Timestamp} (clock : Int)
      (stored : now.quote? q.id = some q) (fresh : s₀.data.quote? q.id = none)
      (side : q.side = dto.side)
        (base : toMinorUnits (.text dto.baseAmount) = .ok q.baseAmountMinor) :
      OnRecord s₀ s i now (.createQuote q.clientId dto)
        (.quote (toQuoteResponse clock (QuoteRow.load { q with status := .ACTIVE })))
  | shown {id : String} {q : QuoteRow Timestamp} {row : QuoteRow Date} (clock : Int)
      (stored : now.quote? q.id = some q) (spelled : Uuid.ofText? id = some q.id)
      (copy : row.CopyOf q) :
      OnRecord s₀ s i now (.getQuoteById q.clientId id) (.quote (toQuoteResponse clock row))
  /-- a step of the call has put the trade under the key -/
  | executed {dto : CreateTradeDto} {rawKey : String} {trade : TradeRow Timestamp} {clientId m m'}
      (own : OwnStep s₀ s i m m') (free : m.data.tradeByKey? clientId (trim rawKey) = none)
      (made : m'.data.tradeByKey? clientId (trim rawKey) = some trade)
      (found : now.tradeByKey? clientId (trim rawKey) = some trade)
      (spelled : Uuid.ofText? dto.quoteId = some trade.quoteId) :
      OnRecord s₀ s i now (.executeTrade clientId dto rawKey)
        (.trade ⟨toTradeResponse trade.load, false⟩)
  /-- the trade was under the key when the call had not done anything yet -/
  | replayed {dto : CreateTradeDto} {rawKey : String} {trade : TradeRow Timestamp} {clientId m}
      {t : Thread backend Call Response} (moment : Moment s₀ s m) (thread : m.threads[i]? = some t)
      (idle : t.log = []) (there : m.data.tradeByKey? clientId (trim rawKey) = some trade)
      (found : now.tradeByKey? clientId (trim rawKey) = some trade)
      (spelled : Uuid.ofText? dto.quoteId = some trade.quoteId) :
      OnRecord s₀ s i now (.executeTrade clientId dto rawKey)
        (.trade ⟨toTradeResponse trade.load, true⟩)

/-! ## Balances -/

omit [DecimalJs] in
/-- The balances read at any time are those after the ledger's entries: one row for each currency
with entries, and on it their sum. -/
theorem Accounts.balancesAfter {db : Database} (h : Accounts db) (clientId : Uuid) :
    BalancesAfter db.ledgerEntries clientId (db.balancesOf clientId) := by
  have hmem : ∀ {b}, b ∈ db.balancesOf clientId ↔ b ∈ db.balances ∧ b.clientId = clientId := by
    intro b
    rw [Database.balancesOf, List.mem_insertionSort, List.mem_filter, decide_eq_true_iff]
  refine ⟨fun b hb => ?_, ?_, fun x hx hc => ?_⟩
  · obtain ⟨hstored, rfl⟩ := hmem.mp hb
    have hfound : db.balance? b.clientId b.currency = some b := by
      simpa [Database.balance?, Prod.ext_iff] using
        find?_of_nodup (f := fun b => (b.clientId, b.currency)) h.unique hstored
    refine ⟨rfl, db.total_book b.clientId b.currency ▸ h.book.settled _ _ ?_⟩
    simp [Database.book, hfound]
  · have hperm : (db.balancesOf clientId).Perm
      (db.balances.filter fun b => b.clientId = clientId) :=
      List.perm_insertionSort _ _
    rw [(hperm.map BalanceRow.currency).nodup_iff]
    refine List.Nodup.map_on (fun a ha b hb hab => ?_) ((h.unique.of_map _).filter _)
    rw [List.mem_filter, decide_eq_true_iff] at ha hb
    exact List.inj_on_of_nodup_map h.unique ha.1 hb.1 (Prod.ext (ha.2.trans hb.2.symm) hab)
  · have hopen := h.book.opened ((x.clientId, x.currency), x.deltaMinor)
      (List.mem_map.mpr ⟨x, hx, rfl⟩)
    simp only [Database.book, Option.isSome_map] at hopen
    obtain ⟨b, hb⟩ := Option.isSome_iff_exists.mp hopen
    have hkey := balance?_key hb
    exact List.mem_map.mpr ⟨b, hmem.mpr ⟨List.mem_of_find?_eq_some hb, hkey.1.trans hc⟩, hkey.2⟩

/-! ## What a call has been told -/

/-- What the history of a call says about quotes, since the tables were as `before`: the ids it has
inserted were free there, and what it has read from the cache are copies of known rows. -/
structure Told (before : Database) (ℓ : History) (db : Database) : Prop where
  quotes : ∀ v row, Event.sql (S := sig) (.insertQuote v) (.ok row) ∈ ℓ →
    before.quote? row.id = none
  cached : ∀ id cached, Event.ext (S := sig) (.redisGet (quoteCacheKey id))
    (.ok (some (.quote cached))) ∈ ℓ → ∃ row, cached = serializeQuote row ∧
      Uuid.ofText? id = some row.id ∧ db.Knows row

/-- Entries of the ledger are only added, at its end. What the ledger said at a moment of a run is
therefore how it begins ever after. -/
theorem Database.Later.ledgerEntries {db db' : Database} (h : db.Later db') :
    db.ledgerEntries <+: db'.ledgerEntries := by
  refine h.keeps (P := fun d => db.ledgerEntries <+: d.ledgerEntries) (List.prefix_refl _) ?_
  intro d e _ hd
  refine hd.trans ?_
  cases e with
  | nothing | quote => exact List.prefix_refl _
  | deposit | seed => simp [Effect.apply, Write.apply]
  | trade => rw [ledgerEntries_trade]; exact List.prefix_append _ _

section
variable {before db db' : Database} {ℓ : History}

omit [DecimalJs] in
/-- A call that has just come in has been told nothing. It is where the induction of
`told_of_reaches` starts. -/
theorem Told.start : Told before [] db where
  quotes _ _ h := by cases h
  cached _ _ h := by cases h

/-- What a call has been told stands in later tables: ids that were free before remain so said, and
a row that is known stays known. -/
theorem Told.later (h : Told before ℓ db) (hl : db.Later db') : Told before ℓ db' where
  quotes := h.quotes
  cached id cached hm := (h.cached id cached hm).imp fun _ h => ⟨h.1, h.2.1, h.2.2.later hl⟩

end

variable {clients : List ClientRow} {e : Surroundings} {s s' : Sys}

/-- The tables at the end of a run are later than those at any moment of it. So a trade or an entry
that was there at the moment is there in the end. -/
theorem Moment.later {s₀ m : Sys} (h : Moment s₀ s m)
    (h₀ : State.Reaches program (Sys.start clients e) s₀) : m.data.Later s.data :=
  (moves_on (h₀.trans h.since) h.ago).data

omit [DecimalJs] in
/-- No transaction reads the balances to show them, so `exec_of_act` applies: they are read from
committed tables. -/
theorem Running.not_balances {db : Database} {ws : List Write} {L : List Resource} {c : Uuid} :
    ¬ Running db ws L (.selectBalances c) := by
  intro h
  cases h with
  | held moves => exact moves

/-- A statement that no transaction runs behind a write is answered from the committed data. So
what the call was told was true of the tables at that moment. -/
theorem exec_of_act {u : Sys} {i : Nat} {t : Thread backend Call Response} {st : Stmt}
    {r : StmtRes st} {w : World backend}
    (hu : Isolated isolation rely (fun _ => obligationsOf) (fun _ => answers) u)
    (hi : u.threads[i]? = some t) (hw : u.Acts t (.sql st (.ok r)) w)
    (hst : ∀ ws L, Running u.data ws L st → ws = []) :
    ∃ ws, exec (u.world t).stamp u.data st = .ok (r, ws) := by
  obtain ⟨k, χ, ws, hp, hx, -⟩ := hw.sql_ok
  have hview : (u.world t).view = u.data := by
    obtain ⟨tx, htx, hrun⟩ | ⟨htx, -⟩ := hu.sql hi hp
    · have hnil : tx.writes = [] := hst _ _ hrun
      simp only [State.world, World.view, htx, hnil]
      rfl
    · simp [State.world, World.view, htx]
  exact ⟨ws, hview ▸ hx⟩

omit [DecimalJs] in
/-- What a read of the cache returns is in it at that moment, under the key that was asked for. -/
theorem entry_of_act {u : Sys} {t : Thread backend Call Response} {key : String}
    {value : CacheValue}
    {w : World backend} (hw : u.Acts t (.ext (S := sig) (.redisGet key) (.ok (some value))) w) :
    ∃ entry, u.env.cache key = some entry ∧ entry.value = value := by
  have hget : u.env.get key = some value := by
    cases hw with
    | @run χ p h =>
      generalize t.prog = prog at h
      cases prog with
      | ext x k =>
        simp only [Prog.step, Option.some.injEq, Prod.mk.injEq, Event.ext.injEq] at h
        obtain ⟨-, ⟨rfl, h⟩, -⟩ := h
        exact Except.ok.inj (eq_of_heq h)
      | sql st k =>
        simp only [Prog.step] at h
        split at h <;> cases h
      | done | begin | commit | rollback => cases h
    | @interrupt p h =>
      generalize t.prog = prog at h
      cases prog <;> cases h
  unfold Surroundings.get at hget
  split at hget
  · cases hget
  · next entry hentry =>
    split at hget
    · exact ⟨entry, hentry, Option.some.inj hget⟩
    · cases hget

/-- A quote that is not found now was not there before, since no row of a quote goes away. -/
theorem quote?_of_later {before db : Database} {u : Uuid} (h : before.Later db)
    (hnone : db.quote? u = none) : before.quote? u = none := by
  cases hq : before.quote? u with
  | none => rfl
  | some q =>
    obtain ⟨q', hq', -⟩ := (Database.knows_load hq).later h
    rw [show q.load.id = u from quote?_id hq, hnone] at hq'
    cases hq'

/-- An act keeps to what is on record. By cases on the event: only reads of quotes, of the cache
and inserts tell anything new. -/
theorem Told.act [LawfulDecimalJs] (hcache : ∀ key, e.cache key = none)
    (hs : State.Reaches program (Sys.start clients e) s) {u : Sys} {i : Nat}
    {t : Thread backend Call Response} {ev : Event sig JsError} {w : World backend}
    (hreach : State.Reaches program s u)
    (hu : Isolated isolation rely (fun _ => obligationsOf) (fun _ => answers) u)
    (hi : u.threads[i]? = some t) (hP : Told s.data t.log u.data) (hw : u.Acts t ev w)
    (hd : Database.Later u.data w.data) : Told s.data (t.log ++ [ev]) w.data := by
  have hgrown : s.data.Later u.data := (moves_on hs hreach).data
  refine ⟨fun v row hm => ?_, fun id cached hm => ?_⟩
  · rcases List.mem_append.mp hm with hm | hm
    · exact hP.quotes v row hm
    obtain rfl := List.mem_singleton.mp hm
    obtain ⟨ws, hx⟩ := exec_of_act hu hi hw fun _ _ h =>
      absurd rfl ((Running.not_saw h).2 v)
    obtain ⟨-, expiresAt, -, -, -, hfresh, -, rfl, -⟩ := exec_insertQuote.mp hx
    exact quote?_of_later hgrown hfresh
  · rcases List.mem_append.mp hm with hm | hm
    · exact (hP.later hd).cached id cached hm
    obtain rfl := List.mem_singleton.mp hm
    obtain ⟨entry, hentry, hvalue⟩ := entry_of_act hw
    obtain ⟨row, hrow, spelled, hknows⟩ :=
      (copies_of_reaches hcache (hs.trans hreach)).1 id entry hentry
    cases hrow.symm.trans hvalue
    exact ⟨row, rfl, spelled, hknows.later hd⟩

/-! ## How calls end -/

/-- Balances that are shown have been read, by the last act of the call and in one statement. -/
theorem getBalances_yields (clientId : Uuid) (ℓ : History) :
    (BalancesService.getBalances clientId).Yields (.free backend)
      (fun ℓ' r => ∀ shown, r = .ok shown →
      ∃ rows, ℓ' = ℓ ++ [.sql (S := sig) (.selectBalances clientId) (.ok rows)] ∧
        shown = rows.map toBalanceResponse) ℓ := by
  refine Prog.yields_query (fun rows _ => ?_) fun _ _ _ h => by cases h
  rintro _ ⟨⟩
  exact ⟨rows, rfl, rfl⟩

/-- A deposit shows the balances it reads after its commit. -/
theorem createDeposit_yields (clientId : Uuid) (dto : CreateDepositDto) :
    (BalancesService.createDeposit clientId dto).Yields (.free backend) (fun ℓ r => ∀ shown,
      r = .ok shown → ∃ (ℓ₀ : History) (rows : List BalanceRow),
        ℓ = ℓ₀ ++ [.commit (.ok ())] ++ [.sql (S := sig) (.selectBalances clientId) (.ok rows)] ∧
          shown = rows.map toBalanceResponse) [] := by
  unfold BalancesService.createDeposit
  cases toMinorUnits (.text dto.amount) with
  | error e => exact fun _ h => by cases h
  | ok amountMinor =>
    simp only [Prog.bind_eq, Prog.pure_eq, Prog.bind_ok]
    split
    · exact fun _ h => by cases h
    refine Prog.yields_request trivial (fun depositId _ => ?_) fun _ _ _ h => by cases h
    refine Prog.yields_bind.mpr (Prog.yields_transaction (fun _ _ h => by cases h) ?_)
    refine (Prog.Acts.yields (P := fun _ => True)
      (depositBody_acts (fun _ _ => trivial) clientId dto.currency amountMinor depositId)
      fun _ _ => trivial).mono fun ℓ r _ => ?_
    cases r with
    | error e => exact fun _ h => by cases h
    | ok u =>
      refine (getBalances_yields clientId _).mono fun ℓ' r hr shown h => ?_
      obtain ⟨rows, rfl, hshown⟩ := hr shown h
      exact ⟨_, rows, rfl, hshown⟩

/-- A call that says it has made a trade has committed it. A replay commits nothing, so the flag
tells the two apart. -/
theorem executeTrade_commits (clientId : Uuid) (dto : CreateTradeDto) (rawKey : String) :
    (TradingService.executeTrade clientId dto rawKey).Yields (.free backend) (fun ℓ r => ∀ trade,
      r = .ok ⟨trade, false⟩ → .commit (.ok ()) ∈ ℓ) [] := by
  have hreplay : ∀ (row : TradeRow Date) (ℓ : History) trade,
      TradingService.replayOrConflict row dto.quoteId = .ok ⟨trade, false⟩ →
        .commit (.ok ()) ∈ ℓ := by
    intro row ℓ trade h
    obtain ⟨-, hresult⟩ := replayOrConflict_ok h
    cases hresult
  refine Prog.yields_query (fun found _ => ?_) fun _ _ _ h => by cases h
  cases found with
  | some row => exact hreplay row _
  | none =>
    refine Prog.yields_bind.mpr (Prog.yields_attempt.mpr ((Prog.yields_transaction
      (Q := fun ℓ r => ∀ row, r = .ok row → .commit (.ok ()) ∈ ℓ)
        (fun ℓ row h => by cases h) ?_).mono
      ?_))
    · refine (Prog.Acts.yields (P := fun _ => True) (executeWithinTransaction_acts
        (fun _ _ => trivial) (fun _ _ => trivial) clientId dto.quoteId (trim rawKey))
        fun _ _ => trivial).mono fun ℓ r _ => ?_
      cases r with
      | ok row => exact fun _ _ => List.mem_concat_self
      | error x => exact fun _ h => by cases h
    · intro ℓ r hr
      cases r with
      | ok row =>
        exact yields_failSoft fun _ _ _ => List.mem_append_left _ (hr row rfl)
      | error x =>
        dsimp only
        split
        · refine Prog.yields_query (fun raced _ => ?_) fun _ _ _ h => by cases h
          cases raced with
          | some row => exact hreplay row _
          | none =>
            dsimp only
            split <;> exact fun _ h => by cases h
        · simp only [Prog.bind_eq, Prog.pure_eq, Prog.bind_ok]
          split <;> exact fun _ h => by cases h

omit [DecimalJs] in
/-- A call that succeeds answers with what its service returns. -/
theorem yields_response {α : Type} {x : App α} {f : α → Response}
    {Q : History → Except JsError α → Prop} {ℓ : History} (h : x.Yields (.free backend) Q ℓ) :
    (x.bind fun a => .done (.ok (f a))).Yields (.free backend) (fun ℓ r => ∀ response,
      r = .ok response → ∃ a, response = f a ∧ Q ℓ (.ok a)) ℓ := by
  refine Prog.yields_bind.mpr (h.mono fun ℓ r hr => ?_)
  cases r with
  | error e => exact fun _ h => by cases h
  | ok a =>
    rintro _ ⟨⟩
    exact ⟨a, rfl, hr⟩

/-- How a call that has ended ends, by its history: what its program yields, or the connection was
lost. -/
theorem ended_of_yields (h : State.Reaches program (Sys.start clients e) s)
    {t : Thread backend Call Response} (ht : t ∈ s.threads) {c : Call} (call : t.call = c)
    {r : Except JsError Response} (finished : t.result? = some r)
    {Q : History → Except JsError Response → Prop} (hQ : (program c).Yields (.free backend) Q []) :
    r = .error .connectionError ∨ Q t.log r := by
  refine (h.yields (W := .free backend) (Q := fun c' ℓ r => c' = c → Q ℓ r) (fun c' => ?_) rfl
    trivial trivial (fun _ _ _ _ => trivial) ht finished).imp_right fun hr => hr call
  by_cases hc : c' = c
  · rw [hc]
    exact hQ.mono fun _ _ hr _ => hr
  · exact ((program_acts c').yields fun _ _ => trivial).mono fun _ _ _ hc' => absurd hc' hc

/-- A call that has told its client that it has made a trade has committed
(`executeTrade_commits`), since a lost connection would have told it nothing. -/
theorem commit_of_made (h : State.Reaches program (Sys.start clients e) s)
    {t : Thread backend Call Response} (ht : t ∈ s.threads) {clientId : Uuid} {dto : CreateTradeDto}
    {rawKey : String} (call : t.call = .executeTrade clientId dto rawKey) {trade : TradeResponse}
    (made : t.result? = some (.ok (.trade ⟨trade, false⟩))) : .commit (.ok ()) ∈ t.log := by
  obtain ⟨result, hresult, hcommits⟩ := (ended_of_yields h ht call made
    (yields_response (executeTrade_commits clientId dto rawKey))).resolve_left (by simp) _ rfl
  cases hresult
  exact hcommits trade rfl

/-! ## On record -/

/-- What a call has been told since the tables were as they were before it. Every act of the call
keeps it, and the acts of others only make the tables later ones. -/
theorem told_of_reaches [LawfulDecimalJs] (hcache : ∀ key, e.cache key = none)
    (hs : State.Reaches program (Sys.start clients e) s) (h : State.Reaches program s s') {i : Nat}
    {t : Thread backend Call Response} (new : s.threads.length ≤ i) (hi : s'.threads[i]? = some t) :
    Told s.data t.log s'.data :=
  h.new_histories (P := fun _ => Told s.data) verified_of (isolated_of_reaches hs)
    (fun _ _ => Told.start) (fun _ _ _ _ hd hP => hP.later hd)
    (fun _ _ _ _ _ hreach hu hi hP hw hd => hP.act hcache hs hreach hu hi hw hd) new hi

section
variable {s₀ : Sys} {i : Nat} {t : Thread backend Call Response} {ℓ : History}

/-- The balances that a call reads are those after the ledger's entries at that moment: the
statement is answered from one state of the tables. -/
theorem moment_of_balances [LawfulDecimalJs]
    (h₀ : State.Reaches program (Sys.start clients e) s₀) (h : State.Reaches program s₀ s)
    (new : s₀.threads.length ≤ i) (hi : s.threads[i]? = some t) {clientId : Uuid}
    {rows : List BalanceRow}
    (hread : ℓ ++ [.sql (S := sig) (.selectBalances clientId) (.ok rows)] <+: t.log) :
    ∃ m t₀, Moment s₀ s m ∧ m.threads[i]? = some t₀ ∧ t₀.call = t.call ∧ t₀.log = ℓ ∧
      BalancesAfter m.data.ledgerEntries clientId rows := by
  obtain ⟨m, m', hm, ⟨t₀, p, w, ht₀, hcall, hlog, hw, hmove, rfl⟩, hm'⟩ := h.seen_in new hi hread
  have hstart := h₀.trans hm
  obtain ⟨ws, hx⟩ := exec_of_act (isolated_of_reaches hstart) ht₀ hw
    fun _ _ h => absurd h Running.not_balances
  obtain ⟨rfl, -⟩ := exec_selectBalances.mp hx
  exact ⟨m, t₀, ⟨hm, .trans (State.Reaches.of_move ht₀ hmove) hm'⟩, ht₀, hcall, hlog,
    (accounts_of_reaches hstart).balancesAfter clientId⟩

/-- A commit in the history of a call is a step of the call, and does what `CommitsAlone` says. It
is how a receipt comes to name the tables around its own commit. -/
theorem ownStep_of_commit (h₀ : State.Reaches program (Sys.start clients e) s₀)
    (h : State.Reaches program s₀ s) (new : s₀.threads.length ≤ i) (hi : s.threads[i]? = some t)
    (hcommit : ℓ ++ [.commit (.ok ())] <+: t.log) :
    ∃ m m', OwnStep s₀ s i m m' ∧
      CommitsAlone t.call (ℓ ++ [.commit (.ok ())]) m.data m'.data := by
  obtain ⟨m, m', hm, ⟨t₀, p, w, ht₀, hcall, hlog, hw, hmove, rfl⟩, hm'⟩ := h.seen_in new hi hcommit
  obtain ⟨tx, -, hobliged, hdata⟩ := hw.commit (isolated_of_reaches (h₀.trans hm)) ht₀
  refine ⟨m, _, ⟨hm, ⟨t₀, ht₀, hmove⟩, hm'⟩, ?_⟩
  rw [← hcall, ← hlog, show (m.resume i t₀ (p, _, w)).data = w.data from rfl, hdata]
  exact hobliged.2

/-- A trade that the first act of a call finds was there when the call had not done anything yet.
So a replay that is told at the lookup is of an older trade. -/
theorem moment_of_lookup (h₀ : State.Reaches program (Sys.start clients e) s₀)
    (h : State.Reaches program s₀ s) (new : s₀.threads.length ≤ i) (hi : s.threads[i]? = some t)
    {clientId : Uuid} {key : String} {row : TradeRow Date}
    (first : t.log.head? = some
      (.sql (S := sig) (.selectTradeByKey clientId key) (.ok (some row)))) :
    ∃ m t₀, Moment s₀ s m ∧ m.threads[i]? = some t₀ ∧ t₀.log = [] ∧
      ∃ trade, m.data.tradeByKey? clientId key = some trade ∧ row = trade.load := by
  obtain ⟨ℓ, hlog⟩ := List.head?_eq_some_iff.mp first
  obtain ⟨m, m', hm, ⟨t₀, p, w, ht₀, -, hidle, hw, hmove, rfl⟩, hm'⟩ :=
    h.seen_in (ℓ := []) new hi ⟨ℓ, hlog.symm⟩
  obtain ⟨ws, hx⟩ := exec_of_act (isolated_of_reaches (h₀.trans hm)) ht₀ hw
    fun _ _ h => absurd h Running.not_lookup
  obtain ⟨hrow, -⟩ := exec_selectTradeByKey.mp hx
  obtain ⟨trade, hfound, rfl⟩ := Option.map_eq_some_iff.mp hrow.symm
  exact ⟨m, t₀, ⟨hm, .trans (State.Reaches.of_move ht₀ hmove) hm'⟩, ht₀, hidle, trade, hfound, rfl⟩

end

omit [DecimalJs] in
/-- A row that an event inserts is returned by the statement that inserts a quote. -/
theorem inserted?_eq_some {ev : Event sig JsError} {row : QuoteRow Date}
    (h : inserted? ev = some row) : ∃ v, ev = .sql (S := sig) (.insertQuote v) (.ok row) := by
  unfold inserted? at h
  split at h
  · cases h
    exact ⟨_, rfl⟩
  · cases h

omit [DecimalJs] in
/-- A copy that is active shows the row as it was made, whatever has become of the row since. -/
theorem QuoteRow.CopyOf.load_active {row : QuoteRow Date} {q : QuoteRow Timestamp}
    (h : row.CopyOf q) (active : row.status = .ACTIVE) :
    row = QuoteRow.load { q with status := .ACTIVE } := by
  rcases h with rfl | rfl
  · cases q
    cases active
    rfl
  · rfl

omit [DecimalJs] in
/-- A copy of a quote, from whatever time, has all of its values but the status. -/
theorem QuoteRow.CopyOf.values {row : QuoteRow Date} {q : QuoteRow Timestamp} (h : row.CopyOf q) :
    row.id = q.id ∧ row.clientId = q.clientId ∧ row.side = q.side ∧
      row.baseAmountMinor = q.baseAmountMinor := by
  rcases h with rfl | rfl <;> exact ⟨rfl, rfl, rfl, rfl⟩

/-- A quote that has been stored is on record: the row is in the tables, with an id that was free
before, and the response shows it. -/
theorem Quoted.onRecord {s₀ : Sys} {i : Nat} {now : Database} {ℓ : History} {clientId : Uuid}
    {dto : CreateQuoteDto} {response : QuoteResponse}
    (h : Quoted (.free backend) clientId dto ℓ (.ok response))
    (hfresh : ∀ v row, Event.sql (S := sig) (.insertQuote v) (.ok row) ∈ ℓ →
      s₀.data.quote? row.id = none) (hknown : ∀ row, ℓ.Saw row → now.Knows row) :
    OnRecord s₀ s i now (.createQuote clientId dto) (.quote response) := by
  cases h with
  | @stored b prices n clock a id expiresAt row brought _ _ hone hpossible =>
    obtain ⟨ev, hev, hrow⟩ := List.mem_filterMap.mp (hone ▸ List.mem_singleton_self row)
    obtain ⟨v, rfl⟩ := inserted?_eq_some hrow
    obtain ⟨q, hq, hcopy⟩ := hknown row (.inr ⟨v, hev⟩)
    have hnone := hfresh v row hev
    obtain ⟨-, expires, created, rfl⟩ := insertQuote_stored hpossible
    have hload := hcopy.load_active rfl
    obtain ⟨hid, hclient, hside, hbase⟩ : id = q.id ∧ clientId = q.clientId ∧ dto.side = q.side ∧
      n = q.baseAmountMinor := hcopy.values
    subst hid hclient
    rw [hload]
    exact .quoted clock hq hnone hside.symm (hbase ▸ brought.base)

/-- A row that has been loaded is known, from the cache as from the table: what the cache held was
the text of a known row. -/
theorem Loaded.knows {before : Database} {t : Thread backend Call Response} {id : String}
    {row : QuoteRow Date} (hs : State.Reaches program (Sys.start clients e) s) (ht : t ∈ s.threads)
    (told : Told before t.log s.data) (h : Loaded id t.log (some row)) :
    Uuid.ofText? id = some row.id ∧ s.data.Knows row := by
  cases h with
  | @cached cached row got decoded =>
    -- what is cached has been serialized
    obtain ⟨row, rfl, hknown⟩ := told.cached id cached got
    rw [deserializeQuote_serializeQuote] at decoded
    cases decoded
    exact hknown
  | read got => exact knows_of_read hs t ht id row (.inl got)

/-- What a read of a quote shows is on record: it is a copy of a row of the client's, with the
status it has or had. -/
theorem QuoteAnswer.onRecord {s₀ : Sys} {i : Nat} {now : Database}
    {t : Thread backend Call Response} {c : Uuid} {id : String} {response : Response}
    (hs : State.Reaches program (Sys.start clients e) s) (ht : t ∈ s.threads)
    (told : Told s₀.data t.log s.data) (hlater : s.data.Later now)
    (h : QuoteAnswer c id t.log (.ok response)) :
    OnRecord s₀ s i now (.getQuoteById c id) response := by
  generalize hr : Except.ok response = r at h
  cases h with
  | failed | corrupt => cases hr
  | @loaded row clock hload =>
    cases howned : assertOwnedByClient QuoteRow.clientId row c s!"Quote \"{id}\" not found" with
    | error x =>
      rw [howned] at hr
      cases hr
    | ok row =>
      rw [howned] at hr
      cases hr
      obtain ⟨rfl, rfl⟩ := assertOwnedByClient_ok howned
      obtain ⟨spelled, q, hq, hcopy⟩ := (hload.knows hs ht told).imp_right (·.later hlater)
      rw [hcopy.values.1] at spelled hq
      rw [hcopy.values.2.1]
      exact .shown clock hq spelled hcopy

/-- A trade that is answered is on record. It was made by this call's own commit if it is said to
be new, and was there at a moment of the call if it is said to be replayed. -/
theorem TradeAnswer.onRecord {s₀ : Sys} {i : Nat} {db now : Database}
    {t : Thread backend Call Response} {c : Uuid} {dto : CreateTradeDto} {rawKey : String}
    {response : Response} (h₀ : State.Reaches program (Sys.start clients e) s₀)
    (hrun : State.Reaches program s₀ s) (new : s₀.threads.length ≤ i)
    (hi : s.threads[i]? = some t) (call : t.call = .executeTrade c dto rawKey)
    (committed : ∀ trade, response = .trade ⟨trade, false⟩ → .commit (.ok ()) ∈ t.log)
    (hdb : db.Later now) (hlater : s.data.Later now)
    (h : TradeAnswer c dto.quoteId (trim rawKey) db t.log (.ok response)) :
    OnRecord s₀ s i now (.executeTrade c dto rawKey) response := by
  -- what is under the key at a moment of the run is what is there in the end
  have hsame : ∀ {m : Sys} {row trade : TradeRow Timestamp}, Moment s₀ s m →
      m.data.tradeByKey? c (trim rawKey) = some trade →
        db.tradeByKey? c (trim rawKey) = some row → row = trade := by
    intro m row trade hm hthere hfound
    have hthen : m.data.Later now := (hm.later h₀).trans hlater
    exact Option.some.inj ((hdb.tradeByKey? hfound).symm.trans (hthen.tradeByKey? hthere))
  generalize hr : Except.ok response = r at h
  cases h with
  | failed => cases hr
  | @replay row found first =>
    cases hreplay : TradingService.replayOrConflict row.load dto.quoteId with
    | error x =>
      rw [hreplay] at hr
      cases hr
    | ok result =>
      rw [hreplay] at hr
      cases hr
      obtain ⟨hid, rfl⟩ := replayOrConflict_ok hreplay
      obtain ⟨m, t₀, moment, ht₀, idle, trade, there, -⟩ := moment_of_lookup h₀ hrun new hi first
      obtain rfl := hsame moment there found
      refine .replayed moment ht₀ idle there (hdb.tradeByKey? found) ?_
      rw [← hid]
      exact Uuid.ofText?_text _
  | @filled row found spelled _ _ =>
    cases hr
    obtain ⟨ℓ, ℓ', hlog⟩ := List.append_of_mem (committed _ rfl)
    obtain ⟨m, m', own, alone⟩ := ownStep_of_commit h₀ hrun new hi (ℓ := ℓ) ⟨ℓ', by simp [hlog]⟩
    obtain ⟨free, hmade⟩ := alone.keyed ⟨dto, rawKey, call, rfl⟩
    obtain ⟨trade, made⟩ := Option.isSome_iff_exists.mp hmade
    obtain rfl := hsame own.moment made found
    exact .executed own free made (hdb.tradeByKey? found) spelled

/-- **Answers are on record.** Whatever calls are in progress, and however their acts interleave,
fail and crash: what a client's call is told when it succeeds is what the tables have said at a
moment of the call's run, and say then and at any later time. -/
theorem answers_on_record [LawfulDecimalJs] (hcache : ∀ key, e.cache key = none) {s₀ : Sys}
    (h₀ : State.Reaches program (Sys.start clients e) s₀) (h : State.Reaches program s₀ s) {i : Nat}
    {t : Thread backend Call Response} (new : s₀.threads.length ≤ i) (hi : s.threads[i]? = some t)
    {clientId : Uuid} (client : t.call.client? = some clientId) {response : Response}
    (answered : t.result? = some (.ok response)) (h' : State.Reaches program s s') :
    OnRecord s₀ s i s'.data t.call response := by
  have hs := h₀.trans h
  have ht := List.mem_of_getElem? hi
  have hlater : s.data.Later s'.data := (moves_on hs h').data
  have told := told_of_reaches hcache h₀ h new hi
  have hposted : ∀ {m : Sys}, Moment s₀ s m →
      m.data.ledgerEntries <+: s'.data.ledgerEntries := fun hm =>
    Database.Later.ledgerEntries ((hm.later h₀).trans hlater)
  have hended : ∀ {Q : History → Except JsError Response → Prop},
      (program t.call).Yields (.free backend) Q [] → Q t.log (.ok response) := fun hQ =>
    (ended_of_yields hs ht rfl answered hQ).resolve_left (by simp)
  obtain ⟨p, hp, hanswer⟩ := (later_of_reaches hs).1.answer hi answered
  obtain ⟨c, prog, ℓ, tx⟩ := t
  cases c with
  | seed | getPrice => cases client
  | getBalances c =>
    obtain ⟨shown, rfl, hread⟩ := hended (yields_response (getBalances_yields c [])) response rfl
    obtain ⟨rows, hlog, rfl⟩ := hread shown rfl
    have hread : ([] : History) ++ [.sql (S := sig) (.selectBalances c) (.ok rows)] <+: ℓ :=
      ⟨[], (List.append_nil _).trans hlog.symm⟩
    obtain ⟨m, t₀, moment, -, -, -, hafter⟩ := moment_of_balances h₀ h new hi hread
    exact .balances moment (hposted moment) hafter
  | createDeposit c dto =>
    obtain ⟨shown, rfl, hread⟩ := hended (yields_response (createDeposit_yields c dto)) response rfl
    obtain ⟨ℓ₀, rows, hlog, rfl⟩ := hread shown rfl
    obtain ⟨m, t₀, moment, ht₀, hcall, hlog₀, hafter⟩ :=
      moment_of_balances h₀ h new hi ⟨[], by rw [List.append_nil, hlog]⟩
    obtain ⟨m₁, m₂, own, alone⟩ := ownStep_of_commit h₀ moment.since new ht₀ (ℓ := ℓ₀)
      ⟨[], by rw [List.append_nil, hlog₀]⟩
    obtain ⟨post, hpost⟩ := (hcall ▸ alone).posted
    have hposts := hpost.posts
    cases hposts with
    | deposit _ _ depositId amount _ =>
      exact .deposited amount own hpost.ledgerEntries moment (hposted moment) hafter
  | createQuote c dto =>
    obtain ⟨shown, rfl, hquoted⟩ :=
      hended (yields_response (createQuote_yields c dto (fun _ => trivial)
      (fun _ _ => trivial) trivial trivial trivial trivial (fun _ _ _ => trivial)
      (fun _ _ => trivial) fun _ _ _ _ => trivial)) response rfl
    exact hquoted.onRecord told.quotes fun row hsaw =>
      ((copies_of_reaches hcache hs).2 _ ht row hsaw).later hlater
  | getQuoteById c id =>
    exact QuoteAnswer.onRecord hs ht told hlater (hanswer.resolve_left (by simp))
  | executeTrade c dto rawKey =>
    refine TradeAnswer.onRecord h₀ h new hi rfl (fun trade hresponse => ?_) (hp.data.trans hlater)
      hlater (hanswer.resolve_left (by simp))
    exact commit_of_made hs ht rfl (hresponse ▸ answered)

/-- **One trade for a key.** Two calls of a client with one key, in any order and with any
spellings, that both succeed are told of the same trade, which is of the quote that both name; and
only one call can be told that it has made the trade. -/
theorem one_trade_for_key (h : State.Reaches program (Sys.start clients e) s) {i j : Nat}
    {t u : Thread backend Call Response} (hi : s.threads[i]? = some t) (hj : s.threads[j]? = some u)
    {clientId : Uuid} {dto dto' : CreateTradeDto} {rawKey rawKey' : String}
    (call : t.call = .executeTrade clientId dto rawKey)
    (call' : u.call = .executeTrade clientId dto' rawKey') (same : trim rawKey' = trim rawKey)
    {result result' : TradeResult} (succeeded : t.result? = some (.ok (.trade result)))
    (succeeded' : u.result? = some (.ok (.trade result'))) :
    result'.trade = result.trade ∧ Uuid.ofText? dto.quoteId = some result.trade.quoteId ∧
      Uuid.ofText? dto'.quoteId = some result.trade.quoteId ∧
        (result.replayed = false → result'.replayed = false → i = j) := by
  obtain ⟨trade, found, spelled, hresult⟩ := tradeByKey?_of_success h hi call succeeded
  obtain ⟨trade', found', spelled', hresult'⟩ := tradeByKey?_of_success h hj call' succeeded'
  rw [same] at found'
  obtain rfl := Option.some.inj (found.symm.trans found')
  have hquote : result.trade.quoteId = trade.quoteId := by rw [hresult]; rfl
  refine ⟨hresult'.trans hresult.symm, hquote ▸ spelled, hquote ▸ spelled', fun made made' => ?_⟩
  obtain ⟨shown, replayed⟩ := result
  obtain ⟨shown', replayed'⟩ := result'
  subst made made'
  exact (keyed_of_reaches h).once i j t u clientId (trim rawKey) hi hj ⟨_, _, call, rfl⟩
    ⟨_, _, call', same⟩ (commit_of_made h (List.mem_of_getElem? hi) call succeeded)
    (commit_of_made h (List.mem_of_getElem? hj) call' succeeded')

end

section
open scoped Reference

/-- Alice's quote, when it has been executed. -/
theorem answers_on_record_quote : OnRecord (Sample.after Sample.deposits)
    (Sample.after (Sample.deposits ++ Sample.quotes)) 1 Sample.traded.data
    (Sample.thread (Sample.after (Sample.deposits ++ Sample.quotes)) 1).call
    (.quote (toQuoteResponse 1700000000000 Sample.quote.load)) :=
  answers_on_record (fun _ => rfl) (Sample.reached (by decide +kernel))
    (Sample.after_reached Sample.quotes (by decide +kernel)) (i := 1) (by decide +kernel)
    (Sample.getElem?_thread (by decide +kernel))
    (show (Sample.thread _ 1).call.client? = some Sample.alice from by decide +kernel)
    (by decide +kernel) (Sample.after_reached Sample.trades (by decide +kernel))

/-- Alice's trade and her retry. -/
theorem one_trade_for_key_retry :
    toTradeResponse Sample.trade.load = toTradeResponse Sample.trade.load ∧
      Uuid.ofText? Sample.quoteId.text = some (toTradeResponse Sample.trade.load).quoteId ∧
      Uuid.ofText? Sample.quoteId.text = some (toTradeResponse Sample.trade.load).quoteId ∧
        (false = false → true = false → 2 = 3) :=
  one_trade_for_key
    (show State.Reaches program _
        (Sample.after (Sample.committing ++ [Sample.commit] ++ Sample.retries)) from
      Sample.reached (by decide +kernel))
    (Sample.getElem?_thread (i := 2) (by decide +kernel))
    (Sample.getElem?_thread (i := 3) (by decide +kernel))
    (show (Sample.thread _ 2).call = .executeTrade Sample.alice ⟨Sample.quoteId.text⟩ "key" from
      by decide +kernel)
    (show (Sample.thread _ 3).call = .executeTrade Sample.alice ⟨Sample.quoteId.text⟩ " key " from
      by decide +kernel) (by decide)
    (show (Sample.thread _ 2).result? =
      some (.ok (.trade ⟨toTradeResponse Sample.trade.load, false⟩)) from by decide +kernel)
    (show (Sample.thread _ 3).result? =
      some (.ok (.trade ⟨toTradeResponse Sample.trade.load, true⟩)) from by decide +kernel)

end

end MiniOpenFX
