import MiniOpenFX.Transactional.Solo
import MiniOpenFX.Proof.Requests

/-!
# What the calls commit

Which statements a call can come to (`Serves`), and what its transaction, if it has one, does when
it runs alone (`CommitsAlone`, `Does`). `obligationsOf` adds this to what every call promises, and
`verified_of` verifies the system against it.
-/

namespace MiniOpenFX

open Js Transactional

/-! ## The acts of the services -/

/-- Whether a request stores the split of a symbol in the cache; pairs of currencies are taken from
these entries later. -/
def setsSplit : Ext → Bool
  | .redisSet _ (.breakdown _) _ => true
  | _ => false

section
variable {P : Act sig → Prop} (hext : ∀ x, setsSplit x = false → P (.ext x)) {α β : Type}
include hext

/-- A request that is not to store a split is an act of `P`, as all of these are; the lemmas below
go through the services under the same assumptions on `P`. -/
theorem request_acts (x : Ext) (hx : setsSplit x = false) : (App.request x).Acts P :=
  Prog.acts_request (hext x hx)

omit hext in
/-- Redis is asked what the command asks, and the fallback adds nothing. With this the three
commands of Redis are one case. -/
theorem failSoft_acts {command : App α} {fallback : α} (h : command.Acts P) :
    (RedisService.failSoft command fallback).Acts P := by
  refine (Prog.Acts.attempt h).bind fun r => ?_
  cases r <;> trivial

/-- A request to Binance makes none but outside requests, which `P` allows. -/
theorem binance_request_acts (endpoint symbol : String) (validShape? : Json → Option α) :
    (BinanceClient.request endpoint symbol validShape?).Acts P := by
  unfold BinanceClient.request
  refine (Prog.Acts.attempt (request_acts hext _ (by rfl))).bind fun r => ?_
  split
  · split
    · trivial
    · split
      · trivial
      · split
        · trivial
        · split <;> trivial
  all_goals trivial

omit hext in
/-- A request to Binance is one act, a fetch: retries there are none, and reading the body is part
of the answer. -/
theorem fetch_acts {endpoint symbol : String} (h : P (.ext (.fetch endpoint symbol)))
    (validShape? : Json → Option α) :
      (BinanceClient.request endpoint symbol validShape?).Acts P := by
  unfold BinanceClient.request
  refine (Prog.Acts.attempt (Prog.acts_request h)).bind fun r => ?_
  split
  · split
    · trivial
    · split
      · trivial
      · split
        · trivial
        · split <;> trivial
  all_goals trivial

omit hext in
/-- Renaming errors adds no act. -/
theorem mapBinanceErrors_acts {x : App α} (hx : x.Acts P) :
    (PricingService.mapBinanceErrors x).Acts P := by
  unfold PricingService.mapBinanceErrors
  refine hx.attempt.bind fun r => ?_
  split <;> trivial

/-- `getPrice` reads the cache, asks Binance, and stores a price. -/
theorem getPrice_acts (symbol : String) : (PricingService.getPrice symbol).Acts P := by
  unfold PricingService.getPrice
  refine (failSoft_acts (request_acts hext _ (by rfl))).bind fun cached => ?_
  split
  · trivial
  · refine (mapBinanceErrors_acts ?_).bind fun price => ?_
    · refine (binance_request_acts hext _ _ _).bind fun ticker => ?_
      exact (request_acts hext _ (by rfl)).bind fun now => trivial
    · refine (request_acts hext _ (by rfl)).bind fun ttlMs => ?_
      exact (failSoft_acts (request_acts hext _ (by rfl))).bind fun _ => trivial

/-- `getSymbolBreakdown` reads the cache, asks Binance, and stores a split; this is the one service
that stores one. -/
theorem getSymbolBreakdown_acts (hset : ∀ x, setsSplit x = true → P (.ext x)) (symbol : String) :
    (PricingService.getSymbolBreakdown symbol).Acts P := by
  unfold PricingService.getSymbolBreakdown
  refine (failSoft_acts (request_acts hext _ (by rfl))).bind fun cached => ?_
  split
  · trivial
  · refine (mapBinanceErrors_acts ?_).bind fun breakdown => ?_
    · refine Prog.Acts.bind ((binance_request_acts hext _ _ _).bind fun infos => ?_) fun _ =>
        trivial
      split <;> trivial
    · exact (failSoft_acts (Prog.acts_request (hset _ (by rfl)))).bind fun _ => trivial

/-- The acts of `Promise.all` are those of its two programs, and perhaps the question which of two
errors came first. -/
theorem promiseAll_acts {x : App α} {y : App β} (hx : x.Acts P) (hy : y.Acts P) :
    (App.promiseAll x y).Acts P := by
  unfold App.promiseAll
  refine hx.attempt.bind fun a => hy.attempt.bind fun b => ?_
  split
  · trivial
  · trivial
  · trivial
  · refine (request_acts hext _ (by rfl)).bind fun first => ?_
    split <;> trivial

variable (hsql : ∀ s, (∀ v, s ≠ .insertQuote v) → P (.sql s))
include hsql

omit hext in
/-- A statement that inserts no quote is an act of `P`. -/
theorem query_acts {s : Stmt} (hs : ∀ v, s ≠ .insertQuote v) : (App.query s).Acts P :=
  Prog.acts_query (hsql s hs)

omit hext hsql in
/-- A loop does what its body does, by induction on the list. -/
theorem forM_acts {γ : Type} {xs : List γ} {f : γ → App PUnit} (h : ∀ a, (f a).Acts P) :
    Prog.Acts P (xs.forM f : App PUnit) := by
  induction xs with
  | nil => trivial
  | cons a xs ih => exact (h a).bind fun _ => ih

omit hext in
/-- Locking the rows is inserts of missing balances and locks of single rows. -/
theorem lockBalanceRows_acts (clientId : Uuid) (currencies : List String) :
    (LedgerService.lockBalanceRows clientId currencies).Acts P := by
  refine (forM_acts fun _ => query_acts hsql (by simp)).bind fun _ => Prog.Acts.bind ?_ fun _ => ?_
  · exact forM_acts fun _ => (query_acts hsql (by simp)).bind fun _ => trivial
  · trivial

omit hext in
/-- `debit` updates a balance and inserts a ledger entry. -/
theorem debit_acts (lock : BalanceLock) (params : LedgerMovementParams) :
    (LedgerService.debit lock params).Acts P := by
  refine Prog.Acts.bind (show (App.ofExcept _).Acts P from trivial) fun _ =>
    (query_acts hsql (by simp)).bind fun updated => ?_
  cases updated with
  | none => trivial
  | some _ => exact query_acts hsql (by simp)

omit hext in
/-- `credit` updates a balance and inserts a ledger entry. -/
theorem credit_acts (lock : BalanceLock) (params : LedgerMovementParams) :
    (LedgerService.credit lock params).Acts P :=
  Prog.Acts.bind (show (App.ofExcept _).Acts P from trivial) fun _ =>
    (query_acts hsql (by simp)).bind fun _ => query_acts hsql (by simp)

/-- The body of the trade transaction asks only for an id, the clock and statements, none of which
inserts a quote or ends the transaction. -/
theorem executeWithinTransaction_acts (clientId : Uuid) (quoteId idempotencyKey : String) :
    (TradingService.executeWithinTransaction clientId quoteId idempotencyKey).Acts P := by
  refine (query_acts hsql (by simp)).bind fun row =>
    Prog.Acts.bind (show (App.ofExcept _).Acts P from trivial) fun quote => ?_
  split
  · trivial
  · refine (request_acts hext .dateNow (by rfl)).bind fun now => ?_
    split
    · trivial
    · exact (lockBalanceRows_acts hsql _ _).bind fun lock =>
        (request_acts hext .uuidv4 (by rfl)).bind fun tradeId => (debit_acts hsql _ _).bind fun _ =>
          (credit_acts hsql _ _).bind fun _ => (query_acts hsql (by simp)).bind fun _ =>
            (query_acts hsql (by simp)).bind fun _ => trivial

/-- `loadQuote` reads the cache, reads the quote, and stores it. -/
theorem loadQuote_acts (id : String) : (QuotingService.loadQuote id).Acts P := by
  unfold QuotingService.loadQuote
  refine (failSoft_acts (request_acts hext _ (by rfl))).bind fun cached => ?_
  split
  · exact Prog.Acts.bind (show (App.ofExcept _).Acts P from trivial) fun _ => trivial
  · refine (query_acts hsql (by simp)).bind fun row => ?_
    split
    · trivial
    · refine (request_acts hext _ (by rfl)).bind fun now => ?_
      dsimp only
      split
      · exact (failSoft_acts (request_acts hext _ (by rfl))).bind fun _ => trivial
      · trivial

/-- `getQuoteById` performs the acts of `loadQuote`, and reads the clock. -/
theorem getQuoteById_acts [DecimalJs] (clientId : Uuid) (id : String) :
    (QuotingService.getQuoteById clientId id).Acts P :=
  (loadQuote_acts hext hsql id).bind fun _ =>
    Prog.Acts.bind (show (App.ofExcept _).Acts P from trivial) fun _ =>
      (request_acts hext _ (by rfl)).bind fun _ => trivial

omit hext in
/-- Reading the balances is one statement. -/
theorem getBalances_acts [DecimalJs] (clientId : Uuid) :
    (BalancesService.getBalances clientId).Acts P :=
  (query_acts hsql (by simp)).bind fun _ => trivial

end

/-- `createQuote` prices the quote, inserts it for the client that asks, and stores it in the
cache. -/
theorem createQuote_acts [DecimalJs] {P : Act sig → Prop}
    (hext : ∀ x, setsSplit x = false → P (.ext x)) (hset : ∀ x, setsSplit x = true → P (.ext x))
    {clientId : Uuid} {dto : CreateQuoteDto}
    (hsql : ∀ v : QuoteValues, v.clientId = clientId → P (.sql (.insertQuote v))) :
    (QuotingService.createQuote clientId dto).Acts P := by
  unfold QuotingService.createQuote
  cases toMinorUnits (.text dto.baseAmount) with
  | error e => trivial
  | ok baseAmountMinor =>
    simp only [Prog.bind_eq, Prog.pure_eq, Prog.bind_ok]
    split
    · trivial
    refine (promiseAll_acts hext (getSymbolBreakdown_acts hext hset _) (getPrice_acts hext _)).bind
      fun priced => ?_
    refine Prog.Acts.bind (show (App.ofExcept _).Acts P from trivial) fun amount => ?_
    split
    · trivial
    refine (request_acts hext _ (by rfl)).bind fun now => ?_
    split
    · trivial
    refine (request_acts hext _ (by rfl)).bind fun id => ?_
    refine Prog.Acts.bind (Prog.acts_query (hsql _ rfl)) fun row => ?_
    exact (failSoft_acts (request_acts hext _ (by rfl))).bind fun _ =>
      (request_acts hext _ (by rfl)).bind fun _ => trivial

/-- The acts a call can come to: only some calls have transactions, and a quote is inserted for the
client that creates it. Unlike the obligations this does not depend on the data. -/
def Serves (c : Call) : Act sig → Prop
  | .commit => match c with
    | .seed | .createDeposit .. | .executeTrade .. => True
    | _ => False
  | .sql (.insertQuote v) => match c with
    | .createQuote clientId _ => v.clientId = clientId
    | _ => False
  | _ => True

/-- The acts a call can come to; only the call that makes a quote stores how a symbol splits. It is
`Serves` with one act more told apart. -/
def ServesSplit (c : Call) : Act sig → Prop
  | .ext x => setsSplit x = true → ∃ clientId dto, c = .createQuote clientId dto
  | a => Serves c a

/-- Any call may make a request that does not store a split. -/
theorem servesSplit_ext {c : Call} (x : Ext) (hx : setsSplit x = false) :
    ServesSplit c (.ext x) := fun h => by rw [hx] at h; cases h

/-- Any call may run a statement that inserts no quote. -/
theorem servesSplit_sql {c : Call} (s : Stmt) (hs : ∀ v, s ≠ .insertQuote v) :
    ServesSplit c (.sql s) := by
  cases s with
  | insertQuote v => exact absurd rfl (hs v)
  | _ => trivial

variable [DecimalJs]

/-- The seed run is one transaction. -/
theorem seed_main_eq : Seed.main = Prog.transaction seedBody := rfl

section
variable {P : Act sig → Prop} (hext : ∀ x, setsSplit x = false → P (.ext x))
  (hsql : ∀ s, (∀ v, s ≠ .insertQuote v) → P (.sql s))
include hsql

omit [DecimalJs] in
/-- A deposit's transaction asks for nothing that its body of statements does not. -/
theorem depositBody_acts (clientId : Uuid) (currency : String) (amountMinor : Int)
    (depositId : Uuid) : (depositBody clientId currency amountMinor depositId).Acts P :=
  (lockBalanceRows_acts hsql _ _).bind fun _ => credit_acts hsql _ _

include hext

/-- The seed run's transaction consists of statements and of requests for ids. -/
theorem seedBody_acts : seedBody.Acts P := by
  unfold seedBody
  refine (request_acts hext _ (by rfl)).bind fun id =>
    (query_acts hsql (by simp)).bind fun inserted => ?_
  cases inserted with
  | none => trivial
  | some client =>
    refine Prog.Acts.bind (forM_acts fun fund => ?_) fun _ => trivial
    exact Prog.Acts.bind (show (App.ofExcept _).Acts P from trivial) fun amountMinor =>
      (query_acts hsql (by simp)).bind fun _ => query_acts hsql (by simp)

end

/-- A call's acts are those it can come to. The services are gone through one by one, under
assumptions that are the same for all but the insertion of a quote. -/
theorem program_acts_split (c : Call) : (program c).Acts (ServesSplit c) := by
  have hresponse : ∀ {α : Type} {x : App α} {f : α → Response}, x.Acts (ServesSplit c) →
      (x.bind fun a => .done (.ok (f a))).Acts (ServesSplit c) := fun hx => hx.bind fun _ => trivial
  cases c with
  | seed =>
    exact hresponse (Prog.acts_transaction trivial trivial trivial
      (seedBody_acts servesSplit_ext servesSplit_sql))
  | getBalances clientId => exact hresponse (getBalances_acts servesSplit_sql clientId)
  | createDeposit clientId dto =>
    refine hresponse ?_
    unfold BalancesService.createDeposit
    cases toMinorUnits (.text dto.amount) with
    | error e => trivial
    | ok amountMinor =>
      simp only [Prog.bind_eq, Prog.pure_eq, Prog.bind_ok]
      split
      · trivial
      · refine (request_acts servesSplit_ext _ (by rfl)).bind fun depositId => ?_
        refine (Prog.acts_transaction trivial trivial trivial
          (depositBody_acts servesSplit_sql clientId dto.currency amountMinor depositId)).bind ?_
        exact fun _ => getBalances_acts servesSplit_sql clientId
  | getPrice symbol => exact hresponse (getPrice_acts servesSplit_ext symbol)
  | createQuote clientId dto => exact hresponse (createQuote_acts servesSplit_ext
    (fun _ _ _ => ⟨_, _, rfl⟩) fun _ h => h)
  | getQuoteById clientId id =>
    exact hresponse (getQuoteById_acts servesSplit_ext servesSplit_sql clientId id)
  | executeTrade clientId dto key =>
    refine hresponse ((query_acts servesSplit_sql (by simp)).bind fun found => ?_)
    cases found with
    | some existing => trivial
    | none =>
      refine (Prog.acts_transaction trivial trivial trivial (executeWithinTransaction_acts
        servesSplit_ext servesSplit_sql clientId dto.quoteId _)).attempt.bind fun row => ?_
      cases row with
      | ok row => exact (failSoft_acts
          (request_acts servesSplit_ext _ (by rfl))).bind fun _ => trivial
      | error e =>
        refine Prog.Acts.bind trivial fun raced => ?_
        cases raced with
        | some raced => trivial
        | none => trivial

/-- The acts of a call are those that it may perform. By cases on the call, each service with its
own lemma above. -/
theorem program_acts (c : Call) : (program c).Acts (Serves c) := by
  refine (program_acts_split c).mono fun a ha => ?_
  cases a with
  | ext x => trivial
  | begin | commit | rollback | sql => exact ha

/-! ## Commits -/

/-- The transaction that the call commits, with the history it has then, has run alone from `db` to
`db'`: it saw what the history says and succeeded. This is what serializability comes to for one
commit, and the strongest statement about commits that is used. -/
inductive CommitsAlone : Call → History → Database → Database → Prop where
  | seed {ℓ db db' e e' client}
      (alone : Seed.main.Solo (B := backend) ⟨db, e, none⟩ ℓ (.done (.ok client)) ⟨db', e', none⟩) :
      CommitsAlone .seed ℓ db db'
  | deposit {clientId dto amountMinor depositId ℓ db db' e e'}
      (amount : toMinorUnits (.text dto.amount) = .ok amountMinor) (positive : 0 < amountMinor)
      (alone : (Prog.transaction (depositBody clientId dto.currency amountMinor depositId)).Solo
        (B := backend) ⟨db, e, none⟩ ℓ (.done (.ok ())) ⟨db', e', none⟩) :
      CommitsAlone (.createDeposit clientId dto) (.ext .uuidv4 (.ok depositId) :: ℓ) db db'
  | trade {clientId dto rawKey ℓ db db' e e' row}
      (alone : (Prog.transaction (TradingService.executeWithinTransaction clientId dto.quoteId
        (trim rawKey))).Solo (B := backend) ⟨db, e, none⟩ ℓ (.done (.ok row)) ⟨db', e', none⟩) :
      CommitsAlone (.executeTrade clientId dto rawKey)
        (.sql (.selectTradeByKey clientId (trim rawKey)) (.ok none) :: ℓ) db db'

/-- What a call promises, with the statements it can come to: outside transactions, only those that
the call makes. -/
def obligationsFor (c : Call) : Spec backend where
  __ := obligations
  outside _ _ s := Alone s ∧ Serves c (.sql s)

/-- What a call promises, with what it commits: the transaction amounts to one that runs alone on
the data committed at that moment. -/
def obligationsOf (c : Call) : Spec backend :=
  (obligationsFor c).also fun p ℓ _ ws _ =>
    CommitsAlone c (ℓ ++ [.commit (.ok ())]) p.data (p.data.after ws)

/-- What a call was verified to promise it promises with the statements it can come to, too. -/
theorem implies_obligationsFor (c : Call) :
    Spec.Implies (Serves c) obligations (obligationsFor c) :=
  ⟨fun _ h => h, fun _ h => h, fun hs h => ⟨h, hs⟩, fun _ h => h⟩

/-- Calls that keep what `obligationsOf` has them promise leave the data and the surroundings as
the rely expects. -/
theorem guarantees_of (c : Call) : Guarantees rely (obligationsOf c) where
  outside {_ ℓ _ _ _ _} hp h hx := guarantees.outside (ℓ := ℓ) hp h.1 hx
  commit {p ℓ st ws L} hp h := guarantees.commit hp (show obligations.commit p ℓ st ws L from h.1)
  request := guarantees.request

omit [DecimalJs] in
/-- A choice for the acts that leave nothing to choose, in solo runs. -/
def anyChoice : Choice :=
  ⟨⟨"00000000-0000-0000-0000-000000000000", by decide, by decide⟩, .failed, false, .elapse 0⟩

section
variable {R : Rely backend} {α β : Type} {c : Call} {p : Seen backend} {ℓ : History}

/-- A program that commits nothing meets the obligations with commits as it meets those without:
the two differ at commits only. -/
theorem wp_of_uncommitted {x : App α} {Q : Mode backend → History → Except JsError α → Prop}
    {m : Mode backend} (hx : x.Acts (fun a => a ≠ .commit))
    (h : x.Wp isolation R (obligationsFor c) Q m ℓ) : x.Wp isolation R (obligationsOf c) Q m ℓ :=
  Prog.Wp.implies ((obligationsFor c).implies_also _ fun h => h rfl) hx h

/-- A transaction that commits what `CommitsAlone` says meets the obligations with commits. Its
body has been verified on the data committed when it runs; the solo run is made of that. -/
theorem wp_of_transaction {body : App α} {Q Q' : Mode backend → History → Except JsError α → Prop}
    (hbody : body.Acts Act.Inner) (hQ : ∀ m ℓ r, Q m ℓ r → Q' m ℓ r)
    (hC : ∀ ℓ₁ a (w w' : Surroundings) db db',
      (Prog.transaction body).Solo (B := backend) ⟨db, w, none⟩ ℓ₁ (.done (.ok a)) ⟨db', w', none⟩ →
        CommitsAlone c (ℓ ++ ℓ₁) db db')
    (h : (Prog.transaction body).Wp isolation R (obligationsFor c) Q (.outside p) ℓ) :
    (Prog.transaction body).Wp isolation R (obligationsOf c) Q' (.outside p) ℓ := by
  refine (Prog.wp_transaction_also hbody anyChoice h ?_).mono hQ
  intro q st ws L ℓ₁ a e alone
  rw [List.append_assoc]
  exact hC _ _ _ _ _ _ alone

/-- What follows such a transaction and commits nothing itself meets them, too. -/
theorem then_of_uncommitted {f : α → App β} {Q : Mode backend → History → Except JsError β → Prop}
    {m : Mode backend} {r : Except JsError α} (hf : ∀ a, (f a).Acts (fun a => a ≠ .commit))
    (h : Prog.Then isolation R (obligationsFor c) Q f m ℓ r) :
    Prog.Then isolation R (obligationsOf c) Q f m ℓ r :=
  h.implies ((obligationsFor c).implies_also _ fun h => h rfl) hf

end

/-- **What every call commits.** Each call meets the obligations with commits: the calls without a
transaction because they commit nothing, the others by the solo run of their transaction. -/
theorem program_wp_of (c : Call) {p : Seen backend} (hp : rely.inv p.data)
    (he : rely.envInv p.env) :
    (program c).Wp isolation rely (obligationsOf c) (Ends (answers c)) (.outside p) [] := by
  have h := Prog.Wp.implies (implies_obligationsFor c) (program_acts c) (program_wp c hp he)
  have hacts := program_acts c
  have quiet : ∀ {β : Type} {x : App β}, x.Acts (Serves c) → ¬ Serves c .commit →
      x.Acts (fun a => a ≠ .commit) := fun hx hc => hx.mono fun a ha => fun h => hc (h ▸ ha)
  cases c with
  | getBalances | getPrice | createQuote | getQuoteById =>
      exact wp_of_uncommitted (quiet hacts id) h
  | seed =>
    rw [program, seed_main_eq, Prog.bind_eq, Prog.wp_bind] at h ⊢
    exact wp_of_transaction (seedBody_acts (fun _ _ => trivial) fun _ _ => trivial)
      (fun _ _ _ h => then_of_uncommitted (fun _ => trivial) h)
      (fun _ _ _ _ _ _ alone => .seed alone) h
  | createDeposit clientId dto =>
    revert h
    rw [program, Prog.bind_eq, BalancesService.createDeposit]
    cases hamount : toMinorUnits (.text dto.amount) with
    | error e => exact id
    | ok amountMinor =>
      simp only [Prog.bind_eq, Prog.pure_eq, Prog.bind_ok]
      split
      · exact id
      next hpos =>
      intro h
      refine fun q hq => ⟨(h q hq).1, fun χ => ?_, (h q hq).2.2⟩
      have h := (h q hq).2.1 χ
      have hpos : 0 < amountMinor := Int.not_le.mp hpos
      change Prog.Wp _ _ _ _ _ _ (Prog.bind (Prog.bind (Prog.transaction
        (depositBody clientId dto.currency amountMinor χ.uuid)) fun _ => _) _) at h ⊢
      rw [Prog.bind_assoc, Prog.wp_bind] at h ⊢
      refine wp_of_transaction (depositBody_acts (fun _ _ => trivial) _ _ _ _) (fun _ _ _ h => ?_)
        (fun _ _ _ _ _ _ alone => .deposit hamount hpos alone) h
      exact then_of_uncommitted (fun _ => (getBalances_acts (fun _ _ => by simp) clientId).bind
        fun _ => trivial) h
  | executeTrade clientId dto key =>
    rw [program, Prog.bind_eq, TradingService.executeTrade] at h ⊢
    refine fun q hq => ⟨(h q hq).1, fun χ found ws hx => ?_, fun e he => (h q hq).2.2 e he⟩
    have h := (h q hq).2.1 χ found ws hx
    cases found with
    | some existing =>
      exact wp_of_uncommitted (Prog.Acts.bind (show (App.ofExcept _).Acts _ from trivial)
        fun _ => trivial) h
    | none =>
      change Prog.Wp _ _ _ _ _ _ (Prog.bind (Prog.bind (Prog.attempt (Prog.transaction
        (TradingService.executeWithinTransaction clientId dto.quoteId _))) _) _) at h ⊢
      rw [Prog.bind_assoc, Prog.wp_bind, Prog.wp_attempt] at h ⊢
      refine wp_of_transaction (executeWithinTransaction_acts (fun _ _ => trivial)
        (fun _ _ => trivial)
        _ _ _) (fun m ℓ r h => ?_) (fun _ _ _ _ _ _ alone => .trade alone) h
      refine then_of_uncommitted (fun row => Prog.Acts.bind ?_ fun _ => trivial) h
      cases row with
      | ok row => exact (failSoft_acts (request_acts (fun _ _ => by simp) _
        (by rfl))).bind fun _ => trivial
      | error e =>
        refine Prog.Acts.bind trivial fun raced => ?_
        cases raced with
        | some raced => trivial
        | none => trivial

/-- The system is verified against what every call commits, so that the soundness theorem gives,
for each commit of each run, the solo run it amounts to. -/
theorem verified_of : Verified isolation rely program (fun _ => obligationsOf) fun _ =>
    answers where
  guarantees _ := guarantees_of
  fails _ := trivial
  tick χ e _ := tick_now χ e
  crash _ _ _ _ := .inl rfl
  program _ c _ hp he := program_wp_of c hp he

/-! ## What a commit does -/

/-- The effects a call can have by committing: a seed run's, a deposit's, or the trade of the quote
that the call names under the key that it gives. New quotes are not committed by transactions. -/
def Effect.CommittedBy (c : Call) : Effect → Prop
  | .nothing | .seed .. => c = .seed
  | .quote _ => False
  | .deposit clientId currency amountMinor _ => ∃ dto, c = .createDeposit clientId dto ∧
      dto.currency = currency ∧ toMinorUnits (.text dto.amount) = .ok amountMinor
  | .trade q _ key _ => ∃ dto rawKey, c = .executeTrade q.clientId dto rawKey ∧
      Uuid.ofText? dto.quoteId = some q.id ∧ trim rawKey = key

/-- A transaction that has run alone has done what its body was verified to do: a postcondition of
its writes holds of the writes of any solo run. -/
theorem solo_within {α : Type} {body : App α} {P : Database → α → List Write → Prop}
    (hbody : ∀ (q : Seen backend) ℓ, body.Wp isolation Prog.relySolo obligations
      (Within Prog.relySolo q q.env.now fun a ws _ => P q.data a ws) (.inside q q.env.now [] []) ℓ)
    (heffect : ∀ db a ws, P db a ws →
      ∃ e : Effect, e.Allowed db ∧ db.after ws = e.apply db)
    {db db' : Database} {e e' : Surroundings} {ℓ : History} {a : α}
    (alone : (Prog.transaction body).Solo (B := backend) ⟨db, e, none⟩ ℓ (.done (.ok a))
      ⟨db', e', none⟩) : ∃ ws, db' = db.after ws ∧ P db a ws := by
  have h : (Prog.transaction body).Wp isolation Prog.relySolo obligations
      (fun m _ r => ∀ a, r = .ok a → ∃ e ws, m = .outside ⟨db.after ws, e⟩ ∧ P db a ws)
      (.outside ⟨db, e⟩) [] := by
    refine wp_transaction_within (P := fun q a ws => P q.data a ws) (fun q _ ℓ => hbody q ℓ)
      (fun q => heffect q.data) ?_ fun _ _ _ _ _ h => by cases h
    rintro q a ws e ℓ later hP - _ ⟨⟩
    obtain rfl : db = q.data := later.data
    exact ⟨e, ws, rfl, hP⟩
  obtain ⟨m, hm, hQ⟩ := h.solo rfl alone
  obtain ⟨e₁, ws, rfl, hP⟩ := Prog.wp_done.mp hQ a rfl
  cases hm
  exact ⟨ws, rfl, hP⟩

/-- A commit does to the tables what one of the effects does, of a kind that the call can have.
Everything about committed data is proved from this by cases on the effect. -/
theorem CommitsAlone.effect {c : Call} {ℓ : History} {db db' : Database}
    (h : CommitsAlone c ℓ db db') :
    ∃ e : Effect, e.Allowed db ∧ db' = e.apply db ∧ e.CommittedBy c := by
  cases h with
  | seed alone =>
    obtain ⟨ws, rfl, e, he, hws, hseeds⟩ := solo_within
      (P := fun db _ ws => ∃ e : Effect, e.Allowed db ∧ db.after ws = e.apply db ∧ e.Seeds)
      (fun q ℓ => seedBody_wp (p := q) (Prog.relySolo.env_refl _))
      (fun _ _ _ ⟨e, he, hws, _⟩ => ⟨e, he, hws⟩) alone
    obtain rfl | ⟨client, funds, rfl⟩ := hseeds
    · exact ⟨_, he, hws, rfl⟩
    · exact ⟨_, he, hws, rfl⟩
  | @deposit clientId dto amountMinor depositId _ _ _ _ _ amount positive alone =>
    obtain ⟨ws, rfl, hws⟩ := solo_within
      (P := fun db _ ws => db.after ws =
        (Effect.deposit clientId dto.currency amountMinor depositId).apply db)
      (fun q ℓ => depositBody_wp (p := q) (Prog.relySolo.env_refl _))
      (fun _ _ _ hws => ⟨.deposit clientId dto.currency amountMinor depositId, positive, hws⟩) alone
    exact ⟨.deposit clientId dto.currency amountMinor depositId, positive, hws, dto, rfl, rfl,
      amount⟩
  | @trade clientId dto rawKey _ _ _ _ _ _ alone =>
    obtain ⟨ws, rfl, q, tradeId, st, he, hws, spelled, rfl⟩ := solo_within
      (P := fun db _ ws => ∃ q tradeId st, (Effect.trade q tradeId (trim rawKey) st).Allowed db ∧
        db.after ws = (Effect.trade q tradeId (trim rawKey) st).apply db ∧
        Uuid.ofText? dto.quoteId = some q.id ∧ q.clientId = clientId)
      (fun q ℓ => within_mono (executeWithinTransaction_wp (p := q) (Prog.relySolo.env_refl _))
        fun _ _ _ ⟨q, tradeId, he, hws, _, spelled, owned⟩ =>
          ⟨q, tradeId, _, he, hws, spelled, owned⟩)
      (fun _ _ _ ⟨q, tradeId, st, he, hws, _⟩ => ⟨_, he, hws⟩) alone
    exact ⟨_, he, hws, dto, rawKey, rfl, spelled, rfl⟩

omit [DecimalJs] in
/-- Only a new quote is written outside transactions: any other statement that a call runs there
leaves the data as they are. -/
theorem Alone.reads {s : Stmt} {t : Timestamp} {db : Database} {r : StmtRes s} {ws : List Write}
    (hs : Alone s) (hv : ∀ v, s ≠ .insertQuote v) (hx : exec t db s = .ok (r, ws)) : ws = [] := by
  cases s with
  | insertQuote v => exact absurd rfl (hv v)
  | selectQuote id =>
    obtain ⟨-, -, -, rfl⟩ := exec_selectQuote.mp hx
    rfl
  | selectTradeByKey c key =>
    obtain ⟨-, rfl⟩ := exec_selectTradeByKey.mp hx
    rfl
  | selectBalances c =>
    obtain ⟨-, rfl⟩ := exec_selectBalances.mp hx
    rfl
  | _ => exact hs.elim

omit [DecimalJs] in
/-- A quote is inserted by the call that makes it. -/
theorem Serves.insertQuote {c : Call} {v : QuoteValues} (h : Serves c (.sql (.insertQuote v))) :
    ∃ dto, c = .createQuote v.clientId dto := by
  cases c with
  | createQuote clientId dto => exact ⟨dto, congrArg (Call.createQuote · dto) (Eq.symm h)⟩
  | _ => exact h.elim

/-! ## Trades -/

/-- The call is to execute the quote, in whatever spelling of its id. -/
def Call.Executes (quoteId : Uuid) (c : Call) : Prop :=
  ∃ clientId dto key, c = .executeTrade clientId dto key ∧ Uuid.ofText? dto.quoteId = some quoteId

/-- The call is a client's trade under the key, once the spaces around the header are gone. -/
def Call.Uses (clientId : Uuid) (key : String) (c : Call) : Prop :=
  ∃ dto rawKey, c = .executeTrade clientId dto rawKey ∧ trim rawKey = key

section
variable {c : Call} {ℓ : History} {db db' : Database}

/-- What a call that uses a key commits is a trade under this key, of the quote that the call
names, which was its client's. -/
theorem CommitsAlone.trade_of_uses {clientId : Uuid} {key : String} (h : CommitsAlone c ℓ db db')
    (hc : c.Uses clientId key) : ∃ q tradeId createdAt,
      (Effect.trade q tradeId key createdAt).Allowed db ∧
        db' = (Effect.trade q tradeId key createdAt).apply db ∧ q.clientId = clientId ∧
        c.Executes q.id := by
  obtain ⟨dto, rawKey, rfl, rfl⟩ := hc
  obtain ⟨e, he, rfl, hby⟩ := h.effect
  cases e with
  | nothing | seed | quote => cases hby
  | deposit =>
    obtain ⟨_, hcall, -⟩ := hby
    cases hcall
  | trade q tradeId key createdAt =>
    obtain ⟨dto', rawKey', hcall, spelled, rfl⟩ := hby
    cases hcall
    exact ⟨q, tradeId, createdAt, he, rfl, rfl, q.clientId, dto, rawKey, rfl, spelled⟩

end

/-! ## Steps -/

section
variable {s s' : Sys} {l : Label backend Call}

/-- A step changes the tables by what it commits, or by the quote of a call that makes one: a case
for each kind of label, of which all but two leave the tables alone. -/
theorem tables_of_step
    (hs : Isolated isolation rely (fun _ => obligationsOf) (fun _ => answers) s)
    (hst : s.step program l = some s') :
    s.committed l = [] ∧ (s'.data = s.data ∨ ∃ t ∈ s.threads,
      ∃ (row : QuoteRow Timestamp) (dto : _),
      t.call = .createQuote row.clientId dto ∧ (Effect.quote row).Allowed s.data ∧
        s'.data = (Effect.quote row).apply s.data) ∨
    ∃ c ℓ, s.committed l = [(c, ℓ)] ∧ CommitsAlone c ℓ s.data s'.data := by
  cases State.changes hs hst with
  | same data committed => exact .inl ⟨committed, .inl data⟩
  | commit thread promise data committed =>
    rw [data]
    exact .inr ⟨_, _, committed, promise.2⟩
  | @outside i t st χ r ws thread promise hx data committed =>
    refine .inl ⟨committed, ?_⟩
    have hx : exec (backend.stamp s.env) s.data st = .ok (r, ws) := hx
    by_cases hv : ∃ v, st = .insertQuote v
    · obtain ⟨v, rfl⟩ := hv
      obtain ⟨halone, hserves⟩ := promise
      obtain ⟨dto, hcall⟩ := hserves.insertQuote
      obtain ⟨-, expiresAt, -, -, -, hfresh, -, -, rfl⟩ := exec_insertQuote.mp hx
      exact .inr ⟨t, List.mem_of_getElem? thread, v.row expiresAt _, dto, hcall, ⟨hfresh, halone⟩,
        data⟩
    · obtain rfl := promise.1.reads (fun v h => hv ⟨v, h⟩) hx
      exact .inl data

/-- What a call does that makes no quote and commits nothing leaves the tables alone, whatever its
statements are. -/
theorem data_of_run {i : Nat} {χ : Choice} {t : Thread backend Call Response}
    (hs : Isolated isolation rely (fun _ => obligationsOf) (fun _ => answers) s)
    (hst : s.step program (.run i χ) = some s') (hi : s.threads[i]? = some t)
    (hcall : ∀ clientId dto, t.call ≠ .createQuote clientId dto)
    (hc : s.committed (.run i χ) = []) : s'.data = s.data := by
  obtain ⟨t', p, ev, w, hi', hact, rfl⟩ := State.step_run hst
  cases hi.symm.trans hi'
  change w.data = s.data
  cases hprog : t.prog with
  | done => rw [hprog] at hact; cases hact
  | begin | rollback | ext => rw [hprog] at hact; cases hact; rfl
  | commit k =>
    obtain ⟨c, prog, ℓ, tx⟩ := t
    cases hprog
    simp only [State.committed, hi] at hc
    cases hc
  | sql st k =>
    rw [hprog] at hact
    simp only [Prog.step] at hact
    split at hact
    · next r ws hx =>
      cases hact
      obtain ⟨tx, htx, -⟩ | ⟨htx, halone, hserves⟩ := hs.sql hi hprog
      · simp [World.record, State.world, htx]
      · have hx : exec (s.world t).stamp (s.world t).view st = .ok (r, ws) := hx
        obtain rfl := halone.reads (fun v hv => by
          subst hv
          obtain ⟨dto, h⟩ := hserves.insertQuote
          exact hcall _ _ h) hx
        simp only [World.record, State.world, htx]
        rfl
    · cases hact
      rfl

end

end MiniOpenFX
