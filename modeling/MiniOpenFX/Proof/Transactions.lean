import MiniOpenFX.Proof.Obligations

/-!
# The transactions

Each part of a transaction, verified by `Prog.Wp` on the data committed when it runs:
`lockBalanceRows` makes sure of the balance rows and locks them all, `debit` and `credit` post an
entry, and `executeWithinTransaction` ends with the writes of one trade. `Within` is the
postcondition they share.
-/

namespace MiniOpenFX

open Js Transactional

/-! ## Locking balances -/

/-- The currencies of a quote are listed once each, even where a symbol has the same on both sides.
-/
theorem currencies_nodup {τ : Type} (q : QuoteRow τ) : q.currencies.Nodup := by
  unfold QuoteRow.currencies LedgerService.uniqueCurrencies
  by_cases h : q.creditCurrency = q.debitCurrency
  · simp [List.eraseDups_cons, h]
  · simp [List.eraseDups_cons, h, Ne.symm h]

/-- The balances that a transaction has locked at its opening are of distinct currencies. -/
theorem Opening.nodup {db : Database} {c : Uuid} {xs : List String} {L₀ : List Resource}
    (h : Opening db c xs L₀) : xs.Nodup := by
  cases h with
  | deposit => exact List.nodup_singleton _
  | trade => exact currencies_nodup _

/-- The balances that are missing for a list of currencies, found one after the other: the loop of
`lockBalanceRows` goes through them in this order. -/
theorem missing_concat (db : Database) (c : Uuid) (xs : List String) (cur : String) :
    missing db c (xs ++ [cur]) =
      missing db c xs ++ if (db.balance? c cur).isSome then [] else [.balance c cur] := by
  unfold missing
  cases h : db.balance? c cur <;> simp [h]

/-- A debit locks at most the balance it takes from. -/
theorem mem_needs_debitBalance {db : Database} {c : Uuid} {cur : String} {n : Int} {r : Resource}
    (h : r ∈ needs (.debitBalance c cur n) db) : r = .balance c cur := by
  simp only [needs] at h
  split at h
  · cases h
  · split at h
    · cases h
    · exact List.mem_singleton.mp h

/-- A debit that the balance covers locks it; otherwise it updates no row and locks none. The row
is locked already, so a debit never waits. -/
theorem needs_debitBalance {db : Database} {c : Uuid} {cur : String} {n : Int} {b : BalanceRow}
    (hb : db.balance? c cur = some b) (hn : n ≤ b.availableMinor) :
    needs (.debitBalance c cur n) db = [.balance c cur] := by
  simp [needs, hb, Int.not_lt.mpr hn]

/-- Both currencies of a quote are among those that are locked for it. -/
theorem mem_currencies {τ : Type} (q : QuoteRow τ) :
    q.debitCurrency ∈ q.currencies ∧ q.creditCurrency ∈ q.currencies := by
  simp [QuoteRow.currencies, LedgerService.uniqueCurrencies, List.mem_eraseDups]

/-- A transaction that has locked all the balances of a quote may move them. -/
theorem assertCovers_ok {c : Uuid} {cur : String} {xs : List String} (h : cur ∈ xs) :
    LedgerService.assertCovers ⟨c, xs⟩ c cur = .ok () := by
  simp [LedgerService.assertCovers, h]

theorem Database.after_append (db : Database) (ws w : List Write) :
    db.after (ws ++ w) = (db.after ws).after w :=
  Backend.applyAll_append (B := backend) ws w db

variable [DecimalJs] {R : Rely backend} {α β : Type}

/-! ## Parts of transactions -/

/-- Where a part of a transaction on the committed data of `p` ends: with a value and `P` of the
value, the writes and the locks so far, or with an error, after which it can only roll back. -/
def Within (R : Rely backend) (p : Seen backend) (st : Timestamp)
    (P : α → List Write → List Resource → Prop) (m : Mode backend) (_ : History) :
    Except JsError α → Prop
  | .ok a => ∃ e ws L, m = .inside ⟨p.data, e⟩ st ws L ∧ R.env p.env e ∧ P a ws L
  | .error _ => ∃ e, R.env p.env e ∧
      (m = .doomed ⟨p.data, e⟩ ∨ ∃ ws L, m = .inside ⟨p.data, e⟩ st ws L)

variable {p : Seen backend} {st : Timestamp} {ws : List Write} {L : List Resource} {ℓ : History}
  {e : Surroundings}

/-- Sequencing inside a transaction: what the first part has written and locked is what the second
part starts with, while the surroundings may have moved on. -/
theorem within_bind {x : App α} {f : α → App β} {P : α → List Write → List Resource → Prop}
    {P' : β → List Write → List Resource → Prop} {m : Mode backend}
    (hx : x.Wp isolation R obligations (Within R p st P) m ℓ)
    (hf : ∀ a e ws L ℓ, R.env p.env e → P a ws L →
      (f a).Wp isolation R obligations (Within R p st P') (.inside ⟨p.data, e⟩ st ws L) ℓ) :
    (x.bind f).Wp isolation R obligations (Within R p st P') m ℓ := by
  rw [Prog.wp_bind]
  refine hx.mono fun m ℓ r h => ?_
  cases r with
  | ok a =>
    obtain ⟨e, ws, L, rfl, he, hP⟩ := h
    exact hf a e ws L ℓ he hP
  | error x => exact h

/-- A postcondition of the writes and locks can be weakened. -/
theorem within_mono {x : App α} {P P' : α → List Write → List Resource → Prop} {m : Mode backend}
    (hx : x.Wp isolation R obligations (Within R p st P) m ℓ)
    (h : ∀ a ws L, P a ws L → P' a ws L) : x.Wp isolation R obligations (Within R p st P') m ℓ := by
  refine hx.mono fun m ℓ r hr => ?_
  cases r with
  | error e => exact hr
  | ok a =>
    obtain ⟨e, ws, L, hm, he, hP⟩ := hr
    exact ⟨e, ws, L, hm, he, h a ws L hP⟩

/-- The end of a part. -/
theorem within_pure {a : α} {P : α → List Write → List Resource → Prop} (he : R.env p.env e)
    (h : P a ws L) : (Prog.done (.ok a) : App α).Wp isolation R obligations (Within R p st P)
      (.inside ⟨p.data, e⟩ st ws L) ℓ :=
  Prog.wp_done.mpr ⟨e, ws, L, rfl, he, h⟩

/-- A transaction may fail at any time; it has no effect then. -/
theorem within_fail {x : JsError} {P : α → List Write → List Resource → Prop}
    (he : R.env p.env e) : (Prog.fail x : App α).Wp isolation R obligations (Within R p st P)
      (.inside ⟨p.data, e⟩ st ws L) ℓ :=
  Prog.wp_done.mpr ⟨e, he, .inr ⟨ws, L, rfl⟩⟩

/-- A statement and what follows it. After an answer no lock protects there is only an error, so
the rest of the transaction need not be verified for it. -/
theorem within_query {s : Stmt} {f : StmtRes s → App β} {P : β → List Write → List Resource → Prop}
    (hrun : Running p.data ws L s) (he : R.env p.env e)
    (hok : ∀ r w, exec st (p.data.after ws) s = .ok (r, w) → Durable s r →
      (f r).Wp isolation R obligations (Within R p st P)
        (.inside ⟨p.data, e⟩ st (ws ++ w) (L ++ needs s (p.data.after ws)))
        (ℓ ++ [.sql s (.ok r)]))
    (hloose : ∀ r w, exec st (p.data.after ws) s = .ok (r, w) → ¬ Durable s r →
      ∃ x, f r = .done (.error x)) :
    ((App.query s).bind f).Wp isolation R obligations (Within R p st P)
      (.inside ⟨p.data, e⟩ st ws L) ℓ := by
  rw [App.query, Prog.wp_bind]
  refine Prog.wp_query_inside hrun (fun _ r w hx hr => hok r w hx hr) (fun _ r w hx hr => ?_)
    fun x _ => ⟨e, he, .inl rfl⟩
  obtain ⟨x, hx⟩ := hloose r w hx hr
  simp only [Prog.Then, hx]
  exact Prog.wp_done.mpr ⟨e, he, .inl rfl⟩

/-- A reading of the clock, or a fresh id, and what follows it. -/
theorem within_request {x : Ext} {f : ExtRes x → App β} {P : β → List Write → List Resource → Prop}
    {a : Choice → Surroundings → ExtRes x} (hplain : ∀ ℓ, Requests p.data ℓ x)
    (hanswer : ∀ χ e, answer x χ e = (.ok (a χ e), e)) (he : R.env p.env e)
    (hok : ∀ χ e', R.env p.env e' → (f (a χ e')).Wp isolation R obligations (Within R p st P)
      (.inside ⟨p.data, e'⟩ st ws L) (ℓ ++ [.ext x (.ok (a χ e'))])) :
    ((App.request x).bind f).Wp isolation R obligations (Within R p st P)
      (.inside ⟨p.data, e⟩ st ws L) ℓ := by
  rw [App.request, Prog.wp_bind]
  refine Prog.wp_request_inside (fun e' _ => hplain ℓ) (fun e' he' χ => ?_) fun _ e' he' =>
    ⟨e', R.env_trans he he'.env, .inr ⟨ws, L, rfl⟩⟩
  change Prog.Then _ _ _ _ _ (.inside ⟨p.data, (answer x χ e').2⟩ st ws L)
    (ℓ ++ [.ext x (answer x χ e').1]) (answer x χ e').1
  rw [hanswer]
  exact hok χ e' (R.env_trans he he'.env)

/-- A whole transaction: it commits an effect, or it ends with an error and nothing has changed.
The rule through which every transaction of the services is verified. -/
theorem wp_transaction_within {body : App α} {P : Seen backend → α → List Write → Prop}
    {Q : Mode backend → History → Except JsError α → Prop}
    (hbody : ∀ q, R.Later p q → ∀ ℓ, body.Wp isolation R obligations
      (Within R q q.env.now fun a ws _ => P q a ws) (.inside q q.env.now [] []) ℓ)
    (heffect : ∀ q a ws, P q a ws →
      ∃ e : Effect, e.Allowed q.data ∧ q.data.after ws = e.apply q.data)
    (hcommit : ∀ q a ws e ℓ, R.Later p q → P q a ws → R.EnvLater q.env e →
      Q (.outside ⟨q.data.after ws, e⟩) ℓ (.ok a))
    (hfail : ∀ q ℓ x, R.Later p q → Q (.outside q) ℓ (.error x)) :
    (Prog.transaction body).Wp isolation R obligations Q (.outside p) ℓ := by
  refine Prog.wp_transaction (fun q hq => ?_) fun _ q hq => hfail q _ _ hq
  have henv : ∀ {e e'}, R.env q.env e → R.EnvLater e e' → R.EnvLater q.env e' :=
    fun he he' => ⟨R.env_trans he he'.env, he'.inv⟩
  have hback : ∀ {e}, R.EnvLater q.env e → R.Later p ⟨q.data, e⟩ := fun he =>
    ⟨hq.data, R.env_trans hq.env he.env, hq.inv, he.inv⟩
  refine (hbody q hq _).mono fun m ℓ r h => ?_
  cases r with
  | ok a =>
    obtain ⟨e, ws, L, rfl, he, hP⟩ := h
    refine fun e' he' => ⟨heffect q a ws hP, hcommit q a ws e' _ hq hP (henv he he'),
      fun _ e'' he'' r _ => ?_⟩
    exact hfail ⟨q.data, e''⟩ _ _ (hback ((henv he he').trans he''))
  | error x =>
    obtain ⟨e, he, rfl | ⟨ws, L, rfl⟩⟩ := h <;>
      exact fun e' he' r _ => hfail ⟨q.data, e'⟩ _ _ (hback (henv he he'))

/-! ## Locking balances -/

section
variable {c : Uuid} {xs : List String} {L₀ : List Resource}

/-- The rows are made sure of one by one: `pre` are those done, `post` those to come. The view has
a row for each of `pre`, and those that were missing are locked. -/
theorem ensureBalances_wp (opening : Opening p.data c xs L₀) {pre post : List String}
    (split : xs = pre ++ post) (he : R.env p.env e)
    (view : p.data.after ws = p.data.ensureBalances c pre)
    (locks : L = L₀ ++ missing p.data c pre)
    (client : missing p.data c pre ≠ [] → (p.data.client? c).isSome) :
    Prog.Wp isolation R obligations (Within R p st fun _ ws L =>
      p.data.after ws = p.data.ensureBalances c xs ∧ L = L₀ ++ missing p.data c xs ∧
        (missing p.data c xs ≠ [] → (p.data.client? c).isSome))
      (.inside ⟨p.data, e⟩ st ws L) ℓ
      (post.forM fun currency => App.query (.insertBalanceIfAbsent c currency 0)) := by
  subst locks
  induction post generalizing pre ws ℓ with
  | nil =>
    obtain rfl : xs = pre := by simpa using split
    exact within_pure he ⟨view, rfl, client⟩
  | cons cur post ih =>
    refine within_query (.ensure opening split view client) he (fun r w hx _ => ?_)
      fun _ _ _ hr => (hr trivial).elim
    have hpre : cur ∉ pre := fun hm => by
      have := opening.nodup
      rw [split] at this
      exact (List.nodup_append.mp this).2.2 cur hm cur (.head _) rfl
    have hsome := p.data.isSome_balance?_ensureBalances c pre c cur
    simp only [hpre, and_false, decide_false, Bool.or_false] at hsome
    have hmiss := missing_concat p.data c pre cur
    have split' : xs = pre ++ [cur] ++ post := by simpa using split
    rw [← hsome] at hmiss
    rw [view] at hx ⊢
    obtain ⟨-, ⟨hb, rfl⟩ | ⟨hb, hc, rfl⟩⟩ := exec_insertBalanceIfAbsent.mp hx
    · -- the row was there
      rw [if_pos hb, List.append_nil] at hmiss
      have hneeds : needs (.insertBalanceIfAbsent c cur 0) (p.data.ensureBalances c pre) = [] := by
        simp [needs, hb]
      rw [hneeds, List.append_nil, List.append_nil, ← hmiss]
      refine ih split' ?_ (hmiss ▸ client)
      rw [view, Database.ensureBalances_concat, Database.ensureBalance_of_isSome _ _ hb]
    · -- the row is new, and its key is held
      rw [hb, if_neg (by decide)] at hmiss
      have hneeds : needs (.insertBalanceIfAbsent c cur 0) (p.data.ensureBalances c pre) =
          [.balance c cur] := by
        simp [needs, hb]
      rw [hneeds, List.append_assoc, ← hmiss]
      refine ih split' ?_ fun _ => by simpa [Database.client?] using hc
      rw [Database.after_append, view, Database.ensureBalances_concat,
        Database.ensureBalance_of_none _ _ hb]
      rfl

/-- The rows are locked one by one: `pre` are those done, `post` those to come. The view does not
change, as no row is written. -/
theorem lockBalances_wp (opening : Opening p.data c xs L₀) {pre post : List String}
    (split : xs.insertionSort (· ≤ ·) = pre ++ post) (he : R.env p.env e)
    (view : p.data.after ws = p.data.ensureBalances c xs)
    (locks : L = L₀ ++ missing p.data c xs ++ pre.map (.balance c))
    (client : missing p.data c xs ≠ [] → (p.data.client? c).isSome) :
    Prog.Wp isolation R obligations (Within R p st fun _ ws L =>
      p.data.after ws = p.data.ensureBalances c xs ∧
        L = L₀ ++ missing p.data c xs ++ (xs.insertionSort (· ≤ ·)).map (.balance c))
      (.inside ⟨p.data, e⟩ st ws L) ℓ
      (post.forM fun currency => do let _ ← App.query (.lockBalance c currency)) := by
  induction post generalizing pre ws L ℓ with
  | nil => exact within_pure he ⟨view, by rw [locks, split, List.append_nil]⟩
  | cons cur post ih =>
    have hmem : cur ∈ xs :=
      (List.perm_insertionSort (· ≤ ·) xs).mem_iff.mp (split ▸ by simp)
    have hb : ((p.data.ensureBalances c xs).balance? c cur).isSome := by
      rw [Database.isSome_balance?_ensureBalances]
      simp [hmem]
    subst locks
    refine within_query (.lock opening split view client) he (fun r w hx _ => ?_)
      fun r w hx hr => (hr ?_).elim
    · have hneeds : needs (.lockBalance c cur) (p.data.ensureBalances c xs) = [.balance c cur] := by
        simp [needs, hb]
      obtain ⟨-, rfl⟩ := exec_lockBalance.mp hx
      rw [view, hneeds, List.append_nil]
      have split' : xs.insertionSort (· ≤ ·) = pre ++ [cur] ++ post := by simpa using split
      exact ih split' view (by simp)
    · obtain ⟨rfl, -⟩ := exec_lockBalance.mp hx
      rw [view]
      exact hb

end

/-- `lockBalanceRows` makes sure of the rows and holds them all, each currency once and in the
canonical order where it was not inserted. -/
theorem lockBalanceRows_wp {c : Uuid} {xs : List String} {L₀ : List Resource}
    (opening : Opening p.data c (LedgerService.uniqueCurrencies xs) L₀) (he : R.env p.env e) :
    (LedgerService.lockBalanceRows c xs).Wp isolation R obligations
      (Within R p st fun lock ws L => lock = ⟨c, LedgerService.uniqueCurrencies xs⟩ ∧
        p.data.after ws = p.data.ensureBalances c (LedgerService.uniqueCurrencies xs) ∧
        L = L₀ ++ missing p.data c (LedgerService.uniqueCurrencies xs) ++
          ((LedgerService.uniqueCurrencies xs).insertionSort (· ≤ ·)).map (.balance c))
      (.inside ⟨p.data, e⟩ st [] L₀) ℓ := by
  unfold LedgerService.lockBalanceRows
  refine within_bind (ensureBalances_wp opening (List.nil_append _).symm he rfl
    (List.append_nil L₀).symm fun h => (h rfl).elim) fun _ e ws L ℓ he ⟨view, locks, client⟩ => ?_
  refine within_bind (lockBalances_wp opening (List.nil_append _).symm he view
    (locks.trans (List.append_nil _).symm) client) fun _ e ws L ℓ he ⟨view, locks⟩ => ?_
  exact within_pure he ⟨rfl, view, locks⟩

/-! ## Moving money -/

/-- `debit` takes an amount the balance covers, and explains it. Where the balance does not cover
it, the transaction is refused and nothing of it stays. -/
theorem debit_wp {lock : BalanceLock} (params : LedgerMovementParams) {D : Database}
    (covers : LedgerService.assertCovers lock params.clientId params.currency = .ok ())
    (locked : .balance params.clientId params.currency ∈ L) (he : R.env p.env e)
    (view : p.data.after ws = D) :
    (LedgerService.debit lock params).Wp isolation R obligations
      (Within R p st fun _ ws L' =>
        p.data.after ws = D.postEntry ⟨params.clientId, params.currency, -params.amountMinor,
          params.reason, params.refType, params.refId⟩ ∧
        params.amountMinor ≤ D.available params.clientId params.currency ∧
        L' = L ++ [.balance params.clientId params.currency])
      (.inside ⟨p.data, e⟩ st ws L) ℓ := by
  unfold LedgerService.debit
  rw [covers]
  refine within_query (.held trivial fun r hr => mem_needs_debitBalance hr ▸ locked) he
    (fun r w hx hr => ?_) fun r w hx hr => ?_
  · rw [view] at hx ⊢
    obtain ⟨-, ⟨-, rfl, -⟩ | ⟨b, hb, hle, -, rfl, rfl⟩⟩ := exec_debitBalance.mp hx
    · cases hr
    have hb : D.balance? params.clientId params.currency = some b := hb
    rw [needs_debitBalance hb hle]
    refine within_query (f := fun u => .done (.ok u)) (.held trivial fun r hr => nomatch hr) he
      (fun r w hx' _ => ?_) fun _ _ _ hr => (hr trivial).elim
    obtain ⟨-, -, rfl⟩ := exec_insertLedgerEntry.mp hx'
    refine within_pure he ⟨?_, ?_, List.append_nil _⟩
    · rw [Database.after_append, Database.after_append, view, Database.postEntry, hb]
      rfl
    · simpa [Database.available, hb] using hle
  · -- no row with enough on it
    have hr : ¬ Option.isSome r = true := hr
    obtain rfl : r = none := by simpa using hr
    exact ⟨_, rfl⟩

/-- `credit` adds an amount, and explains it. -/
theorem credit_wp {lock : BalanceLock} (params : LedgerMovementParams) {D : Database}
    (covers : LedgerService.assertCovers lock params.clientId params.currency = .ok ())
    (locked : .balance params.clientId params.currency ∈ L) (he : R.env p.env e)
    (view : p.data.after ws = D) :
    (LedgerService.credit lock params).Wp isolation R obligations
      (Within R p st fun _ ws L' =>
        p.data.after ws = D.postEntry ⟨params.clientId, params.currency, params.amountMinor,
          params.reason, params.refType, params.refId⟩ ∧
        L' = L ++ [.balance params.clientId params.currency])
      (.inside ⟨p.data, e⟩ st ws L) ℓ := by
  unfold LedgerService.credit
  rw [covers]
  refine within_query (.held trivial fun r hr => List.mem_singleton.mp hr ▸ locked) he
    (fun r w hx _ => ?_) fun _ _ _ hr => (hr trivial).elim
  refine within_query (f := fun u => .done (.ok u)) (.held trivial fun r hr => nomatch hr) he
    (fun r w' hx' _ => ?_) fun _ _ _ hr => (hr trivial).elim
  obtain ⟨-, -, rfl⟩ := exec_insertLedgerEntry.mp hx'
  rw [view] at hx
  refine within_pure he ⟨?_, List.append_nil _⟩
  rw [Database.after_append, Database.after_append, view, Database.postEntry]
  obtain ⟨-, ⟨hb, -, rfl⟩ | ⟨b, hb, -, rfl⟩⟩ := exec_creditBalance.mp hx
  · rw [hb]
    rfl
  · rw [Option.mem_def.mp hb]
    rfl

/-! ## Executing a quote -/

/-- `executeWithinTransaction` ends with the writes of one trade, of an ACTIVE quote of the
client. -/
theorem executeWithinTransaction_wp {clientId : Uuid} {quoteId key : String}
    (he : R.env p.env e) :
    (TradingService.executeWithinTransaction clientId quoteId key).Wp isolation R obligations
      (Within R p st fun trade ws _ => ∃ q tradeId,
        (Effect.trade q tradeId key st).Allowed p.data ∧
        p.data.after ws = (Effect.trade q tradeId key st).apply p.data ∧
        trade = (q.trade tradeId key st).load ∧
        Uuid.ofText? quoteId = some q.id ∧ q.clientId = clientId)
      (.inside ⟨p.data, e⟩ st [] []) ℓ := by
  unfold TradingService.executeWithinTransaction
  refine within_query (.lockQuote quoteId) he (fun r w hx hr => ?_) fun r w hx hr => ?_
  swap
  · -- no such quote
    have hr : ¬ Option.isSome r = true := hr
    obtain rfl : r = none := by simpa using hr
    exact ⟨_, rfl⟩
  obtain ⟨u, hu, rfl, rfl⟩ := exec_selectQuoteForUpdate.mp hx
  obtain ⟨q, hq⟩ : ∃ q, p.data.quote? u = some q := by
    have hr : Option.isSome ((p.data.quote? u).map QuoteRow.load) = true := hr
    rw [Option.isSome_map] at hr
    exact Option.isSome_iff_exists.mp hr
  obtain rfl : q.id = u := quote?_id hq
  have hneeds : needs (.selectQuoteForUpdate quoteId) (p.data.after []) = [.quote q.id] := by
    have hq : (p.data.after []).quote? q.id = some q := hq
    simp [needs, Option.mem_def.mp hu, hq]
  rw [hneeds]
  change Prog.Wp _ _ _ _ _ _ ((App.ofExcept (assertOwnedByClient QuoteRow.clientId
    ((p.data.quote? q.id).map QuoteRow.load) clientId _)).bind _)
  rw [hq]
  rw [Option.map_some, assertOwnedByClient]
  by_cases hown : q.load.clientId ≠ clientId
  · rw [if_pos hown]
    exact within_fail he
  obtain rfl : q.clientId = clientId := not_ne_iff.mp hown
  rw [if_neg hown, App.ofExcept, Prog.bind_ok]
  split
  · exact within_fail he
  next hactive =>
  have hactive : q.status ≠ .EXECUTED := hactive
  have executing : Executing p.data q := ⟨hq, by cases hs : q.status <;> simp_all⟩
  refine within_request (x := .dateNow) (a := fun _ e => e.dateNow) (fun _ => trivial)
    (fun _ _ => rfl) he fun _ e he => ?_
  split
  · exact within_fail he
  refine within_bind (lockBalanceRows_wp (.trade executing) he) ?_
  rintro lock e ws L ℓ he ⟨rfl, view, rfl⟩
  refine within_request (x := .uuidv4) (a := fun χ _ => χ.uuid) (fun _ => trivial)
    (fun _ _ => rfl) he fun χ e he => ?_
  generalize χ.uuid = tradeId
  -- every balance of the quote is held, and nothing else but the quote
  have hheld : ∀ cur ∈ q.currencies, Resource.balance q.clientId cur ∈
      [.quote q.id] ++ missing p.data q.clientId q.currencies ++
        (q.currencies.insertionSort (· ≤ ·)).map (.balance q.clientId) := fun cur hcur =>
    List.mem_append_right _ (List.mem_map_of_mem
      ((List.perm_insertionSort (· ≤ ·) q.currencies).mem_iff.mpr hcur))
  refine within_bind (debit_wp _ (assertCovers_ok (mem_currencies q).1)
    (hheld _ (mem_currencies q).1) he view) ?_
  rintro - e ws L ℓ he ⟨view, hcovered, rfl⟩
  refine within_bind (credit_wp _ (assertCovers_ok (mem_currencies q).2)
    (List.mem_append_left _ (hheld _ (mem_currencies q).2)) he view) ?_
  rintro - e ws L ℓ he ⟨view, rfl⟩
  have htrades : (p.data.after ws).trades = p.data.trades := by rw [view]; simp
  refine within_query (.insertTrade executing htrades ?_) he
    (fun r w hx _ => ?_) fun _ _ _ hr => (hr trivial).elim
  · simp only [missing, List.mem_append, List.mem_map, List.mem_cons, List.not_mem_nil,
      or_false, false_or]
    rintro r ((((rfl | ⟨cur, -, rfl⟩) | ⟨cur, -, rfl⟩) | rfl) | rfl)
    · exact .inl rfl
    all_goals exact .inr ⟨_, rfl⟩
  obtain ⟨-, -, hid, hquote, hkey, -, -, rfl, rfl⟩ := exec_insertTrade.mp hx
  refine within_query (.held trivial fun r hr => ?_) he (fun _ w hx _ => ?_)
    fun _ _ _ hr => (hr trivial).elim
  · rw [List.mem_singleton.mp hr]
    change Resource.quote q.id ∈ _
    simp
  obtain rfl := exec_setQuoteExecuted.mp hx
  refine within_pure he ⟨q, tradeId, ⟨hq, executing.active, ?_, ?_, ?_, ?_⟩, ?_, rfl,
    Option.mem_def.mp hu, rfl⟩
  · rwa [Database.trade?, htrades] at hid
  · rwa [Database.tradeOfQuote?, htrades] at hquote
  · rwa [Database.tradeByKey?, htrades] at hkey
  · rwa [Database.available_ensureBalances] at hcovered
  · rw [Database.after_append, Database.after_append, view]
    rfl

end MiniOpenFX
