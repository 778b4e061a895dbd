import MiniOpenFX.Proof.Agreement
import MiniOpenFX.Guarantees.CachedReads

/-!
# A client's requests in two worlds

Two surroundings are alike to a client (`Alike`) if they differ in nothing but cached quotes of
others. Then every service does the same for the client on two databases with the same rows of its
own (`Twinned`): the two runs get the same answers and leave the same rows of the client, as
`Prog.Twin` walks through them. Only a read of a quote that others have is left out here: there, one
run may find a foreign quote in the cache where the other goes to Postgres.
-/

namespace MiniOpenFX

open Js Transactional

/-! ## The surroundings -/

/-- A cached quote of another client. -/
def CacheValue.Foreign (c : Uuid) (value : CacheValue) : Prop :=
  ∃ row : QuoteRow Date, value = .quote (serializeQuote row) ∧ row.clientId ≠ c

/-- The surroundings differ in nothing but cached quotes of others, whose ids are those of `F`. The
clock is the same, and so is every entry that the client could get to see. -/
structure Alike (c : Uuid) (F : Uuid → Prop) (e e' : Surroundings) : Prop where
  now : e.now = e'.now
  ttl : e.priceCacheTtlMs = e'.priceCacheTtlMs
  own : ∀ key, (∀ id u, key = quoteCacheKey id → Uuid.ofText? id = some u → ¬ F u) →
    e.cache key = e'.cache key
  foreign : ∀ id u value, Uuid.ofText? id = some u → F u → (e.get (quoteCacheKey id) = some value ∨
    e'.get (quoteCacheKey id) = some value) → value.Foreign c

/-- The request reads and writes no cached quote of others. A deletion is no trouble: it leaves the
same entry in both, none. -/
def Ext.Spares (F : Uuid → Prop) : Ext → Prop
  | .redisGet key | .redisSet key _ _ =>
    ∀ id u, key = quoteCacheKey id → Uuid.ofText? id = some u → ¬ F u
  | _ => True

namespace Alike

variable {c : Uuid} {F : Uuid → Prop} {e e' : Surroundings} (h : Alike c F e e')
include h

theorem symm : Alike c F e' e :=
  ⟨h.now.symm, h.ttl.symm, fun key hkey => (h.own key hkey).symm,
    fun id u value hid hu hv => h.foreign id u value hid hu hv.symm⟩

/-- The clocks of two surroundings that are alike show the same time. -/
theorem dateNow : e.dateNow = e'.dateNow := by
  rw [Surroundings.dateNow, Surroundings.dateNow, h.now]

/-- An entry is replaced in both: one that is not of others, or by none. -/
theorem put {key : String} {entry : Option CacheEntry}
    (hentry : entry = none ∨ ∀ id u, key = quoteCacheKey id → Uuid.ofText? id = some u → ¬ F u) :
    Alike c F (e.put key entry) (e'.put key entry) := by
  refine ⟨h.now, h.ttl, fun key' hkey' => ?_, fun id u value hid hu hv => ?_⟩
  · by_cases hk : key' = key
    · exact (if_pos hk).trans (if_pos hk).symm
    · exact (if_neg hk).trans ((h.own key' hkey').trans (if_neg hk).symm)
  · by_cases hk : quoteCacheKey id = key
    · obtain rfl : entry = none := hentry.resolve_right fun hne => hne id u hk.symm hid hu
      simp [Surroundings.get, Surroundings.put, hk] at hv
    · rw [Surroundings.get_put_of_ne hk, Surroundings.get_put_of_ne hk] at hv
      exact h.foreign id u value hid hu hv

/-- A foreign quote comes into one of the caches, as a read of it puts it there before it is known
to be foreign. -/
theorem putForeign {id : String} {u : Uuid} (hid : Uuid.ofText? id = some u) (hu : F u)
    {entry : CacheEntry} (hentry : entry.value.Foreign c) :
    Alike c F (e.put (quoteCacheKey id) (some entry)) e' := by
  refine ⟨h.now, h.ttl, fun key hkey => ?_, fun id' u' value hid' hu' hv => ?_⟩
  · have hne : key ≠ quoteCacheKey id := fun hk => hkey id u hk hid hu
    exact (if_neg hne).trans (h.own key hkey)
  · by_cases hk : quoteCacheKey id' = quoteCacheKey id
    · rcases hv with hv | hv
      · simp only [Surroundings.get, Surroundings.put, hk, if_true] at hv
        exact Option.some.inj (Option.ite_none_right_eq_some.mp hv).2 ▸ hentry
      · exact h.foreign id' u' value hid' hu' (.inr hv)
    · rw [Surroundings.get_put_of_ne hk] at hv
      exact h.foreign id' u' value hid' hu' hv

/-- The surroundings of both move on. -/
theorem tick (χ : Choice) : Alike c F (tick χ e) (MiniOpenFX.tick χ e') := by
  cases hχ : χ.tick with
  | evict key =>
    simp only [MiniOpenFX.tick, hχ]
    exact h.put (.inl rfl)
  | elapse micros =>
    have heq : ∀ e : Surroundings, MiniOpenFX.tick χ e = { e with now := e.now.advance micros } :=
      fun e => by simp only [MiniOpenFX.tick, hχ]
    refine ⟨by rw [heq, heq, h.now], by rw [heq, heq]; exact h.ttl, fun key hkey => ?_,
      fun id u value hid hu hv => h.foreign id u value hid hu (hv.imp tick_get tick_get)⟩
    rw [heq, heq]
    exact h.own key hkey

/-- What happens around two requests keeps their surroundings alike. -/
theorem env {t t' : Turn backend} (ht : t.moves = t'.moves) : Alike c F (t.env e) (t'.env e') := by
  unfold Turn.env
  rw [← ht]
  induction t.moves generalizing e e' with
  | nil => exact h
  | cons χ χs ih => exact ih (h.tick χ)

/-- A request that spares the cached quotes of others is answered alike, and its surroundings stay
alike. -/
theorem answer {x : Ext} (hx : x.Spares F) (χ : Choice) :
    (answer x χ e).1 = (MiniOpenFX.answer x χ e').1 ∧
      Alike c F (MiniOpenFX.answer x χ e).2 (MiniOpenFX.answer x χ e').2 := by
  cases x with
  | dateNow => exact ⟨congrArg Except.ok h.dateNow, h⟩
  | priceCacheTtlMs => exact ⟨congrArg Except.ok h.ttl, h⟩
  | redisGet key =>
    refine ⟨congrArg Except.ok ?_, h⟩
    rw [Surroundings.get, Surroundings.get, h.own key hx, h.now]
  | redisSet key value ttlMs =>
    simp only [MiniOpenFX.answer]
    split
    · exact ⟨rfl, h⟩
    · exact ⟨rfl, h.now ▸ h.put (.inr hx)⟩
  | redisDel key => exact ⟨rfl, h.put (.inl rfl)⟩
  | uuidv4 | genRandomUuid | fetch _ _ | firstRejects => exact ⟨rfl, h⟩

end Alike

/-! ## Prices -/

/-- The act is a request that spares the cached quotes of others. -/
def AsksElsewhere (F : Uuid → Prop) : Act sig → Prop
  | .ext x => x.Spares F
  | _ => False

section
variable {F : Uuid → Prop}

/-- Reading a key that is not of a foreign quote asks elsewhere. -/
theorem getJson_asksElsewhere {key : String} (hkey : (Ext.redisGet key).Spares F) :
    (RedisService.getJson key).Acts (AsksElsewhere F) :=
  failSoft_acts (Prog.acts_request hkey)

/-- Storing under a key that is not of a foreign quote asks elsewhere. -/
theorem setJson_asksElsewhere {key : String} {value : CacheValue} {ttlMs : Int}
    (hkey : (Ext.redisSet key value ttlMs).Spares F) :
    (RedisService.setJson key value ttlMs).Acts (AsksElsewhere F) :=
  failSoft_acts (Prog.acts_request hkey)

theorem getPrice_asksElsewhere (symbol : String) :
    (PricingService.getPrice symbol).Acts (AsksElsewhere F) := by
  have hkey : ∀ {symbol}, ∀ id u, PricingService.priceCacheKey symbol = quoteCacheKey id →
      Uuid.ofText? id = some u → ¬ F u :=
    fun id _ hk => absurd hk.symm (quoteCacheKey_ne_priceCacheKey id _)
  unfold PricingService.getPrice
  refine (getJson_asksElsewhere hkey).bind fun cached => ?_
  split
  · trivial
  · refine (mapBinanceErrors_acts ?_).bind fun price => ?_
    · exact (fetch_acts trivial _).bind fun ticker =>
        (Prog.acts_request trivial).bind fun now => trivial
    · exact (Prog.acts_request trivial).bind fun ttlMs =>
        (setJson_asksElsewhere hkey).bind fun _ => trivial

/-- `getSymbolBreakdown` has nothing to do with quotes. -/
theorem getSymbolBreakdown_asksElsewhere (symbol : String) :
    (PricingService.getSymbolBreakdown symbol).Acts (AsksElsewhere F) := by
  have hkey : ∀ {symbol}, ∀ id u, PricingService.symbolCacheKey symbol = quoteCacheKey id →
      Uuid.ofText? id = some u → ¬ F u :=
    fun id _ hk => absurd hk.symm (quoteCacheKey_ne_symbolCacheKey id _)
  unfold PricingService.getSymbolBreakdown
  refine (getJson_asksElsewhere hkey).bind fun cached => ?_
  split
  · trivial
  · refine (mapBinanceErrors_acts ?_).bind fun breakdown => ?_
    · refine Prog.Acts.bind ((fetch_acts trivial _).bind fun infos => ?_) fun _ =>
        trivial
      split <;> trivial
    · exact (setJson_asksElsewhere hkey).bind fun _ => trivial

/-- Two programs that ask elsewhere do so side by side. -/
theorem promiseAll_asksElsewhere {α β : Type} {x : App α} {y : App β}
    (hx : x.Acts (AsksElsewhere F)) (hy : y.Acts (AsksElsewhere F)) :
    (App.promiseAll x y).Acts (AsksElsewhere F) := by
  unfold App.promiseAll
  refine hx.attempt.bind fun a => hy.attempt.bind fun b => ?_
  split
  · trivial
  · trivial
  · trivial
  · refine Prog.Acts.bind (Prog.acts_request trivial) fun first => ?_
    split <;> trivial

end

/-! ## The services -/

section
variable {A : Choice → Prop} {F : Uuid → Prop} {c : Uuid} {d d' : Database} {α : Type}

/-- Two runs that ended outside a transaction, with the same rows of the client. Together with
equal results this is all a client can see of a call. -/
def Parted (c : Uuid) (F : Uuid → Prop) (u : Twins backend) : Prop :=
  u = Twins.outside u.view.1 u.view.2 ∧ Twinned c F u.view.1 u.view.2

/-- No quote of others has an unused id. -/
theorem Twinned.not_foreign (h : Twinned c F d d') {id : Uuid} (hid : Unused d d' id) : ¬ F id := by
  intro hF
  obtain ⟨⟨-, hq⟩, -, hq'⟩ := hid
  rcases (h.foreign id).mp hF with ⟨q, hsome, -⟩ | ⟨q, hsome, -⟩
  · cases hq.symm.trans hsome
  · cases hq'.symm.trans hsome

theorem Twinned.parted (h : Twinned c F d d') : Parted c F (Twins.outside (B := backend) d d') :=
    ⟨rfl, h⟩

/-- Requests for anything but a cached quote: the tables are not touched, and every answer is the
same in both runs. -/
theorem asksElsewhere_twin {p : App α} (hp : p.Acts (AsksElsewhere F)) :
    p.Twin A (Alike c F) (fun _ u => u = Twins.outside (B := backend) d d')
      (Twins.outside (B := backend) d d') := by
  refine (Prog.Acts.twin (B := backend) (A := A) (E := Alike c F) (P := AsksElsewhere F)
    (D := fun v v' => (v, v') = (d, d')) (t := Twins.outside d d')
    (fun a ha => ?_) (fun s χ st v v' hs _ _ => hs.elim)
    (fun x χ e e' hx _ he => he.answer hx χ) hp rfl rfl).mono fun r u hu => ?_
  · cases a with
    | ext x => trivial
    | begin | commit | rollback | sql s => exact ha.elim
  · rw [hu.2]
    exact congrArg (fun v : Database × Database => (⟨v, v, none⟩ : Twins backend)) hu.1

/-- A program that has nothing to do with the tables, or with quotes of others in the cache, runs
alike and leaves the databases as they are. -/
theorem asksElsewhere_parted {p : App α} (hp : p.Acts (AsksElsewhere F)) (h : Twinned c F d d') :
    p.Twin A (Alike c F) (fun _ u => Parted c F u) (Twins.outside (B := backend) d d') :=
  (asksElsewhere_twin hp).mono fun _ _ hu => hu ▸ h.parted

/-- Money and trades, outside a transaction: the client's balances and its history read the same
rows. -/
theorem about_twin {p : App α} (hp : p.Acts (IsAbout c)) (h : Twinned c F d d') :
    p.Twin A (Alike c F) (fun _ u => Parted c F u) (Twins.outside (B := backend) d d') :=
  (moneyMoved_twin hp h.moneyMoved rfl).mono fun _ _ hu => ⟨hu.2, hu.1.twinned h⟩

/-- A transaction in which the client's money moves. Both commit or neither does; a rollback leaves
the tables twinned as they were. -/
theorem transaction_twin {body : App α} (hbody : ∀ st, body.Twin A (Alike c F)
      (fun r u => u.data = (d, d') ∧ ∀ a, r = .ok a → Twinned c F u.view.1 u.view.2)
      (Twins.inside (B := backend) (d, d') (d, d') st)) (h : Twinned c F d d') :
    (Prog.transaction body).Twin A (Alike c F) (fun _ u => Parted c F u)
      (Twins.outside (B := backend) d d') := by
  refine Prog.twin_transaction fun st => (hbody st).mono fun r u hu => ⟨hu.1, ?_⟩
  cases r with
  | ok a => exact ⟨rfl, hu.2 a rfl⟩
  | error e => exact h.parted

/-- A new quote of the client, and what follows it. The id is new to both databases, so both insert
it or both fail. -/
theorem insertQuote_twin (h : Twinned c F d d') {v : QuoteValues} (hv : v.clientId = c)
    (fresh : Unused d d' v.id) {g : QuoteRow Date → App α}
    (hg : ∀ row d d', row.id = v.id → Twinned c F d d' →
      (g row).Twin A (Alike c F) (fun _ u => Parted c F u)
      (Twins.outside (B := backend) d d')) :
    ((App.query (.insertQuote v)).bind g).Twin A (Alike c F) (fun _ u => Parted c F u)
      (Twins.outside (B := backend) d d') := by
  refine Prog.twin_query_bind fun χ st _ _ => ?_
  obtain ⟨hsame, htwin⟩ := h.insertQuote st hv fresh.1.2 fresh.2.2
  refine ⟨congrArg (fun r => (Prog.done (Except.map Prod.fst r)).bind _) hsame, ?_⟩
  change Prog.Twin (B := backend) A (Alike c F) _ (Twins.outside (backend.left d
    (exec st d (.insertQuote v))) (backend.left d' (exec st d' (.insertQuote v))))
    ((Prog.done ((exec st d (.insertQuote v)).map Prod.fst)).bind g)
  cases hx : exec st d (.insertQuote v) with
  | error e =>
    rw [← hsame, hx] at htwin ⊢
    exact htwin.parted
  | ok r =>
    obtain ⟨row, ws⟩ := r
    rw [← hsame, hx] at htwin ⊢
    refine hg row _ _ ?_ htwin
    obtain ⟨-, t, -, -, -, -, -, rfl, -⟩ := exec_insertQuote.mp hx
    rfl

section
variable [DecimalJs]

/-- `getBalances` answers alike. This and the lemmas below say so of each of a client's requests:
the databases are twins again when it has ended. -/
theorem getBalances_twin (h : Twinned c F d d') : (BalancesService.getBalances c).Twin A (Alike c F)
    (fun _ u => Parted c F u) (Twins.outside (B := backend) d d') :=
  about_twin ((query_about (by exact rfl)).bind fun _ => trivial) h

theorem createDeposit_twin (h : Twinned c F d d') (dto : CreateDepositDto) :
    (BalancesService.createDeposit c dto).Twin A (Alike c F) (fun _ u => Parted c F u)
      (Twins.outside (B := backend) d d') := by
  unfold BalancesService.createDeposit
  cases toMinorUnits (.text dto.amount) with
  | error e => exact h.parted
  | ok amountMinor =>
    simp only [Prog.bind_eq, Prog.pure_eq, Prog.bind_ok]
    split
    · exact h.parted
    refine Prog.twin_request_bind fun χ e e' _ he => ⟨rfl, he, ?_⟩
    change Prog.Twin (B := backend) A (Alike c F) _ _ ((Prog.transaction _).bind _)
    refine Prog.Twin.bind (transaction_twin (fun st => ?_) h) (fun _ u hu => ?_) fun _ _ hu => hu
    · have hbody : ∀ params : LedgerMovementParams, params.clientId = c →
          Prog.Acts (IsAbout c) ((LedgerService.lockBalanceRows c [dto.currency]).bind
            fun lock => LedgerService.credit lock params) := fun params hc =>
        (lockBalanceRows_about c _).bind fun lock => credit_about lock hc
      exact (moneyMoved_twin (hbody _ rfl) h.moneyMoved rfl).mono fun r u hu =>
        ⟨by rw [hu.2]; rfl, fun _ _ => hu.1.twinned h⟩
    · rw [hu.1]
      exact getBalances_twin hu.2

theorem getTradeHistory_twin [JsEngine] (h : Twinned c F d d') (query : GetTradesQueryDto) :
    (TradesService.getTradeHistory c query).Twin A (Alike c F) (fun _ u => Parted c F u)
      (Twins.outside (B := backend) d d') := by
  cases hcursor : TradesService.cursorOf query.cursor with
  | error e =>
    rw [TradesService.getTradeHistory_of_error hcursor]
    exact h.parted
  | ok cursor =>
    rw [TradesService.getTradeHistory_of_cursor hcursor]
    exact about_twin ((query_about (by exact rfl)).bind fun _ => trivial) h

/-- `executeTrade` answers alike: a quote of another client is refused as one that does not exist
is. -/
theorem executeTrade_twin (h : Twinned c F d d') (hA : ∀ χ, A χ → Unused d d' χ.uuid)
    (dto : CreateTradeDto) (rawKey : String) :
    (TradingService.executeTrade c dto rawKey).Twin A (Alike c F) (fun _ u => Parted c F u)
      (Twins.outside (B := backend) d d') := by
  unfold TradingService.executeTrade
  refine Prog.Twin.bind (moneyMoved_twin (query_about (by exact rfl)) h.moneyMoved rfl)
    (fun existing u hu => ?_) fun e u hu => ⟨hu.2, hu.1.twinned h⟩
  obtain ⟨hk, hu⟩ := hu
  obtain ⟨v, rfl⟩ : ∃ v, u = Twins.outside (B := backend) v.1 v.2 := ⟨u.view, hu⟩
  cases existing with
  | some existing => exact (hk.twinned h).parted
  | none =>
    refine Prog.Twin.bind (R := fun _ u => Parted c F u) (Prog.twin_attempt (transaction_twin
      (executeWithinTransaction_twin (hk.twinned h) (fun χ hχ => hk.unused (hA χ hχ))
        (fun he => he.dateNow) _ _) (hk.twinned h))) (fun row u hu => ?_) fun _ _ hu => hu
    obtain ⟨hu, htwin⟩ := hu
    rw [hu]
    cases row with
    | ok row =>
      exact asksElsewhere_parted
        ((failSoft_acts (Prog.acts_request trivial)).bind fun _ => trivial) htwin
    | error error => exact htwin.parted

/-- `createQuote` answers alike if its id is new to both databases. Prices come from keys that no
quote has, and the row is the client's own. -/
theorem createQuote_twin (h : Twinned c F d d') (hA : ∀ χ, A χ → Unused d d' χ.uuid)
    (dto : CreateQuoteDto) :
    (QuotingService.createQuote c dto).Twin A (Alike c F) (fun _ u => Parted c F u)
      (Twins.outside (B := backend) d d') := by
  unfold QuotingService.createQuote
  cases toMinorUnits (.text dto.baseAmount) with
  | error e => exact h.parted
  | ok baseAmountMinor =>
    simp only [Prog.bind_eq, Prog.pure_eq, Prog.bind_ok]
    split
    · exact h.parted
    refine (asksElsewhere_twin (promiseAll_asksElsewhere (getSymbolBreakdown_asksElsewhere _)
      (getPrice_asksElsewhere _))).bind (fun priced u hu => ?_) fun _ u hu => hu ▸ h.parted
    subst hu
    cases computeQuoteAmount dto.side baseAmountMinor priced.2.ask priced.2.bid with
    | error e => exact h.parted
    | ok amount =>
    obtain ⟨price, quoteAmountMinor⟩ := amount
    simp only [App.ofExcept, Prog.bind_ok]
    split
    · exact h.parted
    refine Prog.twin_request_bind fun χ e e' _ he => ⟨congrArg Except.ok he.dateNow, he, ?_⟩
    have hnow : (backend.answer .dateNow χ e).1 = .ok e.dateNow := rfl
    rw [hnow, Prog.bind_ok]
    cases Date.ofMillis? (e.dateNow + QuotingService.DEFAULT_QUOTE_TTL_SECONDS * 1000) with
    | none => exact h.parted
    | some expiresAt =>
      refine Prog.twin_request_bind fun χ e e' hχ he => ⟨rfl, he, ?_⟩
      refine insertQuote_twin h (by exact rfl) (hA χ hχ) fun row d₁ d₁' hid h₁ =>
        asksElsewhere_parted ((setJson_asksElsewhere fun id u hk hu => ?_).bind fun _ =>
          (Prog.acts_request trivial).bind fun _ => trivial) h₁
      have hid : row.id = χ.uuid := hid
      rw [← quoteCacheKey_inj.mp hk, Uuid.ofText?_text, hid] at hu
      exact Option.some.inj hu ▸ h.not_foreign (hA χ hχ)

/-! ## Reads of quotes -/

omit [DecimalJs] in
/-- A quote that is no other client's is read alike. -/
theorem Twinned.readQuote_eq (h : Twinned c F d d') {id : String}
    (hid : ∀ u, Uuid.ofText? id = some u → ¬ F u) : d.readQuote id = d'.readQuote id := by
  rw [Database.readQuote, Database.readQuote]
  cases hu : Uuid.ofText? id with
  | none => rfl
  | some u => simp only [h.quote?_eq (hid u hu)]

/-- A quote that no other client has is read alike, from the cache or the table. What the read puts
in the cache is the same, too. -/
theorem getQuoteById_twin (h : Twinned c F d d') {id : String}
    (hid : ∀ u, Uuid.ofText? id = some u → ¬ F u) :
    (QuotingService.getQuoteById c id).Twin A (Alike c F) (fun _ u => Parted c F u)
      (Twins.outside (B := backend) d d') := by
  have hkey : ∀ id' u, quoteCacheKey id = quoteCacheKey id' → Uuid.ofText? id' = some u → ¬ F u :=
    fun id' u hk => quoteCacheKey_inj.mp hk ▸ hid u
  have hrow : ∀ now, exec now d (.selectQuote id) = exec now d' (.selectQuote id) := fun now => by
    rw [exec_selectQuote_eq, exec_selectQuote_eq, h.readQuote_eq hid]
  unfold QuotingService.getQuoteById
  refine Prog.Twin.bind (R := fun _ u => u = Twins.outside d d') ?_ (fun row u hu => ?_)
    fun _ _ hu => hu ▸ h.parted
  · unfold QuotingService.loadQuote
    refine (asksElsewhere_twin (getJson_asksElsewhere hkey)).bind (fun cached u hu => ?_)
      fun _ _ hu => hu
    subst hu
    split
    · next cached =>
      generalize deserializeQuote cached = row
      cases row <;> rfl
    · refine Prog.twin_query_bind fun χ st _ _ => ?_
      refine ⟨congrArg (fun r => (Prog.done (Except.map Prod.fst r)).bind _) (hrow st), ?_⟩
      change Prog.Twin (B := backend) A (Alike c F) (fun _ u => u = Twins.outside d d')
        (Twins.outside (backend.left d (exec st d (.selectQuote id)))
          (backend.left d' (exec st d' (.selectQuote id))))
        ((Prog.done ((exec st d (.selectQuote id)).map Prod.fst)).bind _)
      rw [← hrow, exec_selectQuote_eq]
      cases d.readQuote id with
      | error e => rfl
      | ok row =>
        cases row with
        | none => rfl
        | some row =>
          refine asksElsewhere_twin (p := Prog.bind App.dateNow _)
            (Prog.Acts.bind (Prog.acts_request trivial) fun now => ?_)
          dsimp only
          split
          · exact (setJson_asksElsewhere hkey).bind fun _ => trivial
          · trivial
  · subst hu
    exact asksElsewhere_parted (Prog.Acts.bind (show (App.ofExcept _).Acts _ from trivial) fun _ =>
      (Prog.acts_request trivial).bind fun _ => trivial) h

omit [DecimalJs] in
/-- A command to Redis in a run without failures, and what follows it. -/
theorem runCalm_failSoft {x : Ext} {fallback : ExtRes x} (g : ExtRes x → App α)
    (τ : Nat → Turn backend) (w : World backend) :
    ((RedisService.failSoft (App.request x) fallback).bind g).runCalm τ w =
      (g ((answer x (τ 0).choice ((τ 0).env w.env)).1.toOption.getD fallback)).runCalm
        (fun n => τ (n + 1)) { w with env := (answer x (τ 0).choice ((τ 0).env w.env)).2 } := by
  rw [RedisService.failSoft, App.request, Prog.request]
  simp only [Prog.attempt, Prog.bind_eq, Prog.bind_ext, Prog.runCalm, Prog.run, Bool.and_false,
    Bool.false_eq_true, if_false]
  cases (answer x (τ 0).choice ((τ 0).env w.env)).1 <;> rfl

/-- A quote of another client, read at one moment: there is none, and at most a copy of it comes
into the cache. -/
theorem runCalm_getQuoteById_foreign {id : String} {u : Uuid} (hid : Uuid.ofText? id = some u)
    (hd : ∀ q, d.quote? u = some q → q.clientId ≠ c) {τ : Nat → Turn backend} {e : Surroundings}
    (hcache : ∀ value, ((τ 0).env e).get (quoteCacheKey id) = some value → value.Foreign c)
    (hstill : ∀ n e, (τ (n + 1)).env e = e) :
    ∃ e', (QuotingService.getQuoteById c id).runCalm τ ⟨d, e, none⟩ =
        (.error (.notFoundException s!"Quote \"{id}\" not found"), ⟨d, e', none⟩) ∧
      (e' = (τ 0).env e ∨ ∃ entry : CacheEntry, entry.value.Foreign c ∧
        e' = ((τ 0).env e).put (quoteCacheKey id) (some entry)) := by
  have hend : ∀ (row : Option (QuoteRow Date)) (τ : Nat → Turn backend) (w : World backend),
      (∀ r ∈ row, r.clientId ≠ c) → Prog.runCalm (do
        let row ← App.ofExcept
          (assertOwnedByClient QuoteRow.clientId row c s!"Quote \"{id}\" not found")
        return toQuoteResponse (← App.dateNow) row : App QuoteResponse) τ w =
          (.error (.notFoundException s!"Quote \"{id}\" not found"), w) := by
    intro row τ w hrow
    cases row with
    | none => rfl
    | some r =>
      rw [assertOwnedByClient, if_pos (hrow r rfl)]
      rfl
  unfold QuotingService.getQuoteById QuotingService.loadQuote RedisService.getJson
  rw [Prog.bind_eq, Prog.bind_eq, Prog.bind_assoc, runCalm_failSoft]
  generalize (τ 0).env e = e₀ at hcache
  simp only [answer, Except.toOption, Option.getD_some]
  cases hget : e₀.get (quoteCacheKey id) with
  | some value =>
    obtain ⟨row, rfl, hc⟩ := hcache value hget
    refine ⟨e₀, ?_, .inl rfl⟩
    simp only [deserializeQuote_serializeQuote]
    exact hend (some row) _ _ fun r hr => Option.some.inj hr ▸ hc
  | none =>
    have hx : ∀ χ now, backend.exec (.selectQuote id) χ now d =
        .ok ((d.quote? u).map QuoteRow.load, []) := fun _ now => by simp only [exec, hid]
    change ∃ e', Prog.runCalm (Prog.bind (Prog.bind (App.query (.selectQuote id)) _) _) _ _ = _ ∧ _
    rw [Prog.bind_assoc, App.query, Prog.runCalm, Prog.run_query_bind rfl, hstill, hx]
    cases hq : d.quote? u with
    | none => exact ⟨e₀, hend none _ _ (fun r hr => by cases hr), .inl rfl⟩
    | some q =>
      have hc : ∀ r ∈ some q.load, r.clientId ≠ c := fun r hr => Option.some.inj hr ▸ hd q hq
      change ∃ e', Prog.run _ (Prog.bind (Prog.bind (App.request .dateNow) _) _) _ _ = _ ∧ _
      rw [Prog.bind_assoc, App.request, Prog.run_request_bind rfl, hstill]
      simp only [answer, Prog.bind_ok]
      split
      · rw [Prog.bind_eq, Prog.bind_assoc]
        refine ⟨_, (runCalm_failSoft _ _ _).trans (hend (some q.load) _ _ hc), ?_⟩
        rw [hstill (n := 2)]
        simp only [answer]
        split
        · exact .inl rfl
        · exact .inr ⟨_, ⟨q.load, rfl, hd q hq⟩, rfl⟩
      · exact ⟨e₀, hend (some q.load) _ _ hc, .inl rfl⟩

end

end

end MiniOpenFX
