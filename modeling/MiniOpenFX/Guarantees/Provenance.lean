import MiniOpenFX.Guarantees.Refusals

/-!
# Where prices come from

Every price comes from Binance, through however many calls and cache entries: what is cached for a
symbol, what `getPrice` shows, and what quotes and trades were priced by is an ask and a bid that
Binance has answered to some call about that symbol (`prices_of_binance`).
-/

namespace MiniOpenFX

open Js Transactional BinanceClient PricingService

/-! ## Prices in a history -/

/-- Binance's answer in the history is the price of the symbol, and the clock was read for it: what
`getPrice` returns when it has missed the cache is made of these two. -/
structure History.Offers (ℓ : History) (symbol : String) (p : IndicativePrice) : Prop where
  named : p.symbol = symbol
  source : p.source = "binance"
  answered : ∃ outcome ticker,
    Event.ext (S := sig) (.fetch "ticker/bookTicker" symbol) (.ok outcome) ∈ ℓ ∧
      outcome.body?.bind bookTicker? = some ticker ∧ p.bid = ticker.bidPrice ∧
        p.ask = ticker.askPrice
  timestamp : .ext .dateNow (.ok p.timestamp) ∈ ℓ

/-- The history has the price of the symbol, from Binance or from the cache, where it may have been
put by any call. -/
def History.Obtains (ℓ : History) (symbol : String) (p : IndicativePrice) : Prop :=
  ℓ.Offers symbol p ∨
    Event.ext (S := sig) (.redisGet (priceCacheKey symbol)) (.ok (some (.price p))) ∈ ℓ

/-- A price that Binance has offered stays offered as the history goes on. -/
theorem History.Offers.append {ℓ : History} {symbol : String} {p : IndicativePrice}
    (h : ℓ.Offers symbol p) (ℓ' : History) : History.Offers (ℓ ++ ℓ') symbol p where
  named := h.named
  source := h.source
  answered := by
    obtain ⟨outcome, ticker, hm, hticker⟩ := h.answered
    exact ⟨outcome, ticker, List.mem_append_left _ hm, hticker⟩
  timestamp := List.mem_append_left _ h.timestamp

/-- A price that has been obtained stays so as the history goes on. -/
theorem History.Obtains.append {ℓ : History} {symbol : String} {p : IndicativePrice}
    (h : ℓ.Obtains symbol p) (ℓ' : History) : History.Obtains (ℓ ++ ℓ') symbol p :=
  h.imp (·.append ℓ') (List.mem_append_left _)

/-- Symbols have a key each, so that a price is read for the symbol it was stored for. -/
theorem priceCacheKey_inj {s s' : String} : priceCacheKey s = priceCacheKey s' ↔ s = s' := by
  simp [priceCacheKey, ToString.toString, String.ext_iff]

section
variable [DecimalJs]

/-- The values of a quote are priced as the history says: by the rule of `computeQuoteAmount` from
an ask and a bid that have been obtained for its symbol. -/
def QuoteValues.PricedBy (v : QuoteValues) (ℓ : History) : Prop :=
  ∃ p, ℓ.Obtains (lookupName v.symbol) p ∧
    computeQuoteAmount v.side v.baseAmountMinor p.ask p.bid = .ok ⟨v.price, v.quoteAmountMinor⟩

/-- Before a price is cached Binance has offered it, and before a quote is stored its prices have
been obtained. This speaks of one call only; what the cache has is related to other calls'
histories below. -/
structure History.Sourced (ℓ : History) : Prop where
  cached : ∀ ℓ₁ key p ttlMs r, ℓ₁ ++ [.ext (S := sig) (.redisSet key (.price p) ttlMs) r] <+: ℓ →
    ∃ symbol, key = priceCacheKey symbol ∧ History.Offers ℓ₁ symbol p
  stored : ∀ (ℓ₁ : History) v r, ℓ₁ ++ [.sql (S := sig) (.insertQuote v) r] <+: ℓ → v.PricedBy ℓ₁

/-- The acts that neither cache a price nor store a quote: all but two kinds. For a service without
those there is nothing to show. -/
def Act.Unpriced : Act sig → Prop
  | .ext (.redisSet _ (.price _) _) | .sql (.insertQuote _) => False
  | _ => True

/-- A history in which nothing has happened is sourced. -/
theorem History.Sourced.start : History.Sourced [] where
  cached _ _ _ _ _ h := absurd (List.prefix_nil.mp h) (by simp)
  stored _ _ _ h := absurd (List.prefix_nil.mp h) (by simp)

/-- What a sourced history begins with is sourced: a store was preceded by its offer, whatever came
after. -/
theorem History.Sourced.of_prefix {ℓ ℓ' : History} (h : ℓ'.Sourced) (hℓ : ℓ <+: ℓ') :
    ℓ.Sourced where
  cached ℓ₁ key p ttlMs r hm := h.cached ℓ₁ key p ttlMs r (hm.trans hℓ)
  stored ℓ₁ v r hm := h.stored ℓ₁ v r (hm.trans hℓ)

/-- One more event keeps a history sourced if, in case it caches a price or stores a quote, the
price has been offered or obtained before. -/
theorem History.Sourced.concat {ℓ : History} (h : ℓ.Sourced) (ev : Event sig JsError)
    (hcached : ∀ key p ttlMs r, ev = .ext (.redisSet key (.price p) ttlMs) r →
      ∃ symbol, key = priceCacheKey symbol ∧ ℓ.Offers symbol p)
    (hstored : ∀ v r, ev = .sql (.insertQuote v) r → v.PricedBy ℓ) :
    History.Sourced (ℓ ++ [ev]) where
  cached ℓ₁ key p ttlMs r hm := by
    rcases List.prefix_concat_iff.mp hm with heq | hm
    · obtain ⟨rfl, hev⟩ := List.append_inj' heq rfl
      exact hcached key p ttlMs r (List.head_eq_of_cons_eq hev).symm
    · exact h.cached ℓ₁ key p ttlMs r hm
  stored ℓ₁ v r hm := by
    rcases List.prefix_concat_iff.mp hm with heq | hm
    · obtain ⟨rfl, hev⟩ := List.append_inj' heq rfl
      exact hstored v r (List.head_eq_of_cons_eq hev).symm
    · exact h.stored ℓ₁ v r hm

/-- An act that neither caches a price nor stores a quote keeps a history sourced. The two other
kinds are where the services are looked at. -/
theorem History.Sourced.unpriced {ℓ : History} (h : ℓ.Sourced) (ev : Event sig JsError)
    (hev : Act.Unpriced ev.act) : History.Sourced (ℓ ++ [ev]) := by
  refine h.concat ev (fun key p ttlMs r heq => ?_) fun v r heq => ?_
  · rw [heq] at hev
    exact hev.elim
  · rw [heq] at hev
    exact hev.elim

/-- Acts that neither cache a price nor store a quote keep a history sourced. -/
theorem History.Sourced.append {ℓ ℓ₁ : History} (h : ℓ.Sourced)
    (h₁ : ∀ ev ∈ ℓ₁, Act.Unpriced ev.act) : History.Sourced (ℓ ++ ℓ₁) := by
  induction ℓ₁ using List.reverseRecOn with
  | nil => rwa [List.append_nil]
  | append_singleton ℓ₁ ev ih =>
    rw [← List.append_assoc]
    exact (ih fun ev' hm => h₁ ev' (List.mem_append_left _ hm)).unpriced ev
      (h₁ ev List.mem_concat_self)

/-! ## The acts of the services -/

/-- A program of such acts keeps a history sourced, whatever it is answered. So four of the
services are done at once. -/
theorem Acts.sourced {α : Type} {x : App α} (hx : x.Acts Act.Unpriced) {ℓ : History}
    (h : ℓ.Sourced) : x.Yields (.free backend) (fun ℓ' _ => ℓ <+: ℓ' ∧ History.Sourced ℓ') ℓ := by
  refine (hx.yields fun _ _ => trivial).mono ?_
  rintro _ _ ⟨ℓ₁, rfl, h₁⟩
  exact ⟨List.prefix_append _ _, h.append h₁⟩

omit [DecimalJs] in
/-- A lookup of the split caches the split and no price. -/
theorem getSymbolBreakdown_unpriced (symbol : String) :
    (getSymbolBreakdown symbol).Acts Act.Unpriced := by
  unfold getSymbolBreakdown
  refine (failSoft_acts (Prog.acts_request trivial)).bind fun cached => ?_
  split
  · trivial
  refine (mapBinanceErrors_acts ?_).bind fun _ =>
    (failSoft_acts (Prog.acts_request trivial)).bind fun _ => trivial
  refine Prog.Acts.bind ((fetch_acts trivial _).bind fun infos => ?_) fun _ => trivial
  split <;> trivial

omit [DecimalJs] in
/-- Of the statements only the one that inserts a quote stores a price. All others pass through
`Acts.sourced` unseen. -/
theorem unpriced_sql (s : Stmt) (h : ∀ v, s ≠ .insertQuote v) : Act.Unpriced (.sql s) := by
  cases s with
  | insertQuote v => exact h v rfl
  | _ => trivial

omit [DecimalJs] in
/-- A trade copies the price of its quote; it neither caches one nor stores a quote. -/
theorem executeWithinTransaction_unpriced (clientId : Uuid) (quoteId key : String) :
    (TradingService.executeWithinTransaction clientId quoteId key).Acts Act.Unpriced := by
  refine (query_acts unpriced_sql (by simp)).bind fun row =>
    Prog.Acts.bind (show (App.ofExcept _).Acts Act.Unpriced from trivial) fun quote => ?_
  split
  · trivial
  refine Prog.Acts.bind (show (App.dateNow).Acts Act.Unpriced from Prog.acts_request trivial)
    fun now => ?_
  split
  · trivial
  exact (lockBalanceRows_acts unpriced_sql _ _).bind fun lock =>
    Prog.Acts.bind (show (App.uuidv4).Acts Act.Unpriced from
      Prog.acts_request trivial) fun tradeId =>
      (debit_acts unpriced_sql _ _).bind fun _ => (credit_acts unpriced_sql _ _).bind fun _ =>
        (query_acts unpriced_sql (by simp)).bind fun _ =>
          (query_acts unpriced_sql (by simp)).bind fun _ => trivial

omit [DecimalJs] in
/-- `loadQuote` caches a quote that is stored, but no price of its own. -/
theorem loadQuote_unpriced (id : String) : (QuotingService.loadQuote id).Acts Act.Unpriced := by
  unfold QuotingService.loadQuote
  refine (failSoft_acts (Prog.acts_request trivial)).bind fun cached => ?_
  split
  · exact Prog.Acts.bind (show (App.ofExcept _).Acts Act.Unpriced from trivial) fun _ => trivial
  refine (query_acts unpriced_sql (by simp)).bind fun row => ?_
  split
  · trivial
  refine Prog.Acts.bind (show (App.dateNow).Acts Act.Unpriced from Prog.acts_request trivial)
    fun now => ?_
  dsimp only
  split
  · exact (failSoft_acts (Prog.acts_request trivial)).bind fun _ => trivial
  · trivial

/-- The seed run posts entries; it caches nothing and makes no quote. -/
theorem seedBody_unpriced : seedBody.Acts Act.Unpriced := by
  unfold seedBody
  refine (Prog.acts_request trivial).bind fun id =>
    (query_acts unpriced_sql (by simp)).bind fun inserted => ?_
  cases inserted with
  | none => trivial
  | some client =>
    refine Prog.Acts.bind (forM_acts fun fund => ?_) fun _ => trivial
    exact Prog.Acts.bind (show (App.ofExcept _).Acts Act.Unpriced from trivial) fun amountMinor =>
      (query_acts unpriced_sql (by simp)).bind fun _ => query_acts unpriced_sql (by simp)

/-- Only two calls cache prices or store quotes: `getPrice` and `createQuote`, which asks for the
price of its symbol. -/
theorem program_unpriced {c : Call} (hprice : ∀ symbol, c ≠ .getPrice symbol)
    (hquote : ∀ clientId dto, c ≠ .createQuote clientId dto) :
    (program c).Acts Act.Unpriced := by
  have hresponse : ∀ {α : Type} {x : App α} {f : α → Response}, x.Acts Act.Unpriced →
      (x.bind fun a => .done (.ok (f a))).Acts Act.Unpriced := fun hx => hx.bind fun _ => trivial
  cases c with
  | seed => exact hresponse (Prog.acts_transaction trivial trivial trivial seedBody_unpriced)
  | getBalances clientId => exact hresponse (getBalances_acts unpriced_sql clientId)
  | createDeposit clientId dto =>
    refine hresponse ?_
    unfold BalancesService.createDeposit
    cases toMinorUnits (.text dto.amount) with
    | error e => trivial
    | ok amountMinor =>
      simp only [Prog.bind_eq, Prog.pure_eq, Prog.bind_ok]
      split
      · trivial
      refine Prog.Acts.bind (show (App.uuidv4).Acts Act.Unpriced from Prog.acts_request trivial)
        fun depositId => ?_
      exact (Prog.acts_transaction trivial trivial trivial
        (depositBody_acts unpriced_sql clientId dto.currency amountMinor depositId)).bind
        fun _ => getBalances_acts unpriced_sql clientId
  | getPrice symbol => exact absurd rfl (hprice symbol)
  | createQuote clientId dto => exact absurd rfl (hquote clientId dto)
  | getQuoteById clientId id =>
    exact hresponse ((loadQuote_unpriced id).bind fun _ =>
      Prog.Acts.bind (show (App.ofExcept _).Acts Act.Unpriced from trivial) fun _ =>
        (Prog.acts_request trivial).bind fun _ => trivial)
  | executeTrade clientId dto key =>
    refine hresponse ((query_acts unpriced_sql (by simp)).bind fun found => ?_)
    cases found with
    | some existing => trivial
    | none =>
      refine (Prog.acts_transaction trivial trivial trivial
        (executeWithinTransaction_unpriced clientId dto.quoteId _)).attempt.bind fun row => ?_
      cases row with
      | ok row => exact (failSoft_acts (Prog.acts_request trivial)).bind fun _ => trivial
      | error e =>
        refine Prog.Acts.bind trivial fun raced => ?_
        cases raced with
        | some raced => trivial
        | none => trivial

/-! ## Prices obtained -/

omit [DecimalJs] in
/-- A history that begins with `ℓ` and an event begins with `ℓ`. -/
theorem prefix_concat {ℓ ℓ' : History} {ev : Event sig JsError} (h : ℓ ++ [ev] <+: ℓ') :
    ℓ <+: ℓ' := (List.prefix_append _ _).trans h

/-- The part of `getPrice` that asks Binance: the price is offered by the answer and the reading of
the clock, before it is cached. -/
theorem fetchPrice_sourced (name : String) {ℓ : History} (h : ℓ.Sourced) :
    Prog.Yields (.free backend) (fun ℓ' r => ℓ <+: ℓ' ∧ History.Sourced ℓ' ∧
      ∀ p, r = .ok p → History.Obtains ℓ' name p) ℓ (do
        let price ← mapBinanceErrors do
          let ticker ← getBookTicker name
          return (⟨name, ticker.bidPrice, ticker.askPrice, ← App.dateNow,
            "binance"⟩ : IndicativePrice)
        let ttlMs : Nat ← App.request .priceCacheTtlMs
        RedisService.setJson (priceCacheKey name) (.price price) ttlMs
        return price) := by
  refine Prog.yields_bind.mpr (mapBinanceErrors_yields (Prog.yields_bind.mpr
    ((request_yields trivial).mono ?_)))
  rintro ℓ' r ⟨out, -, rfl, hr⟩
  have h₁ := h.unpriced (.ext (.fetch "ticker/bookTicker" name) out) trivial
  cases r with
  | error e =>
    exact .inl ⟨hr.1, fun e' _ => ⟨List.prefix_append _ _, h₁, fun p hp => (by cases hp)⟩⟩
  | ok ticker =>
    obtain ⟨outcome, rfl, hticker⟩ := hr
    refine Prog.yields_request (S := sig) trivial (fun now _ => ?_) fun e he => ?_
    swap
    · obtain rfl := broken_of_possible he fun χ e' => ⟨_, rfl⟩
      exact .inr ⟨rfl, (List.prefix_append _ _).trans (List.prefix_append _ _),
        h₁.unpriced (.ext .dateNow _) trivial, fun p hp => (by cases hp)⟩
    have h₂ := h₁.unpriced (.ext .dateNow (.ok now)) trivial
    have hoffers : History.Offers
      (ℓ ++ [.ext (S := sig) (.fetch "ticker/bookTicker" name) (.ok outcome)] ++
        [.ext (S := sig) .dateNow (.ok now)]) name
        ⟨name, ticker.bidPrice, ticker.askPrice, now, "binance"⟩ :=
      ⟨rfl, rfl, ⟨outcome, ticker, List.mem_append_left _ List.mem_concat_self, hticker, rfl, rfl⟩,
        List.mem_concat_self⟩
    have hℓ : ℓ <+: ℓ ++ [.ext (S := sig) (.fetch "ticker/bookTicker" name) (.ok outcome)] ++
        [.ext (S := sig) .dateNow (.ok now)] :=
      (List.prefix_append _ _).trans (List.prefix_append _ _)
    generalize ℓ ++ [.ext (S := sig) (.fetch "ticker/bookTicker" name) (.ok outcome)] ++
      [.ext (S := sig) .dateNow (.ok now)] = ℓ₁ at h₂ hoffers hℓ
    refine Prog.yields_request (S := sig) trivial (fun ttlMs _ => ?_) fun e he => ?_
    swap
    · exact ⟨hℓ.trans (List.prefix_append _ _), h₂.unpriced (.ext .priceCacheTtlMs _) trivial,
        fun p hp => (by cases hp)⟩
    refine Prog.yields_bind.mpr ((setJson_yields trivial).mono ?_)
    rintro ℓ' r ⟨out, rfl, rfl⟩
    have h₃ := (h₂.unpriced (.ext .priceCacheTtlMs (.ok ttlMs)) trivial).concat
      (.ext (.redisSet (priceCacheKey name)
        (.price ⟨name, ticker.bidPrice, ticker.askPrice, now, "binance"⟩) ttlMs) out)
      (fun key p ttlMs r heq => by
        cases heq
        exact ⟨name, rfl, hoffers.append _⟩)
      fun v r heq => by cases heq
    refine ⟨hℓ.trans ((List.prefix_append _ _).trans (List.prefix_append _ _)), h₃, fun p hp => ?_⟩
    cases hp
    exact .inl ((hoffers.append _).append _)

/-- The price of a symbol is obtained: from the cache, or as Binance offers it. What it puts in the
cache is what it was just offered. -/
theorem getPrice_sourced (rawSymbol : String) {ℓ : History} (h : ℓ.Sourced) :
    (getPrice rawSymbol).Yields (.free backend) (fun ℓ' r => ℓ <+: ℓ' ∧ History.Sourced ℓ' ∧
      ∀ p, r = .ok p → History.Obtains ℓ' (lookupName rawSymbol) p) ℓ := by
  let name := lookupName rawSymbol
  refine Prog.yields_bind.mpr ((getJson_yields trivial).mono ?_)
  rintro ℓ' r ⟨out, -, rfl, rfl⟩
  have h₁ := h.unpriced (.ext (.redisGet (priceCacheKey name)) out) trivial
  have hℓ : ℓ <+: ℓ ++ [.ext (S := sig) (.redisGet (priceCacheKey name)) out] :=
    List.prefix_append _ _
  have miss := (fetchPrice_sourced name h₁).mono fun ℓ' r hr => And.imp_left hℓ.trans hr
  cases out with
  | error e => exact miss
  | ok v =>
    rcases v with _ | q | p | b
    · exact miss
    · exact miss
    · refine ⟨hℓ, h₁, fun p' hp => ?_⟩
      cases hp
      exact .inr List.mem_concat_self
    · exact miss

/-- The two lookups of `createQuote` keep its history sourced, and the price they return has been
obtained for the symbol. -/
theorem promiseAll_sourced (symbol : String) {ℓ : History} (h : ℓ.Sourced) :
    (App.promiseAll (getSymbolBreakdown symbol) (getPrice symbol)).Yields (.free backend)
      (fun ℓ' r => History.Sourced ℓ' ∧
        ∀ b p, r = .ok (b, p) → History.Obtains ℓ' (lookupName symbol) p) ℓ := by
  refine Prog.yields_bind.mpr (Prog.yields_attempt.mpr
    ((Acts.sourced (getSymbolBreakdown_unpriced symbol) h).mono ?_))
  rintro ℓ₁ r₁ ⟨-, h₁⟩
  refine Prog.yields_bind.mpr (Prog.yields_attempt.mpr ((getPrice_sourced symbol h₁).mono ?_))
  rintro ℓ₂ r₂ ⟨-, h₂, hobtains⟩
  cases r₁ with
  | ok b =>
    cases r₂ with
    | ok p =>
      refine ⟨h₂, fun b' p' hp => ?_⟩
      cases hp
      exact hobtains p rfl
    | error e => exact ⟨h₂, fun _ _ hp => by cases hp⟩
  | error e =>
    cases r₂ with
    | ok p => exact ⟨h₂, fun _ _ hp => by cases hp⟩
    | error e' =>
      refine Prog.yields_request (S := sig) trivial (fun first _ => ?_) fun e'' he => ?_
      · cases first <;> exact ⟨h₂.unpriced (.ext .firstRejects _) trivial,
          fun _ _ hp => by cases hp⟩
      · exact ⟨h₂.unpriced (.ext .firstRejects _) trivial, fun _ _ hp => by cases hp⟩

/-- `createQuote` stores its quote at prices that it has obtained before, for the symbol of the
quote. -/
theorem createQuote_sourced (clientId : Uuid) (dto : CreateQuoteDto) :
    (QuotingService.createQuote clientId dto).Yields (.free backend) (fun ℓ _ => History.Sourced ℓ)
      [] := by
  unfold QuotingService.createQuote
  cases toMinorUnits (.text dto.baseAmount) with
  | error e => exact .start
  | ok baseAmountMinor =>
    simp only [Prog.bind_eq, Prog.pure_eq, Prog.bind_ok]
    split
    · exact .start
    refine Prog.yields_bind.mpr ((promiseAll_sourced _ .start).mono ?_)
    rintro ℓ r ⟨h, hobtains⟩
    cases r with
    | error e => exact h
    | ok found =>
      obtain ⟨b, p⟩ := found
      have hobtains := hobtains b p rfl
      cases ha : computeQuoteAmount dto.side baseAmountMinor p.ask p.bid with
      | error e =>
        simp only [ha, App.ofExcept, Prog.bind_error]
        exact h
      | ok a =>
        simp only [ha, App.ofExcept, Prog.bind_ok]
        split
        · exact h
        refine Prog.yields_request (S := sig) trivial (fun now _ => ?_) fun e he => ?_
        swap
        · exact h.unpriced (.ext .dateNow _) trivial
        replace h := h.unpriced (.ext .dateNow (.ok now)) trivial
        split
        · exact h
        · next expiresAt _ =>
          refine Prog.yields_request (S := sig) trivial (fun id _ => ?_) fun e he => ?_
          swap
          · exact h.unpriced (.ext .genRandomUuid _) trivial
          replace h := h.unpriced (.ext .genRandomUuid (.ok id)) trivial
          have hstored : ∀ r, History.Sourced _ := fun r => h.concat
            (.sql (.insertQuote (dto.values clientId b baseAmountMinor a id expiresAt)) r)
            (fun _ _ _ _ heq => by cases heq) fun v r heq => by
              cases heq
              exact ⟨p, (hobtains.append _).append _, ha⟩
          refine Prog.yields_query (S := sig) (fun row _ => ?_) fun e _ => hstored _
          refine (Acts.sourced ?_ (hstored (.ok row))).mono fun _ _ hr => hr.2
          exact (failSoft_acts (Prog.acts_request trivial)).bind fun _ =>
            (Prog.acts_request trivial).bind fun _ => trivial

/-- Every call keeps its history sourced, and a price that it shows has been obtained for the
symbol it was asked for. -/
theorem program_sourced (c : Call) : (program c).Yields (.free backend) (fun ℓ r =>
    History.Sourced ℓ ∧ ∀ symbol p, c = .getPrice symbol → r = .ok (.price p) →
      History.Obtains ℓ (lookupName symbol) p) [] := by
  by_cases hprice : ∃ symbol, c = .getPrice symbol
  · obtain ⟨symbol, rfl⟩ := hprice
    refine Prog.yields_bind.mpr ((getPrice_sourced symbol .start).mono ?_)
    rintro ℓ r ⟨-, h, hobtains⟩
    cases r with
    | error e => exact ⟨h, fun _ _ _ hr => by cases hr⟩
    | ok p =>
      refine ⟨h, fun _ _ hc hr => ?_⟩
      cases hc
      cases hr
      exact hobtains p rfl
  have hno : ∀ symbol, c ≠ .getPrice symbol := fun symbol hc => hprice ⟨symbol, hc⟩
  by_cases hquote : ∃ clientId dto, c = .createQuote clientId dto
  · obtain ⟨clientId, dto, rfl⟩ := hquote
    refine Prog.yields_bind.mpr ((createQuote_sourced clientId dto).mono fun ℓ r h => ?_)
    cases r <;> exact ⟨h, fun symbol _ hc => absurd hc (hno symbol)⟩
  · refine (Acts.sourced (program_unpriced hno fun clientId dto hc => hquote ⟨clientId, dto, hc⟩)
      .start).mono fun ℓ r h => ⟨h.2, fun symbol _ hc => absurd hc (hno symbol)⟩

/-! ## Prices in the system -/

/-- Binance has offered some call this price of the symbol, at some time before. The offer stands
in that call's history. -/
def Sys.Offered (s : Sys) (symbol : String) (p : IndicativePrice) : Prop :=
  ∃ t ∈ s.threads, History.Offers t.log symbol p

/-- The amount and the price are what the pricing rule makes of a price that Binance has offered
for the symbol. It need not be the latest one: prices are cached. -/
def Sys.Prices (s : Sys) (symbol : String) (side : TradeSide) (baseAmountMinor : Int)
    (amount : QuoteAmount) : Prop :=
  ∃ p, s.Offered (lookupName symbol) p ∧
    computeQuoteAmount side baseAmountMinor p.ask p.bid = .ok amount

variable {clients : List ClientRow} {e : Surroundings} {s s' : Sys}

omit [DecimalJs] in
/-- What was offered to a call stays so while histories only go on. -/
theorem Sys.Offered.of_thread {symbol : String} {p : IndicativePrice}
    (h : s.Offered symbol p) (hthreads : ∀ t ∈ s.threads, ∃ t' ∈ s'.threads, t.log <+: t'.log) :
    s'.Offered symbol p := by
  obtain ⟨t, ht, hoffers⟩ := h
  obtain ⟨t', ht', ℓ', hlog⟩ := hthreads t ht
  exact ⟨t', ht', hlog ▸ hoffers.append ℓ'⟩

/-- An offer stands in the next state: the thread that got it has it in its history still. -/
theorem Sys.Offered.step {symbol : String} {p : IndicativePrice} {l : Label backend Call}
    (h : s.Offered symbol p) (hst : s.step program l = some s') : s'.Offered symbol p := by
  refine h.of_thread fun t ht => ?_
  obtain ⟨i, hi⟩ := List.getElem?_of_mem ht
  obtain ⟨t', hi', -, hlog⟩ := State.step_thread hst hi
  exact ⟨t', List.mem_of_getElem? hi', hlog⟩

/-- A price that goes back to an offer does so in every later step. -/
theorem Sys.Prices.step {symbol : String} {side : TradeSide} {n : Int} {amount : QuoteAmount}
    {l : Label backend Call} (h : s.Prices symbol side n amount)
    (hst : s.step program l = some s') : s'.Prices symbol side n amount :=
  h.imp fun _ h => ⟨h.1.step hst, h.2⟩

/-- In every state of every run the histories are sourced. A call that is under way is covered, as
its history goes on to one of its program. -/
theorem sourced_of_reaches (h : State.Reaches program (Sys.start clients e) s)
    {t : Thread backend Call Response} (ht : t ∈ s.threads) : History.Sourced t.log := by
  obtain ⟨ℓ, r, hℓ, hsourced, -⟩ := h.goes_on program_sourced rfl ht
  exact hsourced.of_prefix hℓ

/-- What is cached as a price has been offered: the call that has set the entry had been offered
it, by its sourced history. -/
theorem offered_of_cache (hcache : ∀ key, e.cache key = none)
    (h : State.Reaches program (Sys.start clients e) s) {key : String} {entry : CacheEntry}
    {p : IndicativePrice} (hentry : s.env.cache key = some entry) (hp : entry.value = .price p) :
    ∃ symbol, key = priceCacheKey symbol ∧ s.Offered symbol p := by
  obtain ⟨t, ht, ttlMs, r, hm⟩ := set_of_cache hcache h hentry
  rw [hp] at hm
  obtain ⟨ℓ₁, ℓ₂, hlog⟩ := List.append_of_mem hm
  have hprefix : ℓ₁ ++ [.ext (S := sig) (.redisSet key (.price p) ttlMs) r] <+: t.log :=
    ⟨ℓ₂, by rw [hlog, List.append_assoc]; rfl⟩
  obtain ⟨symbol, hkey, hoffers⟩ := (sourced_of_reaches h ht).cached ℓ₁ key p ttlMs r hprefix
  obtain ⟨ℓ', hlog⟩ := prefix_concat hprefix
  exact ⟨symbol, hkey, t, ht, hlog ▸ hoffers.append ℓ'⟩

/-- What is read from the cache as a price has been offered, as the entry that is read was in the
cache at the moment of the read. -/
theorem offered_of_read (hcache : ∀ key, e.cache key = none)
    (h : State.Reaches program (Sys.start clients e) s) : ∀ t ∈ s.threads, ∀ symbol p,
      Event.ext (S := sig) (.redisGet (priceCacheKey symbol)) (.ok (some (.price p))) ∈ t.log →
        s.Offered symbol p := by
  refine (h.invariant (I := fun u => State.Reaches program (Sys.start clients e) u ∧
    ∀ t ∈ u.threads, ∀ symbol p,
      Event.ext (S := sig) (.redisGet (priceCacheKey symbol)) (.ok (some (.price p))) ∈ t.log →
        Sys.Offered u symbol p) ⟨.refl _, fun t ht => (by cases ht)⟩ ?_).2
  rintro u l u' ⟨hu, hreads⟩ hst
  refine ⟨hu.tail hst, fun t' ht' symbol p hm => ?_⟩
  have hold : ∀ t ∈ u.threads,
      Event.ext (S := sig) (.redisGet (priceCacheKey symbol)) (.ok (some (.price p))) ∈ t.log →
        Sys.Offered u' symbol p := fun t ht hm => (hreads t ht symbol p hm).step hst
  rcases State.step_cases hst with ⟨c, -, rfl⟩ | ⟨χ, -, rfl⟩ | ⟨i, t, hi, hmove⟩
  · rcases List.mem_append.mp ht' with ht' | ht'
    · exact hold t' ht' hm
    · rw [List.mem_singleton.mp ht'] at hm
      cases hm
  · exact hold t' ht' hm
  have ht := List.mem_of_getElem? hi
  have hacts : ∀ {pr ev w}, u.Acts t ev w → t' ∈ u.threads.set i ⟨t.call, pr, t.log ++ [ev], w.tx⟩ →
      Sys.Offered u' symbol p := by
    intro pr ev w hw ht'
    rcases List.mem_or_eq_of_mem_set ht' with ht' | rfl
    · exact hold t' ht' hm
    rcases List.mem_append.mp hm with hm | hm
    · exact hold t ht hm
    obtain rfl := List.mem_singleton.mp hm
    obtain ⟨entry, hentry, hvalue⟩ := entry_of_act hw
    obtain ⟨symbol', hkey, hoffered⟩ := offered_of_cache hcache hu hentry hvalue
    obtain rfl := priceCacheKey_inj.mp hkey
    exact Sys.Offered.step hoffered hst
  cases hmove with
  | @run χ out _ hout => exact hacts (.run hout) ht'
  | @interrupt out hout => exact hacts (.interrupt hout) ht'
  | crash =>
    rcases List.mem_or_eq_of_mem_set ht' with ht' | rfl
    · exact hold t' ht' hm
    · exact hold t ht hm

/-- A price that a call has obtained was offered by Binance to some call: to itself, or to the one
that put it in the cache. -/
theorem offered_of_obtains (hcache : ∀ key, e.cache key = none)
    (h : State.Reaches program (Sys.start clients e) s) {t : Thread backend Call Response}
    (ht : t ∈ s.threads) {ℓ : History} (hℓ : ℓ <+: t.log) {symbol : String} {p : IndicativePrice}
    (hp : ℓ.Obtains symbol p) : s.Offered symbol p := by
  obtain ⟨ℓ', hlog⟩ := hℓ
  have hp := hlog ▸ hp.append ℓ'
  rcases hp with hp | hp
  · exact ⟨t, ht, hp⟩
  · exact offered_of_read hcache h t ht symbol p hp

/-! ## Prices in the tables -/

/-- The quotes in the tables are priced by what Binance has offered: an invariant of the system,
from which the trades follow, since they copy their quotes. -/
def Sys.QuotesPriced (s : Sys) : Prop :=
  ∀ q ∈ s.data.quotes, s.Prices q.symbol q.side q.baseAmountMinor ⟨q.price, q.quoteAmountMinor⟩

/-- What becomes of the quotes in one act: each was there before, as it is or not yet executed, or
is the one that the act has inserted. -/
theorem quotes_of_act {u : Sys} {i : Nat} {t : Thread backend Call Response}
    {ev : Event sig JsError}
    {w : World backend}
    (hu : Isolated isolation rely (fun _ => obligationsOf) (fun _ => answers) u)
    (hi : u.threads[i]? = some t) (hw : u.Acts t ev w) {q : QuoteRow Timestamp}
    (hq : q ∈ w.data.quotes) :
      (∃ q₀ ∈ u.data.quotes, q = q₀ ∨ q = { q₀ with status := .EXECUTED }) ∨
      ∃ v r expiresAt createdAt, ev = .sql (.insertQuote v) (.ok r) ∧
        q = v.row expiresAt createdAt := by
  rcases hw.data with hdata | rfl | ⟨htx, st, χ, r, ws, rfl, hx, hdata⟩
  · rw [hdata] at hq
    exact .inl ⟨q, hq, .inl rfl⟩
  · obtain ⟨tx, -, hcommit, hdata⟩ := hw.commit hu hi
    obtain ⟨eff, -, happly, hby⟩ := hcommit.2.effect
    rw [hdata] at hq
    replace hq : q ∈ (u.data.after tx.writes).quotes := hq
    rw [show u.data.after tx.writes = eff.apply u.data from happly] at hq
    cases eff with
    | nothing => exact .inl ⟨q, hq, .inl rfl⟩
    | quote row => cases hby
    | deposit | seed => exact .inl ⟨q, by simpa [Effect.apply, Write.apply] using hq, .inl rfl⟩
    | trade x tradeId key createdAt =>
      rw [quotes_trade] at hq
      obtain ⟨q₀, hq₀, rfl⟩ := List.mem_map.mp hq
      refine .inl ⟨q₀, hq₀, ?_⟩
      split
      · exact .inr rfl
      · exact .inl rfl
  obtain ⟨k, -, -, hp, -, -⟩ := hw.sql_ok
  have houtside : Alone st := by
    obtain ⟨tx, htx', -⟩ | ⟨-, houtside⟩ := hu.sql hi hp
    · cases htx.symm.trans htx'
    · exact houtside.1
  have hx : exec (backend.stamp u.env) u.data st = .ok (r, ws) := hx
  have hsame : ws = [] → ∃ q₀ ∈ u.data.quotes, q = q₀ ∨ q = { q₀ with status := .EXECUTED } := by
    rintro rfl
    rw [hdata] at hq
    exact ⟨q, hq, .inl rfl⟩
  cases st with
  | insertQuote v =>
    obtain ⟨-, expiresAt, -, -, -, -, -, -, rfl⟩ := exec_insertQuote.mp hx
    rw [hdata] at hq
    rcases List.mem_append.mp hq with hq | hq
    · exact .inl ⟨q, hq, .inl rfl⟩
    · exact .inr ⟨v, r, expiresAt, _, rfl, List.mem_singleton.mp hq⟩
  | selectQuote id =>
    obtain ⟨-, -, -, hws⟩ := exec_selectQuote.mp hx
    exact .inl (hsame hws)
  | selectTradeByKey c key => exact .inl (hsame (exec_selectTradeByKey.mp hx).2)
  | selectBalances c => exact .inl (hsame (exec_selectBalances.mp hx).2)
  | _ => exact houtside.elim

/-- In every state of every run the quotes are priced by what Binance has offered. By induction on
the run: a quote comes with an insert, and its price was obtained. -/
theorem quotesPriced_of_reaches (hcache : ∀ key, e.cache key = none)
    (h : State.Reaches program (Sys.start clients e) s) : s.QuotesPriced := by
  refine (h.invariant (I := fun u => State.Reaches program (Sys.start clients e) u ∧
    Sys.QuotesPriced u) ⟨.refl _, fun q hq => (by cases hq)⟩ ?_).2
  rintro u l u' ⟨hu, hpriced⟩ hst
  have hu' := hu.tail hst
  refine ⟨hu', ?_⟩
  have hkeep : ∀ q ∈ u.data.quotes,
      Sys.Prices u' q.symbol q.side q.baseAmountMinor ⟨q.price, q.quoteAmountMinor⟩ :=
    fun q hq => (hpriced q hq).step hst
  rcases State.step_cases hst with ⟨c, -, rfl⟩ | ⟨χ, -, rfl⟩ | ⟨i, t, hi, hmove⟩
  · exact hkeep
  · exact hkeep
  have hlt : i < u.threads.length := (List.getElem?_eq_some_iff.mp hi).1
  have hacts : ∀ {p ev w}, u.Acts t ev w → u' = u.resume i t (p, ev, w) → Sys.QuotesPriced u' := by
    rintro p ev w hw rfl q hq
    rcases quotes_of_act (isolated_of_reaches hu) hi hw hq with
      ⟨q₀, hq₀, rfl | rfl⟩ | ⟨v, r, expiresAt, createdAt, rfl, rfl⟩
    · exact hkeep _ hq₀
    · exact hkeep q₀ hq₀
    have ht' := List.mem_set hlt (⟨t.call, p, t.log ++ [.sql (.insertQuote v) (.ok r)], w.tx⟩ :
      Thread backend Call Response)
    obtain ⟨price, hobtains, hamount⟩ :=
      (sourced_of_reaches hu' ht').stored t.log v _ (List.prefix_refl _)
    exact ⟨price, offered_of_obtains hcache hu' ht' (List.prefix_append _ _) hobtains, hamount⟩
  cases hmove with
  | @run χ out _ hout => exact hacts (.run hout) rfl
  | @interrupt out hout => exact hacts (.interrupt hout) rfl
  | crash => exact hkeep

/-- **Prices come from Binance.** Whatever calls are in progress, and however their acts interleave,
fail and crash, starting from an empty cache: what is cached as a price, what a call is shown as the
price of a symbol, and what the amounts of quotes and of trades were computed from, Binance has
offered to some call as the price of that symbol. -/
theorem prices_of_binance (hcache : ∀ key, e.cache key = none)
    (h : State.Reaches program (Sys.start clients e) s) :
    (∀ key entry p, s.env.cache key = some entry → entry.value = .price p →
      ∃ symbol, key = priceCacheKey symbol ∧ s.Offered symbol p) ∧
    (∀ t ∈ s.threads, ∀ symbol p, t.call = .getPrice symbol →
      t.result? = some (.ok (.price p)) → s.Offered (lookupName symbol) p) ∧
    (∀ q ∈ s.data.quotes,
      s.Prices q.symbol q.side q.baseAmountMinor ⟨q.price, q.quoteAmountMinor⟩) ∧
    ∀ t ∈ s.data.trades, s.Prices t.symbol t.side t.baseAmountMinor
      ⟨t.price, t.quoteAmountMinor⟩ := by
  refine ⟨fun key entry p => offered_of_cache hcache h, fun t ht symbol p hc hr => ?_,
    quotesPriced_of_reaches hcache h, fun t ht => ?_⟩
  · obtain hlost | hended := h.yields program_sourced rfl trivial trivial
      (fun _ _ _ _ => trivial) ht hr
    · cases hlost
    · exact offered_of_obtains hcache h ht (List.prefix_refl _) (hended.2 symbol p hc rfl)
  · obtain ⟨q, hq, -, hcopies⟩ := (records_of_reaches h).executed t ht
    have hpriced := quotesPriced_of_reaches hcache h q hq
    rwa [hcopies.symbol, hcopies.side, hcopies.baseAmountMinor, hcopies.price,
      hcopies.quoteAmountMinor]

end

section
open scoped Reference

/-- Alice's trade, at the ask that Binance offered: the quote amount of the trade is her base
amount at that price. -/
theorem prices_of_binance_traded :
    Sample.traded.Prices "BTCUSDT" .BUY 1000000 ⟨"50001", 50001000000⟩ :=
  (prices_of_binance (fun _ => rfl) (Sample.reached (by decide +kernel))).2.2.2 Sample.trade
    (show Sample.trade ∈ Sample.traded.data.trades by decide +kernel)

end

end MiniOpenFX
