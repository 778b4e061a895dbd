import MiniOpenFX.Transactional.Traces
import MiniOpenFX.System

/-!
# What the pricing service brings

The answers of the cache and of Binance, as the history of a call tells them: `splitOf?` and
`pricesOf?` are what an event brings for a symbol. The pricing service returns what its history
brings first, and where it brings nothing it throws an exception of HTTP
(`getSymbolBreakdown_yields`, `getPrice_yields`).
-/

namespace MiniOpenFX

open Js Transactional BinanceClient PricingService

/-! ## Events -/

/-- The exceptions that classify what Binance did: a symbol it does not know, an answer that is no
use, no answer in time. -/
inductive Refused : JsError → Prop
  | badRequest (message : String) : Refused (.badRequestException message)
  | badGateway (message : String) : Refused (.badGatewayException message)
  | gatewayTimeout (message : String) : Refused (.gatewayTimeoutException message)

/-- The body of a successful response. -/
def FetchOutcome.body? : FetchOutcome → Option Json
  | .response status body => if 200 ≤ status ∧ status ≤ 299 then body else none
  | .aborted | .failed => none

/-- The two currencies of a symbol, if the event brings them: from the cache, or as the first of
Binance's answer. -/
def splitOf? (symbol : String) : Event sig JsError → Option SymbolBreakdown
  | .ext (.redisGet key) (.ok (some (.breakdown b))) =>
    if key = symbolCacheKey symbol then some b else none
  | .ext (.fetch endpoint s) (.ok outcome) =>
    if endpoint = "exchangeInfo" ∧ s = symbol then
      ((outcome.body?.bind exchangeInfo?).bind List.head?).map fun info =>
        ⟨info.baseAsset, info.quoteAsset⟩
    else none
  | _ => none

/-- The ask and the bid of a symbol, if the event brings them, from the cache or from Binance. What
is read of a history so does not depend on which of the two it was. -/
def pricesOf? (symbol : String) : Event sig JsError → Option (String × String)
  | .ext (.redisGet key) (.ok (some (.price p))) =>
    if key = priceCacheKey symbol then some (p.ask, p.bid) else none
  | .ext (.fetch endpoint s) (.ok outcome) =>
    if endpoint = "ticker/bookTicker" ∧ s = symbol then
      (outcome.body?.bind bookTicker?).map fun ticker => (ticker.askPrice, ticker.bidPrice)
    else none
  | _ => none

/-- A stored quote: the row that the insert has returned. -/
def inserted? : Event sig JsError → Option (QuoteRow Date)
  | .sql (.insertQuote _) (.ok row) => some row
  | _ => none

/-! ## Binance -/

/-- The errors of the Binance client. -/
inductive OfBinance : JsError → Prop
  | unknownSymbol (message : String) : OfBinance (.binanceUnknownSymbolError message)
  | timeout (message : String) : OfBinance (.binanceTimeoutError message)
  | unavailable (message : String) : OfBinance (.binanceUnavailableError message)

section
variable {W : Setting backend} {ℓ : List (Event sig JsError)}

/-- The one event of a request to Binance, and what comes of it: a body of the shape that is asked
for, or an error of the client. -/
theorem request_yields {T : Type} {endpoint symbol : String} {validShape? : Json → Option T}
    (hasks : W.asks (.fetch endpoint symbol)) :
    (BinanceClient.request endpoint symbol validShape?).Yields W (fun ℓ' r => ∃ out,
      Event.Possible W (.ext (.fetch endpoint symbol) out) ∧
      ℓ' = ℓ ++ [.ext (.fetch endpoint symbol) out] ∧ match r with
        | .ok a => ∃ outcome, out = .ok outcome ∧ outcome.body?.bind validShape? = some a
        | .error e => OfBinance e ∧ ∀ outcome, out = .ok outcome →
          outcome.body?.bind validShape? = none) ℓ := by
  refine ⟨hasks, fun r hr => ?_⟩
  cases r with
  | error e => exact ⟨_, hr, rfl, .unavailable _, fun _ h => nomatch h⟩
  | ok outcome =>
    cases outcome with
    | aborted => exact ⟨_, hr, rfl, .timeout _, fun _ h => by cases h; rfl⟩
    | failed => exact ⟨_, hr, rfl, .unavailable _, fun _ h => by cases h; rfl⟩
    | response status body =>
      change Prog.Yields W _ _ (if status = 400 then _ else if ¬
        (200 ≤ status ∧ status ≤ 299) then _
        else _)
      by_cases h400 : status = 400
      · subst h400
        exact ⟨_, hr, rfl, .unknownSymbol _, fun _ h => by cases h; rfl⟩
      · rw [if_neg h400]
        by_cases hok : 200 ≤ status ∧ status ≤ 299
        · rw [if_neg (not_not.mpr hok)]
          have hbody : (FetchOutcome.response status body).body? = body := if_pos hok
          cases body with
          | none => exact ⟨_, hr, rfl, .unavailable _, fun _ h => by cases h; rw [hbody]; rfl⟩
          | some body =>
            dsimp only
            cases hvalid : validShape? body with
            | none =>
              exact ⟨_, hr, rfl, .unavailable _, fun _ h => by cases h; rw [hbody]; exact hvalid⟩
            | some a => exact ⟨_, hr, rfl, _, rfl, by rw [hbody]; exact hvalid⟩
        · rw [if_pos hok]
          have hbody : (FetchOutcome.response status body).body? = none := if_neg hok
          exact ⟨_, hr, rfl, .unavailable _, fun _ h => by cases h; rw [hbody]; rfl⟩

/-- `getSymbolInfo` asks Binance once, and returns the first symbol of a listing that it can read
or throws an error of the Binance client. -/
theorem getSymbolInfo_yields {symbol : String} (hasks : W.asks (.fetch "exchangeInfo" symbol)) :
    (getSymbolInfo symbol).Yields W (fun ℓ' r => ∃ out,
      Event.Possible W (.ext (.fetch "exchangeInfo" symbol) out) ∧
      ℓ' = ℓ ++ [.ext (.fetch "exchangeInfo" symbol) out] ∧ match r with
        | .ok info => ∃ outcome, out = .ok outcome ∧
          (outcome.body?.bind exchangeInfo?).bind List.head? = some info
        | .error e => OfBinance e ∧ ∀ outcome, out = .ok outcome →
          (outcome.body?.bind exchangeInfo?).bind List.head? = none) ℓ := by
  refine Prog.yields_bind.mpr ((request_yields hasks).mono ?_)
  rintro ℓ' r ⟨out, hpossible, rfl, hr⟩
  cases r with
  | error e => exact ⟨out, hpossible, rfl, hr.1, fun outcome ho => by rw [hr.2 outcome ho]; rfl⟩
  | ok symbols =>
    obtain ⟨outcome, rfl, hsymbols⟩ := hr
    cases symbols with
    | nil => exact ⟨_, hpossible, rfl, .unknownSymbol _, fun _ h => by cases h; rw [hsymbols]; rfl⟩
    | cons info rest => exact ⟨_, hpossible, rfl, _, rfl, by rw [hsymbols]; rfl⟩

/-- The errors of the Binance client become exceptions, and no others. A lost connection passes
through. -/
theorem mapBinanceErrors_yields {T : Type} {fn : App T}
    {Q : List (Event sig JsError) → Except JsError T → Prop}
    (h : fn.Yields W (fun ℓ' r => match r with
      | .ok a => Q ℓ' (.ok a)
      | .error e => OfBinance e ∧ (∀ e', Refused e' → Q ℓ' (.error e')) ∨
        e = .connectionError ∧ Q ℓ' (.error e)) ℓ) :
    (mapBinanceErrors fn).Yields W Q ℓ := by
  refine Prog.yields_bind.mpr (Prog.yields_attempt.mpr (h.mono fun ℓ' r hr => ?_))
  cases r with
  | ok a => exact hr
  | error e =>
    rcases hr with ⟨he, hQ⟩ | ⟨rfl, hQ⟩
    · cases he with
      | unknownSymbol message => exact hQ _ (.badRequest message)
      | timeout message => exact hQ _ (.gatewayTimeout message)
      | unavailable message => exact hQ _ (.badGateway message)
    · exact hQ

/-! ## Redis -/

/-- `getJson` reads the key once, and returns nothing where that fails: to the service a broken
Redis looks like an empty one. -/
theorem getJson_yields {key : String} (hasks : W.asks (.redisGet key)) :
    (RedisService.getJson key).Yields W (fun ℓ' r => ∃ out,
      Event.Possible W (.ext (.redisGet key) out) ∧ ℓ' = ℓ ++ [.ext (.redisGet key) out] ∧
      r = .ok (match out with | .ok v => v | .error _ => none)) ℓ := by
  refine ⟨hasks, fun r hr => ?_⟩
  cases r with
  | ok v => exact ⟨_, hr, rfl, rfl⟩
  | error e => exact ⟨_, hr, rfl, rfl⟩

/-- `setJson` tries once to store the value, and returns in any case, so nothing after it depends
on Redis. -/
theorem setJson_yields {key : String} {value : CacheValue} {ttlMs : Int}
    (hasks : W.asks (.redisSet key value ttlMs)) :
    (RedisService.setJson key value ttlMs).Yields W (fun ℓ' r => ∃ out,
      ℓ' = ℓ ++ [.ext (.redisSet key value ttlMs) out] ∧ r = .ok ()) ℓ := by
  refine ⟨hasks, fun r hr => ?_⟩
  cases r with
  | ok v => exact ⟨_, rfl, rfl⟩
  | error e => exact ⟨_, rfl, rfl⟩

/-! ## The service -/

/-- The name under which a symbol is looked up. -/
def lookupName (rawSymbol : String) : String := upperCase (trim rawSymbol)

/-- The keys of splits and of prices differ by their prefixes. -/
theorem symbolCacheKey_ne_priceCacheKey (s s' : String) : symbolCacheKey s ≠ priceCacheKey s' := by
  simp [symbolCacheKey, priceCacheKey, ToString.toString, String.ext_iff]

/-- The events of a lookup bring no prices and no quotes. -/
def Unpriced (ev : Event sig JsError) : Prop :=
  (∀ symbol, pricesOf? symbol ev = none) ∧ inserted? ev = none

/-- Reading the key of a split brings no prices, whatever is there. -/
theorem unpriced_redisGet_symbol (s : String) (out : Except JsError (Option CacheValue)) :
    Unpriced (.ext (.redisGet (symbolCacheKey s)) out) := by
  refine ⟨fun symbol => ?_, rfl⟩
  cases out with
  | error e => rfl
  | ok v =>
    rcases v with _ | q | p | b
    · rfl
    · rfl
    · simp [pricesOf?, symbolCacheKey_ne_priceCacheKey]
    · rfl

theorem unpriced_fetch_exchangeInfo (s : String) (out : Except JsError FetchOutcome) :
    Unpriced (.ext (.fetch "exchangeInfo" s) out) := by
  refine ⟨fun symbol => ?_, rfl⟩
  cases out with
  | error e => rfl
  | ok outcome => simp [pricesOf?]

theorem unpriced_redisSet (key : String) (value : CacheValue) (ttlMs : Int)
    (out : Except JsError Unit) :
    Unpriced (.ext (.redisSet key value ttlMs) out) := ⟨fun _ => rfl, rfl⟩

/-- What a lookup brings, and that it is what the lookup returns: the events have a split of the
symbol just if the lookup succeeds. -/
structure BringsSplit (symbol : String) (ℓ₁ : List (Event sig JsError))
    (r : Except JsError SymbolBreakdown) : Prop where
  unpriced : ∀ ev ∈ ℓ₁, Unpriced ev
  ok : ∀ b, r = .ok b → ℓ₁.findSome? (splitOf? symbol) = some b
  error : ∀ e, r = .error e → Refused e ∧ ℓ₁.findSome? (splitOf? symbol) = none

/-- The part of `getSymbolBreakdown` that asks Binance: one request, and one attempt to store the
split. -/
theorem fetchBreakdown_yields {name : String} (hfetch : W.asks (.fetch "exchangeInfo" name))
    (hset : ∀ outcome info, Event.Possible W (.ext (.fetch "exchangeInfo" name) (.ok outcome)) →
      (outcome.body?.bind exchangeInfo?).bind List.head? = some info →
      W.asks (.redisSet (symbolCacheKey name) (.breakdown ⟨info.baseAsset, info.quoteAsset⟩)
        SYMBOL_BREAKDOWN_CACHE_TTL_MS)) :
    Prog.Yields W (fun ℓ' r => ∃ ℓ₁, ℓ' = ℓ ++ ℓ₁ ∧ BringsSplit name ℓ₁ r) ℓ (do
      let breakdown ← mapBinanceErrors do
        let info ← getSymbolInfo name
        return (⟨info.baseAsset, info.quoteAsset⟩ : SymbolBreakdown)
      RedisService.setJson (symbolCacheKey name) (.breakdown breakdown)
        SYMBOL_BREAKDOWN_CACHE_TTL_MS
      return breakdown) := by
  refine Prog.yields_bind.mpr (mapBinanceErrors_yields (Prog.yields_bind.mpr
    ((getSymbolInfo_yields hfetch).mono ?_)))
  rintro ℓ' r ⟨out, hpossible, rfl, hr⟩
  have hunpriced := unpriced_fetch_exchangeInfo name out
  cases r with
  | error e =>
    refine .inl ⟨hr.1, fun e' he' => ⟨[.ext (.fetch "exchangeInfo" name) out], rfl,
      by simpa using hunpriced, fun b h => (nomatch h), fun e h => ?_⟩⟩
    cases h
    refine ⟨he', ?_⟩
    cases out with
    | error e => rfl
    | ok outcome => simp [splitOf?, hr.2 outcome rfl]
  | ok info =>
    obtain ⟨outcome, rfl, hinfo⟩ := hr
    refine Prog.yields_bind.mpr ((setJson_yields (hset outcome info hpossible hinfo)).mono ?_)
    rintro ℓ' r ⟨out, rfl, rfl⟩
    refine ⟨[.ext (.fetch "exchangeInfo" name) (.ok outcome), .ext (.redisSet (symbolCacheKey name)
      (.breakdown ⟨info.baseAsset, info.quoteAsset⟩) SYMBOL_BREAKDOWN_CACHE_TTL_MS) out],
      by simp, ⟨?_, fun b h => ?_, fun e h => nomatch h⟩⟩
    · simp [hunpriced, unpriced_redisSet]
    · cases h
      simp [splitOf?, hinfo]

/-- The split of a symbol, and nothing else, comes of the events of its lookup, from the cache
where it is there. -/
theorem getSymbolBreakdown_yields {rawSymbol : String} (hget : ∀ key, W.asks (.redisGet key))
    (hfetch : ∀ endpoint s, W.asks (.fetch endpoint s))
    (hset : ∀ outcome info, Event.Possible W
        (.ext (.fetch "exchangeInfo" (lookupName rawSymbol)) (.ok outcome)) →
      (outcome.body?.bind exchangeInfo?).bind List.head? = some info →
      W.asks (.redisSet (symbolCacheKey (lookupName rawSymbol))
        (.breakdown ⟨info.baseAsset, info.quoteAsset⟩) SYMBOL_BREAKDOWN_CACHE_TTL_MS)) :
    (getSymbolBreakdown rawSymbol).Yields W (fun ℓ' r => ∃ ℓ₁, ℓ' = ℓ ++ ℓ₁ ∧
      BringsSplit (lookupName rawSymbol) ℓ₁ r) ℓ := by
  let name := lookupName rawSymbol
  refine Prog.yields_bind.mpr ((getJson_yields (hget _)).mono ?_)
  rintro ℓ' r ⟨out, -, rfl, rfl⟩
  have hunpriced := unpriced_redisGet_symbol name out
  -- not found in the cache
  have hlonger (hnone : splitOf? name (.ext (.redisGet (symbolCacheKey name)) out) = none) :
      ∀ ℓ' r, (∃ ℓ₁, ℓ' = ℓ ++ [.ext (.redisGet (symbolCacheKey name)) out] ++ ℓ₁ ∧
        BringsSplit name ℓ₁ r) → ∃ ℓ₁, ℓ' = ℓ ++ ℓ₁ ∧ BringsSplit name ℓ₁ r := by
    rintro ℓ' r ⟨ℓ₁, rfl, hℓ₁⟩
    refine ⟨.ext (.redisGet (symbolCacheKey name)) out :: ℓ₁, by simp, ?_, fun b h => ?_,
      fun e h => ?_⟩
    · simpa [hunpriced] using hℓ₁.unpriced
    · rw [List.findSome?_cons, hnone]
      exact hℓ₁.ok b h
    · rw [List.findSome?_cons, hnone]
      exact hℓ₁.error e h
  have miss := fun hnone => (fetchBreakdown_yields (hfetch _ _) hset).mono (hlonger hnone)
  cases out with
  | error e => exact miss rfl
  | ok v =>
    rcases v with _ | q | p | b
    · exact miss rfl
    · exact miss rfl
    · exact miss rfl
    · refine ⟨[.ext (.redisGet (symbolCacheKey name)) (.ok (some (.breakdown b)))], rfl,
        by simpa using hunpriced, fun b' h => ?_, fun e h => nomatch h⟩
      cases h
      simp [splitOf?, name]

/-! ## Prices -/

/-- The events of a price lookup bring no split and no quotes. -/
def Unsplit (ev : Event sig JsError) : Prop :=
  (∀ symbol, splitOf? symbol ev = none) ∧ inserted? ev = none

/-- Reading the key of a price brings no split, whatever is there. -/
theorem unsplit_redisGet_price (s : String) (out : Except JsError (Option CacheValue)) :
    Unsplit (.ext (.redisGet (priceCacheKey s)) out) := by
  refine ⟨fun symbol => ?_, rfl⟩
  cases out with
  | error e => rfl
  | ok v =>
    rcases v with _ | q | p | b
    · rfl
    · rfl
    · rfl
    · simp [splitOf?, (symbolCacheKey_ne_priceCacheKey symbol s).symm]

theorem unsplit_fetch_ticker (s : String) (out : Except JsError FetchOutcome) :
    Unsplit (.ext (.fetch "ticker/bookTicker" s) out) := by
  refine ⟨fun symbol => ?_, rfl⟩
  cases out with
  | error e => rfl
  | ok outcome => simp [splitOf?]

/-- A request that is always answered fails only with the connection. -/
theorem broken_of_possible {x : Ext} {e : JsError} (h : Event.Possible W (.ext x (.error e)))
    (hx : ∀ χ e', ∃ a, (answer x χ e').1 = .ok a) : e = .connectionError := by
  rcases h.2 with h | ⟨χ, e', -, h⟩
  · exact Except.error.inj h
  · obtain ⟨a, ha⟩ := hx χ e'
    rw [show (backend.answer x χ e').1 = .ok a from ha] at h
    cases h

/-- What a price lookup brings, and that it is what the lookup returns: the events have prices of
the symbol just if the lookup succeeds. -/
structure BringsPrices (symbol : String) (ℓ₁ : List (Event sig JsError))
    (r : Except JsError IndicativePrice) : Prop where
  unsplit : ∀ ev ∈ ℓ₁, Unsplit ev
  ok : ∀ p, r = .ok p → ℓ₁.findSome? (pricesOf? symbol) = some (p.ask, p.bid)
  error : ∀ e, r = .error e →
    Refused e ∧ ℓ₁.findSome? (pricesOf? symbol) = none ∨ e = .connectionError

/-- The part of `getPrice` that asks Binance. -/
theorem fetchPrice_yields {name : String} (hfetch : W.asks (.fetch "ticker/bookTicker" name))
    (hnow : W.asks .dateNow) (httl : W.asks .priceCacheTtlMs)
    (hset : ∀ price (ttlMs : Nat), W.asks (.redisSet (priceCacheKey name) (.price price) ttlMs)) :
    Prog.Yields W (fun ℓ' r => ∃ ℓ₁, ℓ' = ℓ ++ ℓ₁ ∧ BringsPrices name ℓ₁ r) ℓ (do
      let price ← mapBinanceErrors do
        let ticker ← getBookTicker name
        return (⟨name, ticker.bidPrice, ticker.askPrice, ← App.dateNow,
          "binance"⟩ : IndicativePrice)
      let ttlMs : Nat ← App.request .priceCacheTtlMs
      RedisService.setJson (priceCacheKey name) (.price price) ttlMs
      return price) := by
  refine Prog.yields_bind.mpr (mapBinanceErrors_yields (Prog.yields_bind.mpr
    ((request_yields hfetch).mono ?_)))
  rintro ℓ' r ⟨out, -, rfl, hr⟩
  have hunsplit := unsplit_fetch_ticker name out
  cases r with
  | error e =>
    refine .inl ⟨hr.1, fun e' he' => ⟨[.ext (.fetch "ticker/bookTicker" name) out], rfl,
      by simpa using hunsplit, fun p h => (nomatch h), fun e h => ?_⟩⟩
    cases h
    refine .inl ⟨he', ?_⟩
    cases out with
    | error e => rfl
    | ok outcome => simp [pricesOf?, hr.2 outcome rfl]
  | ok ticker =>
    obtain ⟨outcome, rfl, hticker⟩ := hr
    have hclock : ∀ r, Unsplit (.ext .dateNow r) := fun _ => ⟨fun _ => rfl, rfl⟩
    have hconfig : ∀ r, Unsplit (.ext .priceCacheTtlMs r) := fun _ => ⟨fun _ => rfl, rfl⟩
    refine Prog.yields_request (S := sig) hnow (fun now _ => ?_) fun e he => ?_
    swap
    · obtain rfl := broken_of_possible he fun χ e' => ⟨_, rfl⟩
      refine .inr ⟨rfl, [.ext (.fetch "ticker/bookTicker" name) (.ok outcome),
        .ext .dateNow (.error .connectionError)], by simp, by simp [hunsplit, hclock],
        fun p h => (nomatch h), fun e h => .inr ?_⟩
      exact (Except.error.inj h).symm
    refine Prog.yields_request (S := sig) httl (fun ttlMs _ => ?_) fun e he => ?_
    swap
    · obtain rfl := broken_of_possible he fun χ e' => ⟨_, rfl⟩
      refine ⟨[.ext (.fetch "ticker/bookTicker" name) (.ok outcome), .ext .dateNow (.ok now),
        .ext .priceCacheTtlMs (.error .connectionError)], by simp,
        by simp [hunsplit, hclock, hconfig],
        fun p h => (nomatch h), fun e h => .inr ?_⟩
      exact (Except.error.inj h).symm
    refine Prog.yields_bind.mpr ((setJson_yields (hset _ _)).mono ?_)
    rintro ℓ' r ⟨out, rfl, rfl⟩
    refine ⟨[.ext (.fetch "ticker/bookTicker" name) (.ok outcome), .ext .dateNow (.ok now),
      .ext .priceCacheTtlMs (.ok ttlMs), .ext (.redisSet (priceCacheKey name)
        (.price ⟨name, ticker.bidPrice, ticker.askPrice, now, "binance"⟩) ttlMs) out],
      by simp, ⟨?_, fun p h => ?_, fun e h => nomatch h⟩⟩
    · have hset : Unsplit (.ext (.redisSet (priceCacheKey name)
          (.price ⟨name, ticker.bidPrice, ticker.askPrice, now, "binance"⟩) ttlMs) out) :=
        ⟨fun _ => rfl, rfl⟩
      simp [hunsplit, hclock, hconfig, hset]
    · cases h
      simp [pricesOf?, hticker]

/-- The prices of a symbol, and nothing else, come of the events of their lookup. A price that was
cached is brought by the reading of its key. -/
theorem getPrice_yields {rawSymbol : String} (hget : ∀ key, W.asks (.redisGet key))
    (hfetch : ∀ endpoint s, W.asks (.fetch endpoint s)) (hnow : W.asks .dateNow)
    (httl : W.asks .priceCacheTtlMs) (hset : ∀ price (ttlMs : Nat),
      W.asks (.redisSet (priceCacheKey (lookupName rawSymbol)) (.price price) ttlMs)) :
    (getPrice rawSymbol).Yields W (fun ℓ' r => ∃ ℓ₁, ℓ' = ℓ ++ ℓ₁ ∧
      BringsPrices (lookupName rawSymbol) ℓ₁ r) ℓ := by
  let name := lookupName rawSymbol
  refine Prog.yields_bind.mpr ((getJson_yields (hget _)).mono ?_)
  rintro ℓ' r ⟨out, -, rfl, rfl⟩
  have hunsplit := unsplit_redisGet_price name out
  -- not found in the cache
  have hlonger (hnone : pricesOf? name (.ext (.redisGet (priceCacheKey name)) out) = none) :
      ∀ ℓ' r, (∃ ℓ₁, ℓ' = ℓ ++ [.ext (.redisGet (priceCacheKey name)) out] ++ ℓ₁ ∧
        BringsPrices name ℓ₁ r) → ∃ ℓ₁, ℓ' = ℓ ++ ℓ₁ ∧ BringsPrices name ℓ₁ r := by
    rintro ℓ' r ⟨ℓ₁, rfl, hℓ₁⟩
    refine ⟨.ext (.redisGet (priceCacheKey name)) out :: ℓ₁, by simp, ?_, fun p h => ?_,
      fun e h => ?_⟩
    · simpa [hunsplit] using hℓ₁.unsplit
    · rw [List.findSome?_cons, hnone]
      exact hℓ₁.ok p h
    · rw [List.findSome?_cons, hnone]
      exact hℓ₁.error e h
  have miss := fun hnone =>
    (fetchPrice_yields (hfetch _ _) hnow httl hset).mono (hlonger hnone)
  cases out with
  | error e => exact miss rfl
  | ok v =>
    rcases v with _ | q | p | b
    · exact miss rfl
    · exact miss rfl
    · refine ⟨[.ext (.redisGet (priceCacheKey name)) (.ok (some (.price p)))], rfl,
        by simpa using hunsplit, fun p' h => ?_, fun e h => nomatch h⟩
      cases h
      simp [pricesOf?, name]
    · exact miss rfl

/-! ## Both lookups -/

/-- What the two lookups bring. -/
structure BringsBoth (symbol : String) (ℓ₁ : List (Event sig JsError))
    (r : Except JsError (SymbolBreakdown × IndicativePrice)) : Prop where
  inserted : ∀ ev ∈ ℓ₁, inserted? ev = none
  ok : ∀ b p, r = .ok (b, p) → ℓ₁.findSome? (splitOf? symbol) = some b ∧
    ℓ₁.findSome? (pricesOf? symbol) = some (p.ask, p.bid)
  error : ∀ e, r = .error e → Refused e ∧ (ℓ₁.findSome? (splitOf? symbol) = none ∨
    ℓ₁.findSome? (pricesOf? symbol) = none) ∨ e = .connectionError

/-- The lookups one after the other, and perhaps the choice between two errors. Each of them brings
its own part, and neither brings the other's. -/
theorem BringsSplit.both {symbol : String} {ℓ₁ ℓ₂ ℓ₃ : List (Event sig JsError)}
    {r₁ : Except JsError SymbolBreakdown} {r₂ : Except JsError IndicativePrice}
    {r : Except JsError (SymbolBreakdown × IndicativePrice)} (h₁ : BringsSplit symbol ℓ₁ r₁)
    (h₂ : BringsPrices symbol ℓ₂ r₂) (h₃ : ∀ ev ∈ ℓ₃, Unpriced ev ∧ Unsplit ev)
    (hok : ∀ b p, r = .ok (b, p) → r₁ = .ok b ∧ r₂ = .ok p)
    (herr : ∀ e, r = .error e → r₁ = .error e ∨ r₂ = .error e ∨ e = .connectionError) :
    BringsBoth symbol (ℓ₁ ++ ℓ₂ ++ ℓ₃) r := by
  have hsplit : (ℓ₁ ++ ℓ₂ ++ ℓ₃).findSome? (splitOf? symbol) = ℓ₁.findSome? (splitOf? symbol) := by
    have hafter : (ℓ₂ ++ ℓ₃).findSome? (splitOf? symbol) = none := by
      refine List.findSome?_eq_none_iff.mpr fun ev hev => ?_
      rcases List.mem_append.mp hev with hev | hev
      · exact (h₂.unsplit ev hev).1 symbol
      · exact (h₃ ev hev).2.1 symbol
    rw [List.append_assoc, List.findSome?_append, hafter, Option.or_none]
  have hprices : (ℓ₁ ++ ℓ₂ ++ ℓ₃).findSome? (pricesOf? symbol) = ℓ₂.findSome?
    (pricesOf? symbol) := by
    have hbefore : ℓ₁.findSome? (pricesOf? symbol) = none :=
      List.findSome?_eq_none_iff.mpr fun ev hev => (h₁.unpriced ev hev).1 symbol
    have hafter : ℓ₃.findSome? (pricesOf? symbol) = none :=
      List.findSome?_eq_none_iff.mpr fun ev hev => (h₃ ev hev).1.1 symbol
    rw [List.findSome?_append, List.findSome?_append, hbefore, hafter, Option.none_or,
      Option.or_none]
  refine ⟨fun ev hev => ?_, fun b p h => ?_, fun e h => ?_⟩
  · rcases List.mem_append.mp hev with hev | hev
    · rcases List.mem_append.mp hev with hev | hev
      · exact (h₁.unpriced ev hev).2
      · exact (h₂.unsplit ev hev).2
    · exact (h₃ ev hev).2.2
  · obtain ⟨hr₁, hr₂⟩ := hok b p h
    exact ⟨hsplit.trans (h₁.ok b hr₁), hprices.trans (h₂.ok p hr₂)⟩
  · rcases herr e h with h | h | h
    · obtain ⟨he, hnone⟩ := h₁.error e h
      exact .inl ⟨he, .inl (hsplit.trans hnone)⟩
    · rcases h₂.error e h with ⟨he, hnone⟩ | he
      · exact .inl ⟨he, .inr (hprices.trans hnone)⟩
      · exact .inr he
    · exact .inr h

/-- **What the two lookups of a quote bring** is what they return. Afterwards the history alone
says at which price and for which currencies a quote can be made. -/
theorem promiseAll_yields {symbol : String} (hget : ∀ key, W.asks (.redisGet key))
    (hfetch : ∀ endpoint s, W.asks (.fetch endpoint s)) (hnow : W.asks .dateNow)
    (httl : W.asks .priceCacheTtlMs) (hfirst : W.asks .firstRejects)
    (hprice : ∀ price (ttlMs : Nat),
      W.asks (.redisSet (priceCacheKey (lookupName symbol)) (.price price) ttlMs))
    (hsplit : ∀ outcome info, Event.Possible W
        (.ext (.fetch "exchangeInfo" (lookupName symbol)) (.ok outcome)) →
      (outcome.body?.bind exchangeInfo?).bind List.head? = some info →
      W.asks (.redisSet (symbolCacheKey (lookupName symbol))
        (.breakdown ⟨info.baseAsset, info.quoteAsset⟩) SYMBOL_BREAKDOWN_CACHE_TTL_MS)) :
    (App.promiseAll (getSymbolBreakdown symbol) (getPrice symbol)).Yields W (fun ℓ' r =>
      ∃ ℓ₁, ℓ' = ℓ ++ ℓ₁ ∧ BringsBoth (lookupName symbol) ℓ₁ r) ℓ := by
  refine Prog.yields_bind.mpr (Prog.yields_attempt.mpr
    ((getSymbolBreakdown_yields hget hfetch hsplit).mono ?_))
  rintro ℓ' r₁ ⟨ℓ₁, rfl, h₁⟩
  refine Prog.yields_bind.mpr (Prog.yields_attempt.mpr
    ((getPrice_yields hget hfetch hnow httl hprice).mono ?_))
  rintro ℓ' r₂ ⟨ℓ₂, rfl, h₂⟩
  have hnil : ∀ ev ∈ ([] : List (Event sig JsError)), Unpriced ev ∧ Unsplit ev :=
    fun _ h => nomatch h
  have hdone : ∀ {r}, (∀ b p, r = .ok (b, p) → r₁ = .ok b ∧ r₂ = .ok p) →
      (∀ e, r = .error e → r₁ = .error e ∨ r₂ = .error e ∨ e = .connectionError) →
      ∃ ℓ₃, ℓ ++ ℓ₁ ++ ℓ₂ = ℓ ++ ℓ₃ ∧ BringsBoth (lookupName symbol) ℓ₃ r := fun hok herr =>
    ⟨ℓ₁ ++ ℓ₂ ++ [], by simp, h₁.both h₂ hnil hok herr⟩
  cases r₁ with
  | ok b =>
    cases r₂ with
    | ok p => exact hdone (fun _ _ h => by cases h; exact ⟨rfl, rfl⟩) fun _ h => nomatch h
    | error e => exact hdone (fun _ _ h => nomatch h) fun _ h => by cases h; exact .inr (.inl rfl)
  | error e =>
    cases r₂ with
    | ok p => exact hdone (fun _ _ h => nomatch h) fun _ h => by cases h; exact .inl rfl
    | error e' =>
      have hchoice : ∀ r, Unpriced (.ext .firstRejects r) ∧ Unsplit (.ext .firstRejects r) :=
        fun _ =>
        ⟨⟨fun _ => rfl, rfl⟩, fun _ => rfl, rfl⟩
      have hlast : ∀ {r} (out : Except JsError Bool), (∀ b p, r ≠ .ok (b, p)) →
          (∀ e'', r = .error e'' → e = e'' ∨ e' = e'' ∨ e'' = .connectionError) →
          ∃ ℓ₃, ℓ ++ ℓ₁ ++ ℓ₂ ++ [Event.ext (S := sig) .firstRejects out] = ℓ ++ ℓ₃ ∧
            BringsBoth (lookupName symbol) ℓ₃ r := fun out hok herr =>
        ⟨ℓ₁ ++ ℓ₂ ++ [.ext .firstRejects out], by simp,
          h₁.both h₂ (by simpa using hchoice out) (fun b p h => absurd h (hok b p)) fun e'' h =>
            (herr e'' h).imp (congrArg _) (Or.imp_left (congrArg _))⟩
      refine Prog.yields_request (S := sig) hfirst (fun first _ => ?_) fun e'' he => ?_
      · cases first with
        | true => exact hlast _ (fun _ _ h => nomatch h) fun _ h => by cases h; exact .inl rfl
        | false => exact hlast _ (fun _ _ h =>
            nomatch h) fun _ h => by cases h; exact .inr (.inl rfl)
      · obtain rfl := broken_of_possible he fun χ e' => ⟨_, rfl⟩
        exact hlast _ (fun _ _ h => nomatch h) fun _ h => by cases h; exact .inr (.inr rfl)

end

end MiniOpenFX
