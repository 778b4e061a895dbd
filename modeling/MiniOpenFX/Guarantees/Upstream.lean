import MiniOpenFX.Guarantees.Ranges
import MiniOpenFX.Guarantees.RoundTrip
import MiniOpenFX.Guarantees.Tables
import MiniOpenFX.Proof.Commits
import MiniOpenFX.Proof.Pricing

/-!
# Answers from upstream

`createQuote` prices what Binance answers. The shape guards of the client see that prices and
currencies are texts; that a price is a number, and that Postgres stores the texts, is left to the
code that uses them. How a call ends is determined by what its history brings (`Quoted`,
`createQuote_yields`), and `createQuote_classified_iff` says for which answers it ends with a quote
or with an exception of HTTP.
-/

namespace MiniOpenFX

open Js Transactional DecimalJs Significant PricingService

/-! ## Symbols -/

/-- The symbol a request asks for. -/
def CreateQuoteDto.symbol (dto : CreateQuoteDto) : String := dto.baseCurrency ++ dto.quoteCurrency

/-- The characters of a currency's code. -/
theorem toNat_code {c : Char} (h : c.isUpper || c.isDigit) : 48 ≤ c.toNat ∧ c.toNat ≤ 90 := by
  change (decide ('A'.val ≤ c.val ∧ c.val ≤ 'Z'.val) ||
    decide ('0'.val ≤ c.val) && decide (c.val ≤ '9'.val)) = true at h
  simp only [Bool.or_eq_true, Bool.and_eq_true, decide_eq_true_eq, UInt32.le_iff_toNat_le] at h
  have : c.toNat = c.val.toNat := rfl
  have h₁ : 'A'.val.toNat = 65 := rfl
  have h₂ : 'Z'.val.toNat = 90 := rfl
  have h₃ : '0'.val.toNat = 48 := rfl
  have h₄ : '9'.val.toNat = 57 := rfl
  omega

/-- The characters of a valid currency are capital letters and digits. -/
theorem code_of_valid [DecimalJs] {dto : CreateQuoteDto} (h : dto.valid) {c : Char}
    (hc : c ∈ dto.symbol.toList) : c.isUpper || c.isDigit := by
  simp only [CreateQuoteDto.valid, isCurrencyCode, Bool.and_eq_true, List.all_eq_true] at h
  rw [CreateQuoteDto.symbol, String.toList_append, List.mem_append] at hc
  rcases hc with hc | hc
  · exact h.1.1.2 c hc
  · exact h.1.2.2 c hc

/-- The symbol is looked up as it was put together. -/
theorem lookupName_symbol [DecimalJs] {dto : CreateQuoteDto} (h : dto.valid) :
    lookupName dto.symbol = dto.symbol := by
  have hspace : ∀ c ∈ dto.symbol.toList, isSpace c = false := fun c hc => by
    have := toNat_code (code_of_valid h hc)
    exact isSpace_of_printable ⟨by omega, by omega⟩
  have hupper : dto.symbol.toList.map Char.toUpper = dto.symbol.toList := by
    conv_rhs => rw [← List.map_id dto.symbol.toList]
    refine List.map_congr_left fun c hc => ?_
    have hrange := toNat_code (code_of_valid h hc)
    refine dif_neg fun hlower => ?_
    simp only [UInt32.le_iff_toNat_le] at hlower
    have : c.toNat = c.val.toNat := rfl
    have : 'a'.val.toNat = 97 := rfl
    omega
  have htrim := trim_of_ends hspace
  rw [String.ofList_toList] at htrim
  rw [lookupName, htrim, upperCase, hupper, String.ofList_toList]

/-- The symbol of a valid request has no character that Postgres refuses. -/
theorem storable_symbol [DecimalJs] {dto : CreateQuoteDto} (h : dto.valid) :
    storable dto.symbol := by
  simp only [storable, decide_eq_true_eq]
  intro hc
  have := toNat_code (code_of_valid h hc)
  have : '\x00'.toNat = 0 := rfl
  omega

/-! ## How a call ends -/

/-- The values of the quote: whose it is and what was asked for come from the request, the
currencies from the split and the price from the ticker. -/
def CreateQuoteDto.values (dto : CreateQuoteDto) (clientId : Uuid) (b : SymbolBreakdown) (n : Int)
    (a : QuoteAmount) (id : Uuid) (expiresAt : Date) : QuoteValues where
  id := id
  clientId := clientId
  symbol := dto.symbol
  side := dto.side
  baseCurrency := b.baseCurrency
  quoteCurrency := b.quoteCurrency
  baseAmountMinor := n
  price := a.price
  quoteAmountMinor := a.quoteAmountMinor
  status := .ACTIVE
  expiresAt := expiresAt

section
variable [DecimalJs]

/-- A positive amount is asked for, and the history brings the two currencies and the two prices,
whether from Redis or from Binance. -/
structure Brought (dto : CreateQuoteDto) (ℓ : List (Event sig JsError)) (b : SymbolBreakdown)
    (prices : String × String) (n : Int) : Prop where
  split : ℓ.findSome? (splitOf? (lookupName dto.symbol)) = some b
  prices : ℓ.findSome? (pricesOf? (lookupName dto.symbol)) = some prices
  base : toMinorUnits (.text dto.baseAmount) = .ok n
  pos : 0 < n

/-- What a request has been brought stands in its history, which only goes on. -/
theorem Brought.append {dto : CreateQuoteDto} {ℓ : List (Event sig JsError)} {b : SymbolBreakdown}
    {prices : String × String} {n : Int} (h : Brought dto ℓ b prices n)
    (ℓ' : List (Event sig JsError)) : Brought dto (ℓ ++ ℓ') b prices n where
  split := by rw [List.findSome?_append, h.split, Option.some_or]
  prices := by rw [List.findSome?_append, h.prices, Option.some_or]
  base := h.base
  pos := h.pos

/-- How `createQuote` ends, by what its history brings. The history decides which of the cases it
is, so the error a client sees can be told from what Binance answered. -/
inductive Quoted (W : Setting backend) (clientId : Uuid) (dto : CreateQuoteDto)
    (ℓ : List (Event sig JsError)) : Except JsError QuoteResponse → Prop
  | lost : Quoted W clientId dto ℓ (.error .connectionError)
  | refused {e : JsError} (h : Refused e) (hnone : ℓ.filterMap inserted? = [])
      (hmissing : ∀ b prices n, ¬ Brought dto ℓ b prices n) : Quoted W clientId dto ℓ (.error e)
  | unpriced {b : SymbolBreakdown} {prices : String × String} {n : Int} {e : JsError}
      (h : Brought dto ℓ b prices n) (hnone : ℓ.filterMap inserted? = [])
      (he : computeQuoteAmount dto.side n prices.1 prices.2 = .error e) :
      Quoted W clientId dto ℓ (.error e)
  | small {b : SymbolBreakdown} {prices : String × String} {n : Int} {a : QuoteAmount}
      {message : String} (h : Brought dto ℓ b prices n) (hnone : ℓ.filterMap inserted? = [])
      (ha : computeQuoteAmount dto.side n prices.1 prices.2 = .ok a)
        (hle : a.quoteAmountMinor ≤ 0) :
      Quoted W clientId dto ℓ (.error (.badRequestException message))
  | undated {now : Int} (hmem : .ext .dateNow (.ok now) ∈ ℓ)
      (hpossible : Event.Possible W (.ext .dateNow (.ok now)))
      (hdate : Date.ofMillis? (now + QuotingService.DEFAULT_QUOTE_TTL_SECONDS * 1000) = none) :
      Quoted W clientId dto ℓ (.error (.error "Invalid time value"))
  | rejected {b : SymbolBreakdown} {prices : String × String} {n now : Int} {a : QuoteAmount}
      {id : Uuid} {expiresAt : Date} {e : JsError} (h : Brought dto ℓ b prices n)
      (ha : computeQuoteAmount dto.side n prices.1 prices.2 = .ok a) (hpos : 0 < a.quoteAmountMinor)
      (hmem : .ext .dateNow (.ok now) ∈ ℓ)
      (hpossible : Event.Possible W (.ext .dateNow (.ok now)))
      (hdate : Date.ofMillis? (now + QuotingService.DEFAULT_QUOTE_TTL_SECONDS * 1000) =
        some expiresAt)
      (hmem' : .sql (.insertQuote (dto.values clientId b n a id expiresAt)) (.error e) ∈ ℓ)
      (hpossible' : Event.Possible W
        (.sql (.insertQuote (dto.values clientId b n a id expiresAt)) (.error e))) :
      Quoted W clientId dto ℓ (.error e)
  | stored {b : SymbolBreakdown} {prices : String × String} {n now : Int} {a : QuoteAmount}
      {id : Uuid} {expiresAt : Date} {row : QuoteRow Date} (h : Brought dto ℓ b prices n)
      (ha : computeQuoteAmount dto.side n prices.1 prices.2 = .ok a) (hpos : 0 < a.quoteAmountMinor)
      (hone : ℓ.filterMap inserted? = [row])
      (hpossible : Event.Possible W
        (.sql (.insertQuote (dto.values clientId b n a id expiresAt)) (.ok row))) :
      Quoted W clientId dto ℓ (.ok (toQuoteResponse now row))

/-- The part of `createQuote` that stores the quote: the row is inserted once, and the cache
afterwards changes nothing about the answer. -/
theorem storeQuote_yields {W : Setting backend} {clientId : Uuid} {dto : CreateQuoteDto}
    {ℓ : List (Event sig JsError)} {b : SymbolBreakdown} {prices : String × String} {n : Int}
    {a : QuoteAmount} (hnow : W.asks .dateNow) (hid : W.asks .genRandomUuid)
    (hset : ∀ key q ttlMs, W.asks (.redisSet key (.quote q) ttlMs)) (h : Brought dto ℓ b prices n)
    (hnone : ℓ.filterMap inserted? = [])
    (ha : computeQuoteAmount dto.side n prices.1 prices.2 = .ok a)
    (hpos : 0 < a.quoteAmountMinor) : Prog.Yields W (Quoted W clientId dto) ℓ (do
      let now ← App.dateNow
      match Date.ofMillis? (now + QuotingService.DEFAULT_QUOTE_TTL_SECONDS * 1000) with
      | none => Prog.fail (.error "Invalid time value")
      | some expiresAt =>
        let id : Uuid ← App.request .genRandomUuid
        let row : QuoteRow Date ← App.query (.insertQuote (dto.values clientId b n a id expiresAt))
        RedisService.setJson (quoteCacheKey row.id.text) (.quote (serializeQuote row))
          (QuotingService.DEFAULT_QUOTE_TTL_SECONDS * 1000)
        return toQuoteResponse (← App.dateNow) row) := by
  refine Prog.yields_request (S := sig) hnow (fun now hpossible => ?_) fun e he => ?_
  swap
  · obtain rfl := broken_of_possible he fun χ e' => ⟨_, rfl⟩
    exact .lost
  cases hdate : Date.ofMillis? (now + QuotingService.DEFAULT_QUOTE_TTL_SECONDS * 1000) with
  | none => exact .undated (List.mem_append_right _ (.head _)) hpossible hdate
  | some expiresAt =>
    refine Prog.yields_request (S := sig) hid (fun id _ => ?_) fun e he => ?_
    swap
    · obtain rfl := broken_of_possible he fun χ e' => ⟨_, rfl⟩
      exact .lost
    refine Prog.yields_query (S := sig) (fun row hrow => ?_) fun e he => ?_
    swap
    · exact .rejected (((h.append _).append _).append _) ha hpos (by simp) hpossible hdate (by simp)
        he
    refine Prog.yields_bind.mpr ((setJson_yields (hset _ _ _)).mono ?_)
    rintro ℓ' r ⟨out, rfl, rfl⟩
    refine Prog.yields_request (S := sig) hnow (fun now' _ => ?_) fun e he => ?_
    · exact .stored (((((h.append _).append _).append _).append _).append _) ha hpos
        (by simp only [List.filterMap_append, hnone]; rfl) hrow
    · obtain rfl := broken_of_possible he fun χ e' => ⟨_, rfl⟩
      exact .lost

/-- **How `createQuote` ends** is determined by what its history brings. -/
theorem createQuote_yields {W : Setting backend} (clientId : Uuid) (dto : CreateQuoteDto)
    (hget : ∀ key, W.asks (.redisGet key)) (hfetch : ∀ endpoint s, W.asks (.fetch endpoint s))
    (hnow : W.asks .dateNow) (httl : W.asks .priceCacheTtlMs) (hfirst : W.asks .firstRejects)
    (hid : W.asks .genRandomUuid)
    (hquote : ∀ key q ttlMs, W.asks (.redisSet key (.quote q) ttlMs))
    (hprice : ∀ price (ttlMs : Nat),
      W.asks (.redisSet (priceCacheKey (lookupName dto.symbol)) (.price price) ttlMs))
    (hsplit : ∀ outcome info, Event.Possible W
        (.ext (.fetch "exchangeInfo" (lookupName dto.symbol)) (.ok outcome)) →
      (outcome.body?.bind BinanceClient.exchangeInfo?).bind List.head? = some info →
      W.asks (.redisSet (symbolCacheKey (lookupName dto.symbol))
        (.breakdown ⟨info.baseAsset, info.quoteAsset⟩) SYMBOL_BREAKDOWN_CACHE_TTL_MS)) :
    (QuotingService.createQuote clientId dto).Yields W (Quoted W clientId dto) [] := by
  have hnil : ([] : List (Event sig JsError)).filterMap inserted? = [] := rfl
  have hmissing : ∀ b prices n, ¬ Brought dto [] b prices n := fun _ _ _ h => by cases h.split
  unfold QuotingService.createQuote
  cases hn : toMinorUnits (.text dto.baseAmount) with
  | error e => exact .refused (.badRequest _) hnil hmissing
  | ok n =>
    simp only [Prog.bind_eq, Prog.pure_eq, Prog.bind_ok]
    split
    · exact .refused (.badRequest _) hnil hmissing
    next hpos =>
    refine Prog.yields_bind.mpr
      ((promiseAll_yields hget hfetch hnow httl hfirst hprice hsplit).mono ?_)
    rintro ℓ₁ r ⟨_, rfl, h⟩
    have hnone : ℓ₁.filterMap inserted? = [] := List.filterMap_eq_nil_iff.mpr h.inserted
    cases r with
    | error e =>
      rcases h.error e rfl with ⟨he, hlacks⟩ | rfl
      · refine .refused he hnone fun b prices n hb => ?_
        rcases hlacks with hlacks | hlacks
        · cases hlacks.symm.trans hb.split
        · cases hlacks.symm.trans hb.prices
      · exact .lost
    | ok found =>
      obtain ⟨b, p⟩ := found
      obtain ⟨hb, hp⟩ := h.ok b p rfl
      have hbrought : Brought dto ℓ₁ b (p.ask, p.bid) n := ⟨hb, hp, hn, not_le.mp hpos⟩
      cases ha : computeQuoteAmount dto.side n p.ask p.bid with
      | error e =>
        simp only [ha, App.ofExcept, Prog.bind_error]
        exact .unpriced hbrought hnone ha
      | ok a =>
        simp only [ha, App.ofExcept, Prog.bind_ok]
        split
        · next hle => exact .small hbrought hnone ha hle
        · next hgt => exact storeQuote_yields hnow hid hquote hbrought hnone ha (not_le.mp hgt)

end

/-! ## Prices -/

section
variable [DecimalJs] [LawfulDecimalJs] {side : TradeSide} {ask bid : String} {d : Decimal} {p : ℚ}
  {n : Int}

/-- A price that is a number, of any sign, is applied to the base amount; only a positive one makes
a positive amount. -/
theorem computeQuoteAmount_of_number (hd : (DecimalValue.text (side.price ask bid)).new = .ok d)
    (hp : value d = some p) (h₁ : 0 < n) (h₂ : n ≤ 2 ^ 63 - 1) (hrange : |n * p| ≤ 2 ^ 63 - 1) :
    ∃ m, computeQuoteAmount side n ask bid = .ok ⟨side.price ask bid, m⟩ ∧ m ≤ 2 ^ 63 - 1 ∧
      (0 < m → 0 < p) := by
  have hn : (0 : ℚ) < n := by exact_mod_cast h₁
  have hbound : ((2 ^ 63 - 1 : Int) : ℚ) = 2 ^ 63 - 1 := by norm_num
  have hmax := (clamp_minor (m := 2 ^ 63 - 1) (by decide)).2
  rw [hbound] at hmax
  -- the product, rounded
  let y := roundSig 10 PRECISION (n / 10 ^ 8 * p)
  have hy : |y| ≤ (2 ^ 63 - 1) / 10 ^ 8 := by
    rw [abs_roundSig (by norm_num), ← hmax]
    refine roundSig_mono' (abs_nonneg _) ?_
    rw [div_mul_eq_mul_div, abs_div, abs_of_pos (by norm_num : (0 : ℚ) < 10 ^ 8)]
    exact div_le_div_of_nonneg_right hrange (by norm_num)
  have hmul := LawfulDecimalJs.mul (value_fromMinorUnits (by rw [abs_of_pos h₁]; omega)) hp
  obtain ⟨x, hclamp, hxy, hpos⟩ := clamp_of_abs_lt (x := y) (by
    have := exponents_large
    norm_num at this hy
    linarith)
  rw [hclamp] at hmul
  -- the whole number of minor units next to it
  have hwhole : whole side.rounding (|x| * 10 ^ 8) ≤ 2 ^ 63 - 1 := by
    refine whole_le ?_ _
    rw [hbound]
    norm_num at hy hxy ⊢
    linarith
  have hwhole₀ := whole_nonneg (y := |x| * 10 ^ 8) (by positivity) side.rounding
  have hm : |(SignType.sign x * whole side.rounding (|x| * 10 ^ 8) : Int)| ≤ 2 ^ 63 - 1 := by
    rw [abs_mul, abs_of_nonneg hwhole₀]
    have hsign : |(SignType.sign x : Int)| ≤ 1 := by
      cases SignType.sign x <;> decide
    exact (mul_le_of_le_one_left hwhole₀ hsign).trans hwhole
  refine ⟨_, (computeQuoteAmount_iff hd _).mpr ⟨_, roundToMinorUnits_of_directed rfl hmul
    (directed_eq_sign x side.rounding) (lt_of_le_of_lt hm (by norm_num)), rfl⟩,
    (le_abs_self _).trans hm, fun hpos' => ?_⟩
  have hx : 0 < x := by
    by_contra hx
    rcases (not_lt.mp hx).lt_or_eq with hx | hx
    · rw [sign_neg hx] at hpos'
      simp only [SignType.coe_neg_one] at hpos'
      omega
    · simp [hx] at hpos'
  have := pos_of_roundSig_pos (by norm_num) (hpos hx)
  exact (mul_pos_iff_of_pos_left (by positivity)).mp this

omit [LawfulDecimalJs] in
/-- What something is computed of is read as a decimal, and the price that is kept is that text as
Binance sent it. -/
theorem read_of_computeQuoteAmount {a : QuoteAmount}
    (h : computeQuoteAmount side n ask bid = .ok a) :
    a.price = side.price ask bid ∧ ∃ d, (DecimalValue.text (side.price ask bid)).new = .ok d := by
  cases hd : (DecimalValue.text (side.price ask bid)).new with
  | error e =>
    cases side <;>
    · simp only [TradeSide.price] at hd
      simp only [computeQuoteAmount, hd, Bind.bind, Except.bind] at h
      cases h
  | ok d =>
    obtain ⟨m, -, rfl⟩ := (computeQuoteAmount_iff hd a).mp h
    exact ⟨rfl, d, rfl⟩

/-- Nothing is computed of a price that is no number. -/
theorem number_of_computeQuoteAmount [LawfulInfinity] {a : QuoteAmount}
    (h : computeQuoteAmount side n ask bid = .ok a) :
    ∃ d p, (DecimalValue.text (side.price ask bid)).new = .ok d ∧ value d = some p := by
  obtain ⟨-, d, hd⟩ := read_of_computeQuoteAmount h
  refine ⟨d, ?_⟩
  cases hp : value d with
  | some p => exact ⟨p, hd, rfl⟩
  | none =>
    obtain ⟨m, hm, -⟩ := (computeQuoteAmount_iff hd a).mp h
    exact absurd hm (roundToMinorUnits_not_finite (LawfulInfinity.mul hp) _ m)

end

/-! ## The stored quote -/

/-- The client of a call stays. -/
def clientStays (clientId : Uuid) : Setting backend where
  data d := (d.client? clientId).isSome
  env _ := True
  event _ := True
  asks _ := True
  apply {d} w h := by
    cases w with
    | client row =>
      change (List.find? _ (d.clients ++ [row])).isSome
      rw [List.find?_append, Option.isSome_or, show (List.find? _ d.clients).isSome = true from h]
      rfl
    | balance | setBalance | ledgerEntry | quote | executed | trade => exact h
  tick _ := id
  answer _ _ _ _ := id

/-- What Postgres says to a quote of a known client with a date and amounts it can store: the row,
a lost connection, or a text that it refuses. -/
theorem insertQuote_possible {W : Setting backend} {v : QuoteValues}
    {r : Except JsError (QuoteRow Date)}
    {expiresAt : Timestamp} (h : Event.Possible W (.sql (.insertQuote v) r))
    (hclient : ∀ d, W.data d → (d.client? v.clientId).isSome)
    (hdate : Timestamp.ofDate? v.expiresAt = some expiresAt) (hbase : inBigint v.baseAmountMinor)
    (hquote : inBigint v.quoteAmountMinor) :
    r = .error .connectionError ∨ r = .error (uniqueViolation "quotes_pkey") ∨
      v.storable = false ∧ r = .error invalidByteSequence ∨
      v.storable ∧ ∃ createdAt, r = .ok (v.row expiresAt createdAt).load := by
  rcases h.2 with h | ⟨χ, st, d, hd, h⟩
  · exact .inl h
  change (exec st d (.insertQuote v)).map Prod.fst = r at h
  obtain ⟨c, hc⟩ := Option.isSome_iff_exists.mp (hclient d hd)
  cases hs : v.storable with
  | false =>
    simp only [exec, hs] at h
    exact .inr (.inr (.inl ⟨rfl, h.symm⟩))
  | true =>
    cases hq : d.quote? v.id with
    | some q =>
      simp [exec, hs, hdate, hbase, hquote, hq, Except.map] at h
      exact .inr (.inl h.symm)
    | none =>
      simp [exec, hs, hdate, hbase, hquote, hq, hc, Except.map] at h
      exact .inr (.inr (.inr ⟨rfl, st, h.symm⟩))

/-- What Postgres stores. -/
theorem insertQuote_stored {W : Setting backend} {v : QuoteValues} {row : QuoteRow Date}
    (h : Event.Possible W (.sql (.insertQuote v) (.ok row))) :
    v.storable ∧ ∃ expiresAt createdAt, row = (v.row expiresAt createdAt).load := by
  rcases h.2 with h | ⟨χ, st, d, -, h⟩
  · cases h
  obtain ⟨ws, hx⟩ : ∃ ws, exec st d (.insertQuote v) = .ok (row, ws) := ok_of_map_fst h
  obtain ⟨hs, expiresAt, -, -, -, -, -, hrow, -⟩ := exec_insertQuote.mp hx
  exact ⟨hs, expiresAt, st, hrow⟩

/-! ## Classified answers -/

/-- Whatever is not upstream did its part: no connection was lost, the id drawn for the quote was
fresh, and the clock was not about to leave the years that Postgres reads. -/
structure Undisturbed (ℓ : List (Event sig JsError)) (r : Except JsError Response) : Prop where
  connected : r ≠ .error .connectionError
  fresh : ∀ v, .sql (.insertQuote v) (.error (uniqueViolation "quotes_pkey")) ∉ ℓ
  clock : ∀ now : Int, .ext .dateNow (.ok now) ∈ ℓ → now + 15000 < 253402300800000

/-- A call ends with one quote that is active, has positive amounts and a positive price, or with
none and an exception of HTTP. -/
inductive Classified [DecimalJs] (ℓ : List (Event sig JsError)) : Except JsError Response → Prop
  | quoted {row : QuoteRow Date} {now : Int} {d : Decimal} {p : ℚ}
      (one : ℓ.filterMap inserted? = [row]) (active : row.status = .ACTIVE)
      (base : 0 < row.baseAmountMinor) (quote : 0 < row.quoteAmountMinor)
      (price : (DecimalValue.text row.price).new = .ok d) (number : value d = some p)
      (positive : 0 < p) : Classified ℓ (.ok (.quote (toQuoteResponse now row)))
  | refused {e : JsError} (none : ℓ.filterMap inserted? = []) (h : Refused e) :
      Classified ℓ (.error e)

section
variable [DecimalJs]

/-- The base amount, and what it is worth at the price, are in the range of their columns. An
amount beyond it is the database's to refuse, not Binance's. -/
def InRange (dto : CreateQuoteDto) (ℓ : List (Event sig JsError)) : Prop :=
  ∀ b prices n, Brought dto ℓ b prices n → n ≤ 2 ^ 63 - 1 ∧
    ∀ d p, (DecimalValue.text (dto.side.price prices.1 prices.2)).new = .ok d → value d = some p →
      |n * p| ≤ 2 ^ 63 - 1

/-- The price is a number for decimal.js, and where it makes an amount, Postgres stores the texts of
the price and of the currencies. -/
def Usable (dto : CreateQuoteDto) (ℓ : List (Event sig JsError)) : Prop :=
  ∀ b prices n, Brought dto ℓ b prices n →
    (∃ d p, (DecimalValue.text (dto.side.price prices.1 prices.2)).new = .ok d ∧
      value d = some p) ∧
    ∀ a, computeQuoteAmount dto.side n prices.1 prices.2 = .ok a → 0 < a.quoteAmountMinor →
      storable b.baseCurrency ∧ storable b.quoteCurrency ∧
        storable (dto.side.price prices.1 prices.2)

variable {dto : CreateQuoteDto} {ℓ : List (Event sig JsError)} {b b' : SymbolBreakdown}
  {prices prices' : String × String} {n n' : Int}

/-- A request is brought one split, one pair of prices and one amount. -/
theorem Brought.unique (h : Brought dto ℓ b prices n) (h' : Brought dto ℓ b' prices' n') :
    b' = b ∧ prices' = prices ∧ n' = n :=
  ⟨Option.some.inj (h'.split.symm.trans h.split), Option.some.inj (h'.prices.symm.trans h.prices),
    Except.ok.inj (h'.base.symm.trans h.base)⟩

omit [DecimalJs] in
/-- The quote's date is one that Postgres reads. -/
theorem expiry_of_clock {W : Setting backend} {now : Int}
    (h : Event.Possible W (.ext .dateNow (.ok now))) (hclock : now + 15000 < 253402300800000) :
    ∃ expiresAt t, Date.ofMillis? (now + QuotingService.DEFAULT_QUOTE_TTL_SECONDS * 1000) =
      some expiresAt ∧ Timestamp.ofDate? expiresAt = some t := by
  rcases h.2 with h | ⟨χ, e, -, h⟩
  · cases h
  obtain rfl : e.now.micros / 1000 = now := Except.ok.inj h
  have := e.now.lower
  have hms : QuotingService.DEFAULT_QUOTE_TTL_SECONDS * 1000 = 15000 := rfl
  refine ⟨_, _, dif_pos ⟨by omega, by omega⟩, dif_pos ⟨?_, ?_⟩⟩
  · simp only
    omega
  · simp only
    omega

variable [LawfulDecimalJs] [LawfulInfinity]

omit [LawfulDecimalJs] [LawfulInfinity] in
/-- The values are stored, as far as the texts allow it. -/
theorem storable_values {clientId id : Uuid} {expiresAt : Date} {a : QuoteAmount}
    (hvalid : dto.valid)
    (ha : computeQuoteAmount dto.side n prices.1 prices.2 = .ok a) :
    (dto.values clientId b n a id expiresAt).storable ↔ storable b.baseCurrency ∧
      storable b.quoteCurrency ∧ storable (dto.side.price prices.1 prices.2) := by
  simp [QuoteValues.storable, CreateQuoteDto.values, storable_symbol hvalid,
    (read_of_computeQuoteAmount ha).1]

/-- The amounts computed of answers in range are in range, and a positive amount comes of a
positive price only. -/
theorem InRange.amounts {a : QuoteAmount} (hrange : InRange dto ℓ) (h : Brought dto ℓ b prices n)
    (ha : computeQuoteAmount dto.side n prices.1 prices.2 = .ok a) (hpos : 0 < a.quoteAmountMinor) :
    inBigint n ∧ inBigint a.quoteAmountMinor ∧ ∃ d p,
      (DecimalValue.text (dto.side.price prices.1 prices.2)).new = .ok d ∧ value d = some p ∧
        0 < p := by
  have hn := h.pos
  obtain ⟨hbase, hrange⟩ := hrange b prices n h
  obtain ⟨d, p, hd, hp⟩ := number_of_computeQuoteAmount ha
  obtain ⟨m, hm, hle, hprice⟩ := computeQuoteAmount_of_number hd hp h.pos hbase (hrange d p hd hp)
  obtain rfl := Except.ok.inj (hm.symm.trans ha)
  refine ⟨?_, ?_, d, p, hd, hp, hprice hpos⟩
  · simp only [inBigint, Bool.and_eq_true, decide_eq_true_eq]
    omega
  · simp only [inBigint, Bool.and_eq_true, decide_eq_true_eq]
    simp only at hpos
    omega

/-- However it has ended, an undisturbed request is classified just if what it was brought is
usable. -/
theorem Quoted.classified_iff {clientId : Uuid} {r : Except JsError QuoteResponse}
    (h : Quoted (clientStays clientId) clientId dto ℓ r) (hvalid : dto.valid)
    (hu : Undisturbed ℓ (r.map .quote)) (hrange : InRange dto ℓ) :
    Classified ℓ (r.map .quote) ↔ Usable dto ℓ := by
  cases h with
  | lost => exact absurd rfl hu.connected
  | refused he hnone hmissing =>
    exact iff_of_true (.refused hnone he) fun b prices n hb => absurd hb (hmissing b prices n)
  | @unpriced b prices n e hb hnone he =>
    obtain ⟨message, rfl⟩ := computeQuoteAmount_error he
    refine iff_of_false (fun h => ?_) fun h => ?_
    · cases h with
      | refused _ h => cases h
    · obtain ⟨⟨d, p, hd, hp⟩, -⟩ := h b prices n hb
      obtain ⟨hbase, hrange⟩ := hrange b prices n hb
      obtain ⟨m, hm, -⟩ := computeQuoteAmount_of_number hd hp hb.pos hbase (hrange d p hd hp)
      cases he.symm.trans hm
  | small hb hnone ha hle =>
    refine iff_of_true (.refused hnone (.badRequest _)) fun b' prices' n' hb' => ?_
    obtain ⟨rfl, rfl, rfl⟩ := hb.unique hb'
    refine ⟨number_of_computeQuoteAmount ha, fun a' ha' hpos => ?_⟩
    cases ha.symm.trans ha'
    omega
  | undated hmem hpossible hdate =>
    obtain ⟨expiresAt, t, hsome, -⟩ := expiry_of_clock hpossible (hu.clock _ hmem)
    cases hdate.symm.trans hsome
  | rejected hb ha hpos hmem hpossible hdate hmem' hpossible' =>
    obtain ⟨_, t, hsome, ht⟩ := expiry_of_clock hpossible (hu.clock _ hmem)
    obtain rfl := Option.some.inj (hdate.symm.trans hsome)
    obtain ⟨hbase, hquote, -⟩ := hrange.amounts hb ha hpos
    rcases insertQuote_possible hpossible' (fun _ hd => hd) ht hbase hquote with
      h | h | ⟨hs, h⟩ | ⟨-, _, h⟩
    · cases h
      exact absurd rfl hu.connected
    · cases h
      exact absurd hmem' (hu.fresh _)
    · cases h
      refine iff_of_false (fun h => ?_) fun h => ?_
      · cases h with
        | refused _ h => cases h
      · rw [Bool.eq_false_iff] at hs
        exact absurd ((storable_values hvalid ha).mpr ((h _ _ _ hb).2 _ ha hpos)) hs
    · cases h
  | stored hb ha hpos hone hpossible =>
    obtain ⟨hs, expiresAt, createdAt, rfl⟩ := insertQuote_stored hpossible
    obtain ⟨-, -, d, p, hd, hp, hprice⟩ := hrange.amounts hb ha hpos
    refine iff_of_true (.quoted hone rfl hb.pos hpos ?_ hp hprice) fun b' prices' n' hb' => ?_
    · exact (congrArg (fun x => (DecimalValue.text x).new)
        (read_of_computeQuoteAmount ha).1).trans hd
    · obtain ⟨rfl, rfl, rfl⟩ := hb.unique hb'
      exact ⟨⟨d, p, hd, hp⟩, fun _ _ _ => (storable_values hvalid ha).mp hs⟩

/-- **Answers from upstream are classified** exactly where they are usable: with any two answers of
Binance or of the cache, `createQuote` stores one active quote, or it stores none and throws an
exception of HTTP, if and only if the price of the side is a number for decimal.js and Postgres
stores the texts. -/
theorem createQuote_classified_iff {s₀ s : Sys} (h : State.Reaches program s₀ s)
    (hs : s₀.threads = []) {t : Thread backend Call Response} (ht : t ∈ s.threads) {clientId : Uuid}
    {dto : CreateQuoteDto} (hcall : t.call = .createQuote clientId dto) (hvalid : dto.valid)
    (hclient : (s₀.data.client? clientId).isSome) {r : Except JsError Response}
    (hr : t.result? = some r) (hu : Undisturbed t.log r) (hrange : InRange dto t.log) :
    Classified t.log r ↔ Usable dto t.log := by
  have hyields : ∀ c : Call, (program c).Yields (clientStays clientId) (fun ℓ r =>
      c = .createQuote clientId dto → ∃ q, r = Except.map .quote q ∧
        Quoted (clientStays clientId) clientId dto ℓ q) [] := by
    intro c
    by_cases hc : c = .createQuote clientId dto
    · subst hc
      refine Prog.yields_bind.mpr ((createQuote_yields clientId dto (fun _ => trivial)
        (fun _ _ => trivial) trivial trivial trivial trivial (fun _ _ _ => trivial)
        (fun _ _ => trivial) fun _ _ _ _ => trivial).mono fun ℓ q hq => ?_)
      cases q with
      | ok response => exact fun _ => ⟨_, rfl, hq⟩
      | error e => exact fun _ => ⟨_, rfl, hq⟩
    · exact ((program_acts c).yields fun _ _ => trivial).mono fun _ _ _ h => absurd h hc
  rcases h.yields hyields hs hclient trivial (fun _ _ _ _ => trivial) ht hr with h | h
  · exact absurd h hu.connected
  · obtain ⟨q, rfl, hq⟩ := h hcall
    exact hq.classified_iff hvalid hu hrange

end

section
open scoped Reference

namespace Sample

/-- What Binance might answer about a price, in its shape but with no number. -/
def garbledTicker : FetchOutcome := .response 200 (some (.obj
  [("symbol", .str "BTCUSDT"), ("bidPrice", .str "abc"), ("askPrice", .str "abc")]))

/-- Alice asks for a quote, and Binance answers so. -/
def misprices : List (Label backend Call) :=
  .spawn (.createQuote alice ⟨"BTC", "USDT", .BUY, "0.01"⟩) :: acts 0 1 quoteId ++
    [asks 0 exchangeInfo] ++ acts 0 2 quoteId ++ [asks 0 garbledTicker] ++ acts 0 3 quoteId

/-- Whether an event is none of those that disturb a call. -/
def calmly : Event sig JsError → Bool
  | .sql (.insertQuote _) (.error _) => false
  | .ext .dateNow (.ok now) => (now : Int) + 15000 < 253402300800000
  | _ => true

/-- A call that has not lost its connection, and whose history has none of the events that disturb
it, was undisturbed. -/
theorem undisturbed_of_calmly {ℓ : List (Event sig JsError)} {r : Except JsError Response}
    (hr : r ≠ .error .connectionError) (h : ℓ.all calmly) : Undisturbed ℓ r where
  connected := hr
  fresh _ hv := nomatch List.all_eq_true.mp h _ hv
  clock _ hnow := of_decide_eq_true (List.all_eq_true.mp h _ hnow)

/-- Answers whose price is at most 50001, or no number, keep an amount of 0.01 in range. -/
theorem inRange_of_price {ℓ : List (Event sig JsError)} {prices : String × String}
    (hprices : ℓ.findSome? (pricesOf? "BTCUSDT") = some prices)
    (h : (ofText? prices.1).bind value = none ∨ (ofText? prices.1).bind value = some 50001) :
    InRange ⟨"BTC", "USDT", .BUY, "0.01"⟩ ℓ := by
  intro b prices' n hb
  have hname : lookupName (CreateQuoteDto.symbol ⟨"BTC", "USDT", .BUY, "0.01"⟩) = "BTCUSDT" := by
    decide
  obtain rfl : prices = prices' := by
    have := hb.prices
    rw [hname, hprices] at this
    exact Option.some.inj this
  have hbase : toMinorUnits (.text "0.01") = .ok 1000000 := by decide +kernel
  cases hb.base.symm.trans hbase
  refine ⟨by norm_num, fun d p hd hp => ?_⟩
  have hread : ofText? prices.1 = some d := by
    simp only [TradeSide.price, DecimalValue.new] at hd
    split at hd
    · cases hd
    · next hsome => rw [hsome, Except.ok.inj hd]
  rw [hread, Option.bind_some, hp] at h
  obtain rfl : p = 50001 := by simpa using h
  norm_num

end Sample

/-- Alice's quote. -/
theorem createQuote_classified_iff_alice :
    Classified (Sample.thread (Sample.after (Sample.deposits ++ Sample.quotes)) 1).log
        (.ok (.quote (toQuoteResponse 1700000000000 Sample.quote.load))) ↔
      Usable ⟨"BTC", "USDT", .BUY, "0.01"⟩
        (Sample.thread (Sample.after (Sample.deposits ++ Sample.quotes)) 1).log := by
  have hprices : (Sample.thread (Sample.after (Sample.deposits ++ Sample.quotes)) 1).log.findSome?
      (pricesOf? "BTCUSDT") = some ("50001", "50000") := by decide +kernel
  exact createQuote_classified_iff (Sample.reached (by decide +kernel)) rfl
    (List.mem_of_getElem? (Sample.getElem?_thread (by decide +kernel)))
    (show (Sample.thread _ 1).call = .createQuote Sample.alice ⟨"BTC", "USDT", .BUY, "0.01"⟩ from
      by decide +kernel) (by decide) (by decide +kernel) (by decide +kernel)
    (Sample.undisturbed_of_calmly (by simp) (by decide +kernel))
    (Sample.inRange_of_price hprices (.inr (by decide +kernel)))

/-- A price that is no number makes the call fail with an error that is no exception of HTTP. -/
theorem createQuote_unclassified : ∃ (s : Sys) (t : Thread backend Call Response)
    (r : Except JsError Response),
    State.Reaches program (Sys.start Sample.clients Sample.surroundings) s ∧ t ∈ s.threads ∧
    t.call = .createQuote Sample.alice ⟨"BTC", "USDT", .BUY, "0.01"⟩ ∧
    CreateQuoteDto.valid ⟨"BTC", "USDT", .BUY, "0.01"⟩ ∧ t.result? = some r ∧
    Undisturbed t.log r ∧ InRange ⟨"BTC", "USDT", .BUY, "0.01"⟩ t.log ∧ ¬ Classified t.log r := by
  have hprices : (Sample.thread (Sample.after Sample.misprices) 0).log.findSome?
      (pricesOf? "BTCUSDT") = some ("abc", "abc") := by decide +kernel
  refine ⟨_, Sample.thread (Sample.after Sample.misprices) 0,
    .error (.error "[DecimalError] Invalid argument: abc"), Sample.reached (by decide +kernel),
    List.mem_of_getElem? (Sample.getElem?_thread (by decide +kernel)), by decide +kernel, by decide,
    by decide +kernel, Sample.undisturbed_of_calmly (by simp) (by decide +kernel),
    Sample.inRange_of_price hprices (.inl (by decide +kernel)), fun h => ?_⟩
  cases h with
  | refused _ h => cases h

end

end MiniOpenFX
