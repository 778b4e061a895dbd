import MiniOpenFX.Guarantees.Upstream

/-!
# The pair of a quote

A request names two currencies, and `createQuote` looks up the symbol they make together. Different
pairs make the same symbol, and the quote is stored for the one that the lookup brings, from Binance
or from the cache: `createQuote_pair_iff` says when it is the one that was asked for.
-/

namespace MiniOpenFX

open Js Transactional PricingService

/-! ## Listed symbols -/

/-- Binance answers about the symbol that was asked for, and the name of a symbol is its base asset
followed by its quote asset. -/
def lists : Event sig JsError → Bool
  | .ext (.fetch endpoint name) (.ok outcome) => endpoint ≠ "exchangeInfo" ||
    ((outcome.body?.bind BinanceClient.exchangeInfo?).bind List.head?).all fun info =>
      info.baseAsset ++ info.quoteAsset = name
  | _ => true

/-- The cache holds no split of a symbol but into two currencies that make it. What Binance lists
is of this kind, and nothing else is stored. -/
def SplitsCached (e : Surroundings) : Prop :=
  ∀ name entry b, e.cache (symbolCacheKey name) = some entry → entry.value = .breakdown b →
    b.baseCurrency ++ b.quoteCurrency = name

/-- Symbols have a key each. -/
theorem symbolCacheKey_inj {s s' : String} : symbolCacheKey s = symbolCacheKey s' ↔ s = s' := by
  simp [symbolCacheKey, ToString.toString, String.ext_iff]

/-- The splits in the cache are of their symbols if the one that is put there is. -/
theorem SplitsCached.put {e : Surroundings} (h : SplitsCached e) {key : String}
    {entry : Option CacheEntry} (hentry : ∀ x ∈ entry, ∀ name b, key = symbolCacheKey name →
      x.value = .breakdown b → b.baseCurrency ++ b.quoteCurrency = name) :
    SplitsCached (e.put key entry) := by
  intro name x b hx hb
  simp only [Surroundings.put] at hx
  split at hx
  · next hkey => exact hentry x hx name b hkey.symm hb
  · exact h name x b hx hb

/-- Symbols are listed, and the cache keeps what was listed: the setting in which a lookup can only
bring a split of the symbol it was made for. -/
def listing : Setting backend where
  data _ := True
  env := SplitsCached
  event ev := lists ev
  asks x := ∀ key b ttlMs, x = .redisSet key (.breakdown b) ttlMs → ∀ name,
    key = symbolCacheKey name → b.baseCurrency ++ b.quoteCurrency = name
  apply _ := id
  tick {e} χ h := by
    change SplitsCached (tick χ e)
    unfold tick
    split
    · exact h
    · exact h.put fun _ hx => nomatch hx
  answer {e} x χ hasks _ h := by
    change SplitsCached (answer x χ e).2
    unfold answer
    split
    · exact h
    · exact h
    · exact h
    · exact h
    · exact h
    · split
      · exact h
      · refine h.put fun x hx name b hkey hb => ?_
        cases hx
        subst hb
        exact hasks _ _ _ rfl name hkey
    · exact h.put fun _ hx => nomatch hx
    · exact h
    · exact h

/-- The split that is taken from a listing is of the symbol that was asked for, if Binance lists
symbols as its interface says. -/
theorem lists_head {endpoint name : String} {outcome : FetchOutcome}
    {info : BinanceClient.SymbolInfo}
    (h : lists (.ext (.fetch endpoint name) (.ok outcome))) (hendpoint : endpoint = "exchangeInfo")
    (hinfo : (outcome.body?.bind BinanceClient.exchangeInfo?).bind List.head? = some info) :
    info.baseAsset ++ info.quoteAsset = name := by
  simpa [lists, hendpoint, hinfo] using h

/-- What a lookup brings is a split of the symbol: its two currencies, one after the other, are the
letters that were asked for. -/
theorem append_of_splitOf? {name : String} {ev : Event sig JsError} {b : SymbolBreakdown}
    (h : ev.Possible listing) (hb : splitOf? name ev = some b) :
    b.baseCurrency ++ b.quoteCurrency = name := by
  unfold splitOf? at hb
  split at hb
  · next key b' =>
    split at hb
    · next hkey =>
      cases hb
      subst hkey
      obtain ⟨-, h | ⟨χ, e, he, h⟩⟩ := h
      · cases h
      · have h : e.get (symbolCacheKey name) = some (.breakdown b) := Except.ok.inj h
        unfold Surroundings.get at h
        split at h
        · cases h
        · next entry hentry =>
          split at h
          · exact he name entry b hentry (Option.some.inj h)
          · cases h
    · cases hb
  · next endpoint s outcome =>
    split at hb
    · next hname =>
      obtain ⟨info, hinfo, rfl⟩ := Option.map_eq_some_iff.mp hb
      obtain rfl := hname.2
      exact lists_head h.1 hname.1 hinfo
    · cases hb
  · cases hb

/-- Two ways of writing a symbol are one where the base currencies are as long. The letters of the
request do not say where the first currency ends. -/
theorem split_eq_iff {b q b' q' : String} (h : b ++ q = b' ++ q') :
    b = b' ∧ q = q' ↔ b.length = b'.length := by
  constructor
  · rintro ⟨rfl, -⟩
    rfl
  · intro hlength
    have hlist := congrArg String.toList h
    rw [String.toList_append, String.toList_append] at hlist
    obtain ⟨hb, hq⟩ := List.append_inj hlist hlength
    exact ⟨String.toList_inj.mp hb, String.toList_inj.mp hq⟩

/-! ## The stored pair -/

section
variable [DecimalJs]

omit [DecimalJs] in
/-- Other requests do not matter to the cache of splits. -/
theorem asks_of_not_setsSplit {x : Ext} (hx : setsSplit x = false) : listing.asks x := by
  rintro key b ttlMs rfl
  cases hx

/-- `createQuote` under a setting in which Binance lists symbols as its interface says: it ends as
`Quoted` says, and its history is possible there. -/
theorem createQuote_listing (clientId : Uuid) (dto : CreateQuoteDto) :
    (QuotingService.createQuote clientId dto).Yields listing (fun ℓ r =>
      Quoted listing clientId dto ℓ r ∧ ∀ ev ∈ ℓ, ev.Possible listing) [] := by
  refine (createQuote_yields clientId dto (fun _ => asks_of_not_setsSplit rfl)
    (fun _ _ => asks_of_not_setsSplit rfl) (asks_of_not_setsSplit rfl) (asks_of_not_setsSplit rfl)
    (asks_of_not_setsSplit rfl) (asks_of_not_setsSplit rfl)
    (fun _ _ _ => asks_of_not_setsSplit rfl) (fun _ _ => asks_of_not_setsSplit rfl)
    fun outcome info hpossible hinfo => ?_).possible fun _ h => nomatch h
  rintro key b ttlMs hset name rfl
  obtain ⟨hkey, hb⟩ : symbolCacheKey (lookupName dto.symbol) = symbolCacheKey name ∧
      (⟨info.baseAsset, info.quoteAsset⟩ : SymbolBreakdown) = b := by
    injection hset with hkey hvalue
    injection hvalue with hb
    exact ⟨hkey, hb⟩
  subst hb
  rw [← symbolCacheKey_inj.mp hkey]
  exact lists_head hpossible.1 rfl hinfo

/-- A finished call that made a quote, and what its history brought. -/
theorem program_listing (c : Call) : (program c).Yields listing (fun ℓ r =>
    ∀ clientId dto, c = .createQuote clientId dto → ∀ response, r = .ok response →
      ∃ q, Quoted listing clientId dto ℓ (.ok q) ∧ ∀ ev ∈ ℓ, ev.Possible listing) [] := by
  by_cases hc : ∃ clientId dto, c = .createQuote clientId dto
  · obtain ⟨clientId, dto, rfl⟩ := hc
    refine Prog.yields_bind.mpr ((createQuote_listing clientId dto).mono fun ℓ q hq => ?_)
    cases q with
    | ok q =>
      rintro _ _ ⟨⟩ _ _
      exact ⟨q, hq⟩
    | error e =>
      rintro _ _ ⟨⟩ _ h
      cases h
  · refine ((program_acts_split c).yields fun x hx => asks_of_not_setsSplit ?_).mono
      fun _ _ _ clientId dto h => absurd ⟨clientId, dto, h⟩ hc
    exact Bool.eq_false_iff.mpr fun h => hc (hx h)

/-- **The quote is for the pair that was asked for** exactly where the symbol splits after the base
currency of the request: whatever calls run at once, a call that succeeds stores one quote, for the
two currencies that the lookup brought. -/
theorem createQuote_pair_iff {s₀ s : Sys} (h : State.Reaches program s₀ s) (hs : s₀.threads = [])
    (hcache : SplitsCached s₀.env) (hlists : ∀ t ∈ s.threads, ∀ ev ∈ t.log, lists ev)
    {t : Thread backend Call Response} (ht : t ∈ s.threads) {clientId : Uuid} {dto : CreateQuoteDto}
    (hcall : t.call = .createQuote clientId dto) (hvalid : dto.valid) {response : Response}
    (hr : t.result? = some (.ok response)) :
    ∃ row split, t.log.filterMap inserted? = [row] ∧
      t.log.findSome? (splitOf? dto.symbol) = some split ∧
      ((row.baseCurrency = dto.baseCurrency ∧ row.quoteCurrency = dto.quoteCurrency) ↔
        split.baseCurrency.length = dto.baseCurrency.length) := by
  rcases h.yields program_listing hs trivial hcache hlists ht hr with h | h
  · cases h
  obtain ⟨q, hquoted, hpossible⟩ := h clientId dto hcall response rfl
  cases hquoted with
  | @stored b prices n now a id expiresAt row hb ha hpos hone hrow =>
    have hsplit := hb.split
    rw [lookupName_symbol hvalid] at hsplit
    obtain ⟨ev, hev, hbrings⟩ := List.exists_of_findSome?_eq_some hsplit
    obtain ⟨-, _, _, rfl⟩ := insertQuote_stored hrow
    exact ⟨_, b, hone, hsplit, split_eq_iff (append_of_splitOf? (hpossible ev hev) hbrings)⟩

end

/-! ## Two pairs of one symbol -/

section
open scoped Reference

/-- Alice's quote, for the pair she named. -/
theorem createQuote_pair_iff_alice : ∃ row split,
    (Sample.thread (Sample.after (Sample.deposits ++ Sample.quotes)) 1).log.filterMap inserted? =
      [row] ∧
    (Sample.thread (Sample.after (Sample.deposits ++ Sample.quotes)) 1).log.findSome?
      (splitOf? (CreateQuoteDto.symbol ⟨"BTC", "USDT", .BUY, "0.01"⟩)) = some split ∧
    ((row.baseCurrency = "BTC" ∧ row.quoteCurrency = "USDT") ↔
      split.baseCurrency.length = "BTC".length) :=
  createQuote_pair_iff (Sample.reached (by decide +kernel)) rfl (fun _ _ _ h => nomatch h)
    (fun t ht ev hev => List.all_eq_true.mp (List.all_eq_true.mp (by decide +kernel :
      ((Sample.after (Sample.deposits ++ Sample.quotes)).threads.all fun t => t.log.all lists) =
        true) t ht) ev hev)
    (List.mem_of_getElem? (Sample.getElem?_thread (by decide +kernel)))
    (show (Sample.thread _ 1).call = .createQuote Sample.alice ⟨"BTC", "USDT", .BUY, "0.01"⟩ from
      by decide +kernel) (by decide)
    (show (Sample.thread _ 1).result? =
        some (.ok (.quote (toQuoteResponse 1700000000000 Sample.quote.load)))
      from by decide +kernel)

namespace Sample

/-- Alice asks for a quote for currencies nobody lists, and their letters make a symbol. -/
def missplits : List (Label backend Call) :=
  .spawn (.createQuote alice ⟨"BTCU", "SDT", .BUY, "0.01"⟩) :: acts 0 1 quoteId ++
    [asks 0 exchangeInfo] ++ acts 0 2 quoteId ++ [asks 0 bookTicker] ++ acts 0 8 quoteId

end Sample

/-- The request names two currencies, and the quote is stored for two others. -/
theorem createQuote_other_pair :
    ∃ (s : Sys) (t : Thread backend Call Response) (response : Response)
    (row : QuoteRow Date),
    State.Reaches program (Sys.start Sample.clients Sample.surroundings) s ∧
    (∀ t ∈ s.threads, ∀ ev ∈ t.log, lists ev) ∧ t ∈ s.threads ∧
    t.call = .createQuote Sample.alice ⟨"BTCU", "SDT", .BUY, "0.01"⟩ ∧
    CreateQuoteDto.valid ⟨"BTCU", "SDT", .BUY, "0.01"⟩ ∧ t.result? = some (.ok response) ∧
    t.log.filterMap inserted? = [row] ∧ row.baseCurrency = "BTC" ∧ row.quoteCurrency = "USDT" :=
  ⟨_, Sample.thread (Sample.after Sample.missplits) 0,
    .quote (toQuoteResponse 1700000000000 Sample.quote.load), Sample.quote.load,
    Sample.reached (by decide +kernel),
    fun t ht ev hev => List.all_eq_true.mp (List.all_eq_true.mp (by decide +kernel :
      ((Sample.after Sample.missplits).threads.all fun t => t.log.all lists) = true) t ht) ev hev,
    List.mem_of_getElem? (Sample.getElem?_thread (by decide +kernel)), by decide +kernel, by decide,
    by decide +kernel, by decide +kernel, rfl, rfl⟩

end

end MiniOpenFX
