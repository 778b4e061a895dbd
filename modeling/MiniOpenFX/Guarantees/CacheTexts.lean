import MiniOpenFX.Api.Responses
import MiniOpenFX.Guarantees.Cache
import MiniOpenFX.Proof.Pricing

/-!
# The texts in Redis

Redis holds texts: `setJson` writes a value with `JSON.stringify`, `getJson` makes a value of the
text again. In every state of every run there is under each key only what its own service has put
there, and a reader that is given the text under its key goes on as the one that is given the value,
as it does when Redis fails (`texts_read_back`).
-/

namespace MiniOpenFX

open Js JsonCodec Transactional PricingService

/-! ## Values as texts -/

instance : JsonCodec QuoteStatus where
  toJson := QuoteStatus.toJson
  ofJson? v := v.str?.bind fun s =>
    if s = "ACTIVE" then some .ACTIVE else if s = "EXECUTED" then some .EXECUTED else none
  valid status := by cases status <;> trivial
  ofJson?_toJson status := by cases status <;> rfl

/-- The object that is stored, its fields in the order in which they are printed. It is the form in
which the codec reads it. -/
theorem CachedQuote.toJson_eq (q : CachedQuote) : q.toJson =
    .obj [("id", JsonCodec.toJson q.id), ("clientId", JsonCodec.toJson q.clientId),
      ("symbol", JsonCodec.toJson q.symbol), ("side", JsonCodec.toJson q.side),
      ("baseCurrency", JsonCodec.toJson q.baseCurrency),
      ("quoteCurrency", JsonCodec.toJson q.quoteCurrency),
      ("baseAmountMinor", JsonCodec.toJson q.baseAmountMinor),
      ("price", JsonCodec.toJson q.price),
      ("quoteAmountMinor", JsonCodec.toJson q.quoteAmountMinor),
      ("status", JsonCodec.toJson q.status), ("expiresAt", JsonCodec.toJson q.expiresAt),
      ("createdAt", JsonCodec.toJson q.createdAt)] := rfl

instance : JsonCodec CachedQuote where
  toJson := CachedQuote.toJson
  ofJson? v := do
    return ⟨← v.read? Uuid "id", ← v.read? Uuid "clientId", ← v.read? String "symbol",
      ← v.read? TradeSide "side", ← v.read? String "baseCurrency",
      ← v.read? String "quoteCurrency", ← v.read? String "baseAmountMinor",
      ← v.read? String "price", ← v.read? String "quoteAmountMinor",
      ← v.read? QuoteStatus "status", ← v.read? String "expiresAt", ← v.read? String "createdAt"⟩
  valid q := by simp [CachedQuote.toJson_eq, Json.Valid, validFields_iff]
  ofJson?_toJson q := by simp [CachedQuote.toJson_eq, Json.read?, Json.field?]

instance : JsonCodec SymbolBreakdown where
  toJson b := .obj [("baseCurrency", toJson b.baseCurrency),
    ("quoteCurrency", toJson b.quoteCurrency)]
  ofJson? v := do return ⟨← v.read? String "baseCurrency", ← v.read? String "quoteCurrency"⟩
  valid _ := by simp [Json.Valid, validFields_iff]
  ofJson?_toJson b := by simp [Json.read?, Json.field?]

/-- Which kind of value it is shows in its properties. -/
instance : JsonCodec CacheValue where
  toJson
    | .quote q => toJson q
    | .price p => toJson p
    | .breakdown b => toJson b
  ofJson? v := ((ofJson? v).map CacheValue.quote).or
    (((ofJson? v).map CacheValue.price).or ((ofJson? v).map CacheValue.breakdown))
  valid value := by cases value <;> exact valid _
  ofJson?_toJson value := by
    cases value with
    | quote q => simp
    | price p =>
      have hquote : (ofJson? (toJson p) : Option CachedQuote) = none := rfl
      simp [hquote]
    | breakdown b =>
      have hquote : (ofJson? (toJson b) : Option CachedQuote) = none := rfl
      have hprice : (ofJson? (toJson b) : Option IndicativePrice) = none := rfl
      simp [hquote, hprice]

/-- What a command that asks for a key ends with: what is under the key, or a failure. Both readers
are given the same reply. -/
def Surroundings.Replies (e : Surroundings) (key : String)
    (reply : Except JsError (Option CacheValue)) : Prop :=
  reply = .ok (e.get key) ∨ ∃ x, reply = .error x

/-- Everything that is stored is an object, which counts as true. -/
theorem toJson_cacheValue (value : CacheValue) : ∃ fields, toJson value = Json.obj fields := by
  cases value <;> exact ⟨_, rfl⟩

/-- `getJson` makes of the text the value that was written: the text is not empty, it is JSON, and
an object counts as true. -/
theorem ofReply_text (value : CacheValue) :
    RedisService.ofReply (.ok (some (text value))) = some (toJson value) := by
  obtain ⟨fields, hobj⟩ := toJson_cacheValue value
  have hparse : Json.parse? (text value) = some (toJson value) :=
    Json.parse?_stringify _ (valid value)
  have hne : text value ≠ "" := by
    intro h
    rw [h] at hparse
    cases hparse.symm.trans (show Json.parse? "" = none from rfl)
  simp only [RedisService.ofReply, if_neg hne, hparse, hobj]
  rfl

/-! ## Each key has its own kind of value -/

/-- What the services put under a key: a quote under the key of a quote, a price under that of a
price, a split under that of a split. -/
inductive OwnKey : String → CacheValue → Prop where
  | quote (id : String) (row : QuoteRow Date) :
    OwnKey (quoteCacheKey id) (.quote (serializeQuote row))
  | price (symbol : String) (p : IndicativePrice) :
      OwnKey (priceCacheKey symbol) (.price p)
  | breakdown (symbol : String) (b : SymbolBreakdown) :
      OwnKey (symbolCacheKey symbol) (.breakdown b)

namespace OwnKey

variable {value : CacheValue}

/-- Under the key of a quote there is what `serializeQuote` makes of one. The prefixes of the three
kinds of key differ, so no other value can be there. -/
theorem of_quoteCacheKey {id : String} (h : OwnKey (quoteCacheKey id) value) :
    ∃ row, value = .quote (serializeQuote row) := by
  generalize hkey : quoteCacheKey id = key at h
  cases h with
  | quote id row => exact ⟨row, rfl⟩
  | price symbol p => exact absurd hkey (quoteCacheKey_ne_priceCacheKey _ _)
  | breakdown symbol b => exact absurd hkey (quoteCacheKey_ne_symbolCacheKey _ _)

/-- Under the key of a price there is a price. -/
theorem of_priceCacheKey {symbol : String} (h : OwnKey (priceCacheKey symbol) value) :
    ∃ p, value = .price p := by
  generalize hkey : priceCacheKey symbol = key at h
  cases h with
  | quote id row => exact absurd hkey.symm (quoteCacheKey_ne_priceCacheKey _ _)
  | price symbol p => exact ⟨p, rfl⟩
  | breakdown symbol b => exact absurd hkey.symm (symbolCacheKey_ne_priceCacheKey _ _)

/-- Under the key of a split there is a split. -/
theorem of_symbolCacheKey {symbol : String} (h : OwnKey (symbolCacheKey symbol) value) :
    ∃ b, value = .breakdown b := by
  generalize hkey : symbolCacheKey symbol = key at h
  cases h with
  | quote id row => exact absurd hkey.symm (quoteCacheKey_ne_symbolCacheKey _ _)
  | price symbol p => exact absurd hkey (symbolCacheKey_ne_priceCacheKey _ _)
  | breakdown symbol b => exact ⟨b, rfl⟩

end OwnKey

/-- A value that a call is allowed to store is one that belongs under its key. The obligations of
the calls name the keys they may use. -/
theorem Requests.ownKey {db : Database} {ℓ : History} {key : String} {value : CacheValue}
    {ttlMs : Int}
    (h : Requests db ℓ (.redisSet key value ttlMs)) : OwnKey key value := by
  cases value with
  | quote cached =>
    obtain ⟨id, row, rfl, -, -, rfl⟩ := h
    exact .quote id row
  | price p =>
    obtain ⟨symbol, rfl⟩ := h
    exact .price symbol p
  | breakdown b =>
    obtain ⟨symbol, rfl⟩ := h
    exact .breakdown symbol b

/-- The keys have what the services put there. It is what the readers, which check nothing of the
value they cast, rely on. -/
def OwnKeys (p : Seen backend) : Prop :=
  ∀ key entry, p.env.cache key = some entry → OwnKey key entry.value

section
variable [DecimalJs] {clients : List ClientRow} {e : Surroundings} {s : Sys}

/-- Whatever calls are in progress, every entry of the cache belongs under its key: it was stored
there by the service that reads the key, as no other makes keys of its prefix. -/
theorem ownKeys_of_reaches (hcache : ∀ key, e.cache key = none)
    (h : State.Reaches program (Sys.start clients e) s) : OwnKeys s.seen := by
  refine (h.histories (G := OwnKeys) (P := fun _ _ _ => True) verified (isolated_init _ _) ?_
    (fun _ _ => trivial) (fun _ _ => trivial) (fun _ _ _ _ _ _ => trivial) ?_ ?_).1
  · intro key entry hentry
    cases (hcache _).symm.trans hentry
  · exact fun χ p hp key entry hentry => hp key entry (tick_cache hentry)
  · intro u i t ev w hu _ hi hG _ hw _
    refine ⟨fun key entry hentry => ?_, trivial⟩
    rcases hw.env with henv | ⟨x, k, χ, hp, -, hdata, henv⟩
    · have hentry : w.env.cache key = some entry := hentry
      rw [henv] at hentry
      exact hG key entry hentry
    · have hentry : w.env.cache key = some entry := hentry
      rw [henv] at hentry
      rcases cache_answer hentry with hentry | ⟨ttlMs, rfl⟩
      · exact hG key entry hentry
      · exact (hu.request hi hp).ownKey

omit [DecimalJs] in
/-- What is read from the cache belongs under the key it is read from. -/
theorem ownKey_of_get (h : OwnKeys s.seen) {key : String} {value : CacheValue}
    (hvalue : s.env.get key = some value) : OwnKey key value := by
  unfold Surroundings.get at hvalue
  cases hentry : s.env.cache key with
  | none => simp [hentry] at hvalue
  | some entry =>
    simp only [hentry] at hvalue
    split at hvalue
    · cases hvalue
      exact h key entry hentry
    · cases hvalue

/-! ## Readers -/

namespace QuotingService

/-- What `getQuoteById` does with the row it has loaded. -/
def showRow (clientId : Uuid) (id : String) (row : Option (QuoteRow Date)) : App QuoteResponse := do
  let row ← App.ofExcept
    (assertOwnedByClient QuoteRow.clientId row clientId s!"Quote \"{id}\" not found")
  return toQuoteResponse (← App.dateNow) row

/-- What `getObjectById` does with the object it has loaded. -/
def showObject (clientId : Uuid) (id : String) (row : Option QuoteObject) :
    App QuoteResponseObject := do
  let row ← App.ofExcept (assertObjectOwnedByClient row clientId s!"Quote \"{id}\" not found")
  App.ofExcept (toQuoteResponseObject (← App.dateNow) row)

/-- An object read from the text of a row is shown as the row is: every property of the response is
there, and prints as it would. -/
theorem showObject_ofRow (clientId : Uuid) (id : String) (row : Option (QuoteRow Date)) :
    showObject clientId id (row.map .ofRow) =
      QuoteResponse.toObject <$> showRow clientId id row := by
  simp only [showObject, showRow, assertObjectOwnedByClient_ofRow]
  cases assertOwnedByClient QuoteRow.clientId row clientId s!"Quote \"{id}\" not found" with
  | error x => rfl
  | ok row =>
    refine Eq.trans (congrArg (Prog.bind App.dateNow) (funext fun now => ?_))
      (Prog.bind_assoc App.dateNow _ _).symm
    exact congrArg App.ofExcept (toQuoteResponseObject_ofRow now row)

/-- `getQuoteById` asks Redis first, and goes on by the reply: a quote is decoded and shown,
anything else is a miss. -/
theorem getQuoteById_asks (clientId : Uuid) (id : String) :
    ∃ k, getQuoteById clientId id = .ext (.redisGet (quoteCacheKey id)) k ∧
      (∀ x, k (.error x) = (loadUncached id).bind (showRow clientId id)) ∧
      k (.ok none) = (loadUncached id).bind (showRow clientId id) ∧
      ∀ row, k (.ok (some (.quote (serializeQuote row)))) = showRow clientId id (some row) := by
  refine ⟨_, rfl, fun _ => rfl, rfl, fun row => ?_⟩
  change ((App.ofExcept (deserializeQuote (serializeQuote row))).bind fun row =>
    .done (.ok (some row))).bind (showRow clientId id) = _
  rw [deserializeQuote_serializeQuote]
  rfl

variable [JsEngine]

/-- After a miss. -/
theorem getObjectById_miss {reply : Except JsError (Option String)} {clientId : Uuid} {id : String}
    (h : RedisService.ofReply reply = none) : getObjectById reply clientId id =
      QuoteResponse.toObject <$> (loadUncached id).bind (showRow clientId id) := by
  have hload : loadObject reply id =
      (loadUncached id).bind fun row => .done (.ok (row.map .ofRow)) := by
    rw [loadObject, h]
    rfl
  calc getObjectById reply clientId id
      = (loadObject reply id).bind (showObject clientId id) := rfl
    _ = (loadUncached id).bind fun row => showObject clientId id (row.map .ofRow) := by
      rw [hload, Prog.bind_assoc]
      rfl
    _ = (loadUncached id).bind fun row => QuoteResponse.toObject <$> showRow clientId id row :=
      congrArg _ (funext fun row => showObject_ofRow clientId id row)
    _ = QuoteResponse.toObject <$> (loadUncached id).bind (showRow clientId id) :=
      (Prog.bind_assoc _ _ _).symm

/-- With the text of what is under the key, and with no answer, `getObjectById` shows what
`getQuoteById` shows. -/
theorem getObjectById_text {e : Surroundings} {id : String}
    (hkey : ∀ value, e.get (quoteCacheKey id) = some value → OwnKey (quoteCacheKey id) value)
    {reply : Except JsError (Option CacheValue)} (hreply : e.Replies (quoteCacheKey id) reply)
    (clientId : Uuid) : ∃ k, getQuoteById clientId id = .ext (.redisGet (quoteCacheKey id)) k ∧
      getObjectById (reply.map (Option.map text)) clientId id =
        QuoteResponse.toObject <$> k reply := by
  obtain ⟨k, hk, herror, hnone, hquote⟩ := getQuoteById_asks clientId id
  refine ⟨k, hk, ?_⟩
  rcases hreply with rfl | ⟨x, rfl⟩
  · cases hvalue : e.get (quoteCacheKey id) with
    | none =>
      rw [hnone]
      exact getObjectById_miss rfl
    | some value =>
      obtain ⟨row, rfl⟩ := (hkey value hvalue).of_quoteCacheKey
      have hload : loadObject (.ok (some (text (CacheValue.quote (serializeQuote row))))) id =
          .done (.ok (some (.ofRow row))) := by
        rw [loadObject, ofReply_text]
        change (App.ofExcept (deserializeObject (serializeQuote row).toJson)).bind _ = _
        rw [deserializeObject_toJson]
        rfl
      rw [hquote]
      calc getObjectById (.ok (some (text (CacheValue.quote (serializeQuote row))))) clientId id
          = (loadObject (.ok (some (text (CacheValue.quote (serializeQuote row))))) id).bind
              (showObject clientId id) := rfl
        _ = showObject clientId id (some (.ofRow row)) := by
          rw [hload]
          rfl
        _ = QuoteResponse.toObject <$> showRow clientId id (some row) :=
          showObject_ofRow clientId id (some row)
  · rw [herror]
    exact getObjectById_miss rfl

end QuotingService

namespace PricingService

omit [DecimalJs] in
/-- `getPriceObject` returns what `getPrice` returns, as JSON. On a miss both fetch the price and
agree from there. -/
theorem getPriceObject_text {e : Surroundings} {rawSymbol : String}
    (hkey : ∀ value, e.get (priceCacheKey (lookupName rawSymbol)) = some value →
      OwnKey (priceCacheKey (lookupName rawSymbol)) value)
    {reply : Except JsError (Option CacheValue)}
    (hreply : e.Replies (priceCacheKey (lookupName rawSymbol)) reply) :
    ∃ k, getPrice rawSymbol = .ext (.redisGet (priceCacheKey (lookupName rawSymbol))) k ∧
      Sum.elim id toJson <$> getPriceObject (reply.map (Option.map text)) rawSymbol =
        toJson <$> k reply := by
  refine ⟨_, rfl, ?_⟩
  have hmiss : ∀ {r}, RedisService.ofReply r = none →
      Sum.elim id toJson <$> getPriceObject r rawSymbol =
        toJson <$> fetchPrice (lookupName rawSymbol) := by
    intro r hr
    rw [getPriceObject, hr]
    exact Prog.bind_assoc _ _ _
  rcases hreply with rfl | ⟨x, rfl⟩
  · cases hvalue : e.get (priceCacheKey (lookupName rawSymbol)) with
    | none => exact hmiss rfl
    | some value =>
      obtain ⟨p, rfl⟩ := (hkey value hvalue).of_priceCacheKey
      rw [getPriceObject, show Except.map (Option.map text) (.ok (some (CacheValue.price p))) =
        Except.ok (some (text (CacheValue.price p))) from rfl, ofReply_text]
      rfl
  · exact hmiss rfl

omit [DecimalJs] in
/-- `getSymbolBreakdownObject` returns what `getSymbolBreakdown` returns, as JSON. -/
theorem getSymbolBreakdownObject_text {e : Surroundings} {rawSymbol : String}
    (hkey : ∀ value, e.get (symbolCacheKey (lookupName rawSymbol)) = some value →
      OwnKey (symbolCacheKey (lookupName rawSymbol)) value)
    {reply : Except JsError (Option CacheValue)}
    (hreply : e.Replies (symbolCacheKey (lookupName rawSymbol)) reply) :
    ∃ k, getSymbolBreakdown rawSymbol =
        .ext (.redisGet (symbolCacheKey (lookupName rawSymbol))) k ∧
      Sum.elim id toJson <$> getSymbolBreakdownObject (reply.map (Option.map text)) rawSymbol =
        toJson <$> k reply := by
  refine ⟨_, rfl, ?_⟩
  have hmiss : ∀ {r}, RedisService.ofReply r = none →
      Sum.elim id toJson <$> getSymbolBreakdownObject r rawSymbol =
        toJson <$> fetchSymbolBreakdown (lookupName rawSymbol) := by
    intro r hr
    rw [getSymbolBreakdownObject, hr]
    exact Prog.bind_assoc _ _ _
  rcases hreply with rfl | ⟨x, rfl⟩
  · cases hvalue : e.get (symbolCacheKey (lookupName rawSymbol)) with
    | none => exact hmiss rfl
    | some value =>
      obtain ⟨b, rfl⟩ := (hkey value hvalue).of_symbolCacheKey
      rw [getSymbolBreakdownObject,
        show Except.map (Option.map text) (.ok (some (CacheValue.breakdown b))) =
          Except.ok (some (text (CacheValue.breakdown b))) from rfl, ofReply_text]
      rfl
  · exact hmiss rfl

end PricingService

/-- **The texts.** In every state of every run, a reader that is given what Redis replies as a
text goes on as the one that is given the value. Under every key is only what its own service
has put there, which is what the readers rely on. -/
theorem texts_read_back [JsEngine] (hcache : ∀ key, e.cache key = none)
    (h : State.Reaches program (Sys.start clients e) s) :
    OwnKeys s.seen ∧
    (∀ clientId id reply, s.env.Replies (quoteCacheKey id) reply →
      ∃ k, QuotingService.getQuoteById clientId id = .ext (.redisGet (quoteCacheKey id)) k ∧
        QuotingService.getObjectById (reply.map (Option.map text)) clientId id =
          QuoteResponse.toObject <$> k reply) ∧
    (∀ rawSymbol reply, s.env.Replies (priceCacheKey (lookupName rawSymbol)) reply →
      ∃ k, getPrice rawSymbol = .ext (.redisGet (priceCacheKey (lookupName rawSymbol))) k ∧
        Sum.elim id toJson <$> getPriceObject (reply.map (Option.map text)) rawSymbol =
          toJson <$> k reply) ∧
    ∀ rawSymbol reply, s.env.Replies (symbolCacheKey (lookupName rawSymbol)) reply →
      ∃ k, getSymbolBreakdown rawSymbol =
          .ext (.redisGet (symbolCacheKey (lookupName rawSymbol))) k ∧
        Sum.elim id toJson <$> getSymbolBreakdownObject (reply.map (Option.map text)) rawSymbol =
          toJson <$> k reply := by
  have hkeys : OwnKeys s.seen := ownKeys_of_reaches hcache h
  exact ⟨hkeys, fun clientId _ _ hreply => QuotingService.getObjectById_text
      (fun _ hvalue => ownKey_of_get hkeys hvalue) hreply clientId,
    fun _ _ hreply => getPriceObject_text (fun _ hvalue => ownKey_of_get hkeys hvalue) hreply,
    fun _ _ hreply =>
      getSymbolBreakdownObject_text (fun _ hvalue => ownKey_of_get hkeys hvalue) hreply⟩

end

section
open scoped Reference

/-- Alice's quote is in the cache when it has been made. -/
theorem quoted_get : (Sample.after (Sample.deposits ++ Sample.quotes)).env.get
    (quoteCacheKey Sample.quoteId.text) = some (.quote (serializeQuote Sample.quote.load)) := by
  decide +kernel

/-- Alice's quote, read from its text. -/
theorem texts_read_back_quoted : ∃ k, QuotingService.getQuoteById Sample.alice Sample.quoteId.text =
    .ext (.redisGet (quoteCacheKey Sample.quoteId.text)) k ∧
      QuotingService.getObjectById
        (.ok (some (text (CacheValue.quote (serializeQuote Sample.quote.load)))))
        Sample.alice Sample.quoteId.text =
          QuoteResponse.toObject <$> k (.ok (some (.quote (serializeQuote Sample.quote.load)))) :=
  (texts_read_back (fun _ => rfl) (Sample.reached (by decide +kernel))).2.1 Sample.alice
    Sample.quoteId.text (.ok (some (.quote (serializeQuote Sample.quote.load))))
    (.inl (congrArg Except.ok quoted_get.symm))

end

end MiniOpenFX
