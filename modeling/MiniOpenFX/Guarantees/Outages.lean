import MiniOpenFX.Guarantees.CachedReads
import MiniOpenFX.Redis.Replies

/-!
# Redis out of order

Commands to Redis fail, and a reply can be any text. A reader takes a reply that is no JSON for a
miss, but it decodes and checks the value of any other outside `failSoft`, so a value of the wrong
shape breaks the read of a quote (`unharmed_iff`). The readers of prices and symbols return
whatever counts as true, and a trade asks Redis for nothing.
-/

namespace MiniOpenFX

open Js Transactional

/-- The acts that may fail: the commands to Redis, reads, writes and deletions. -/
def redisFails : Act sig → Bool
  | .ext (.redisGet _) | .ext (.redisSet ..) | .ext (.redisDel _) => true
  | _ => false

/-- What a call throws. -/
def thrown {α : Type} : Except JsError α → Option JsError
  | .error x => some x
  | .ok _ => none

/-! ## Reads of quotes -/

/-- A write to the cache goes on the same way if it fails. -/
theorem setJson_bind {α : Type} (key : String) (value : CacheValue) (ttlMs : Int)
    (f : Unit → App α) : (RedisService.setJson key value ttlMs).bind f =
      Prog.ext (S := sig) (.redisSet key value ttlMs) fun _ => f () :=
  congrArg (Prog.ext (S := sig) (.redisSet key value ttlMs)) (funext fun r => by cases r <;> rfl)

section
variable {α : Type} (id : String) (db : Database)

/-- After a miss, the row comes from Postgres, and the cache has no say any more: a write to it may
fail without being noticed. -/
theorem run_loadUncached_bind (f : Option (QuoteRow Date) → App α) (τ : Nat → Turn backend)
    (e : Surroundings) :
    (∃ x, db.readQuote id = .error x ∧
      (((QuotingService.loadUncached id).bind f).run redisFails τ ⟨db, e, none⟩).1 = .error x) ∨
    ∃ row τ' e', db.readQuote id = .ok row ∧
      ((QuotingService.loadUncached id).bind f).run redisFails τ ⟨db, e, none⟩ =
        (f row).run redisFails τ' ⟨db, e', none⟩ := by
  unfold QuotingService.loadUncached
  simp only [Prog.bind_eq]
  rw [Prog.bind_assoc, App.query, Prog.run_query_bind rfl,
    show backend.exec (.selectQuote id) (τ 0).choice (backend.stamp ((τ 0).env e)) db = _ from
      exec_selectQuote_eq ((τ 0).env e).now db id]
  cases db.readQuote id with
  | error x => exact .inl ⟨x, rfl, rfl⟩
  | ok row =>
    refine .inr ?_
    cases row with
    | none => exact ⟨none, _, _, rfl, rfl⟩
    | some row =>
      simp only [Except.map]
      rw [Prog.bind_assoc, App.dateNow, App.request, Prog.run_request_bind rfl]
      simp only [answer, Prog.bind_ok]
      split
      · rw [Prog.bind_assoc, setJson_bind, Prog.run]
        dsimp only
        split <;> exact ⟨_, _, _, rfl, rfl⟩
      · exact ⟨_, _, _, rfl, rfl⟩

end

/-- A quote is shown unless one of its dates cannot be printed. -/
theorem thrown_toQuoteResponseObject [DecimalJs] (now : Int) (row : QuoteObject) :
    thrown (toQuoteResponseObject now row) =
      if row.expiresAt.isSome ∧ row.createdAt.isSome then none
      else some (.error "Invalid time value") := by
  unfold toQuoteResponseObject
  cases row.expiresAt with
  | none => rfl
  | some d => cases row.createdAt <;> rfl

section
variable [JsEngine] {clientId : Uuid} {id : String} {db : Database}

/-- What a read that misses the cache throws: that the id is no uuid, or that the client has no
such quote. -/
def missError (db : Database) (clientId : Uuid) (id : String) : Option JsError :=
  thrown ((db.readQuote id).bind fun row =>
    assertOwnedByClient QuoteRow.clientId row clientId s!"Quote \"{id}\" not found")

/-- What a read that finds a value in the cache throws. The value may be anything that is JSON and
counts as true. -/
def hitError (cached : Json) (clientId : Uuid) (id : String) : Option JsError :=
  match deserializeObject cached with
  | .error x => some x
  | .ok row =>
    if row.spread.text? "clientId" ≠ some clientId.text then
      some (.notFoundException s!"Quote \"{id}\" not found")
    else if row.expiresAt.isSome ∧ row.createdAt.isSome then none
    else some (.error "Invalid time value")

variable [DecimalJs]

/-- What a read throws depends on the reply and on the tables alone: neither the surroundings nor
other failures of Redis matter. -/
theorem thrown_getObjectById (reply : Except JsError (Option String)) (τ : Nat → Turn backend)
    (e : Surroundings) :
    thrown ((QuotingService.getObjectById reply clientId id).run redisFails τ ⟨db, e, none⟩).1 =
      match RedisService.ofReply reply with
      | none => missError db clientId id
      | some cached => hitError cached clientId id := by
  -- the end of a read, once the row is there
  have hend : ∀ (row : Option QuoteObject) (τ : Nat → Turn backend) e,
      thrown (((App.ofExcept (assertObjectOwnedByClient row clientId
        s!"Quote \"{id}\" not found")).bind fun row => App.dateNow.bind fun now =>
          App.ofExcept (toQuoteResponseObject now row)).run redisFails τ ⟨db, e, none⟩).1 =
      match assertObjectOwnedByClient row clientId s!"Quote \"{id}\" not found" with
      | .error x => some x
      | .ok row => if row.expiresAt.isSome ∧ row.createdAt.isSome then none
        else some (.error "Invalid time value") := by
    intro row τ e
    cases assertObjectOwnedByClient row clientId s!"Quote \"{id}\" not found" with
    | error x => rfl
    | ok row =>
      rw [App.ofExcept, Prog.bind_ok, App.dateNow, App.request, Prog.run_request_bind rfl]
      exact thrown_toQuoteResponseObject _ row
  unfold QuotingService.getObjectById QuotingService.loadObject
  cases RedisService.ofReply reply with
  | some cached =>
    simp only [hitError]
    cases deserializeObject cached with
    | error x => rfl
    | ok row =>
      refine (hend (some row) τ e).trans ?_
      by_cases hown : row.spread.text? "clientId" ≠ some clientId.text
      · simp only [assertObjectOwnedByClient, if_pos hown]
      · simp only [assertObjectOwnedByClient, if_neg hown]
  | none =>
    simp only [Prog.bind_eq, Prog.bind_assoc, missError]
    obtain ⟨x, hx, hrun⟩ | ⟨row, τ', e', hrow, hrun⟩ := run_loadUncached_bind id db
      (fun row => ((pure (row.map QuoteObject.ofRow) : App (Option QuoteObject)).bind fun row =>
        (App.ofExcept (assertObjectOwnedByClient row clientId s!"Quote \"{id}\" not found")).bind
          fun row => App.dateNow.bind fun now => App.ofExcept (toQuoteResponseObject now row))) τ e
    · rw [hrun, hx]
      rfl
    · rw [hrun, hrow]
      refine (hend _ τ' e').trans ?_
      rw [assertObjectOwnedByClient_ofRow]
      change _ = thrown (assertOwnedByClient QuoteRow.clientId row clientId _)
      cases assertOwnedByClient QuoteRow.clientId row clientId s!"Quote \"{id}\" not found" <;> rfl

end

/-! ## Trades -/

/-- The requests that Redis has no part in. -/
def Heeded : Ext → Prop
  | .redisGet _ | .redisSet .. | .redisDel _ => False
  | _ => True

/-- Surroundings that differ in the cache only. -/
def SameButCache (e e' : Surroundings) : Prop :=
  e.now = e'.now ∧ e.priceCacheTtlMs = e'.priceCacheTtlMs

theorem sameButCache_equivalence : Equivalence SameButCache where
  refl _ := ⟨rfl, rfl⟩
  symm h := ⟨h.1.symm, h.2.symm⟩
  trans h h' := ⟨h.1.trans h'.1, h.2.trans h'.2⟩

/-- What happens around two calls keeps their surroundings the same but for the cache. -/
theorem SameButCache.tick {e e' : Surroundings} (h : SameButCache e e') (χ : Choice) :
    SameButCache (tick χ e) (tick χ e') := by
  unfold MiniOpenFX.tick
  split
  · exact ⟨congrArg (Timestamp.advance · _) h.1, h.2⟩
  · exact h

/-- What Redis has no part in is answered alike. -/
theorem SameButCache.answer {e e' : Surroundings} (h : SameButCache e e') {x : Ext} (hx : Heeded x)
    (χ : Choice) : (answer x χ e).1 = (answer x χ e').1 ∧
      SameButCache (MiniOpenFX.answer x χ e).2 (MiniOpenFX.answer x χ e').2 := by
  cases x with
  | redisGet | redisSet | redisDel => exact hx.elim
  | dateNow => exact ⟨by simp only [MiniOpenFX.answer, Surroundings.dateNow, h.1], h⟩
  | priceCacheTtlMs => exact ⟨by simp only [MiniOpenFX.answer, h.2], h⟩
  | uuidv4 | genRandomUuid | fetch | firstRejects => exact ⟨rfl, h⟩

/-- Commands to Redis change nothing but the cache. -/
theorem sameButCache_answer {x : Ext} (hx : ¬ Heeded x) (χ : Choice) (e : Surroundings) :
    SameButCache e (answer x χ e).2 := by
  cases x with
  | redisSet key value ttlMs =>
    simp only [answer]
    split <;> exact ⟨rfl, rfl⟩
  | redisGet | redisDel => exact ⟨rfl, rfl⟩
  | _ => exact (hx trivial).elim

/-- A loop heeds what its body heeds. This and the lemmas below go through a trade, to find that no
answer of Redis makes a difference to it. -/
theorem heeds_forM {α : Type} {xs : List α} {f : α → App PUnit} (h : ∀ a, (f a).Heeds Heeded) :
    Prog.Heeds Heeded (xs.forM f : App PUnit) := by
  induction xs with
  | nil => trivial
  | cons a xs ih => exact (h a).bind fun _ => ih

theorem heeds_ofExcept {α : Type} (r : Except JsError α) : (App.ofExcept r).Heeds Heeded := trivial

theorem lockBalanceRows_heeds (clientId : Uuid) (currencies : List String) :
    (LedgerService.lockBalanceRows clientId currencies).Heeds Heeded := by
  refine (heeds_forM fun _ => Prog.heeds_query _).bind fun _ => Prog.Heeds.bind ?_ fun _ => ?_
  · exact heeds_forM fun _ => (Prog.heeds_query _).bind fun _ => trivial
  · trivial

theorem debit_heeds (lock : BalanceLock) (params : LedgerMovementParams) :
    (LedgerService.debit lock params).Heeds Heeded := by
  refine (heeds_ofExcept _).bind fun _ => (Prog.heeds_query _).bind fun updated => ?_
  cases updated with
  | none => trivial
  | some _ => exact Prog.heeds_query _

theorem credit_heeds (lock : BalanceLock) (params : LedgerMovementParams) :
    (LedgerService.credit lock params).Heeds Heeded :=
  (heeds_ofExcept _).bind fun _ => (Prog.heeds_query _).bind fun _ => Prog.heeds_query _

/-- The trade's transaction reads the clock and draws an id besides its statements; Redis has no
part in it. -/
theorem executeWithinTransaction_heeds (clientId : Uuid) (quoteId idempotencyKey : String) :
    (TradingService.executeWithinTransaction clientId quoteId idempotencyKey).Heeds Heeded := by
  refine (Prog.heeds_query _).bind fun row => (heeds_ofExcept _).bind fun quote => ?_
  split
  · trivial
  · refine (Prog.heeds_request (S := sig) (Q := Heeded) (e := .dateNow) trivial).bind fun now => ?_
    split
    · trivial
    · exact (lockBalanceRows_heeds _ _).bind fun lock =>
        (Prog.heeds_request (S := sig) (Q := Heeded) (e := .uuidv4) trivial).bind fun tradeId =>
          (debit_heeds _ _).bind fun _ => (credit_heeds _ _).bind fun _ =>
            (Prog.heeds_query _).bind fun _ => (Prog.heeds_query _).bind fun _ => trivial

/-- A trade goes on the same way whatever Redis answers: its only command deletes the quote, after
the commit. -/
theorem executeTrade_heeds [DecimalJs] (clientId : Uuid) (dto : CreateTradeDto) (key : String) :
    (TradingService.executeTrade clientId dto key).Heeds Heeded := by
  refine (Prog.heeds_query _).bind fun found => ?_
  cases found with
  | some row => trivial
  | none =>
    refine (Prog.Heeds.attempt (executeWithinTransaction_heeds _ _ _).transaction).bind fun row =>
      ?_
    cases row with
    | ok row =>
      exact ⟨.inr fun r r' => by cases r <;> cases r' <;> rfl, fun r => by cases r <;> trivial⟩
    | error x => trivial

/-! ## Prices -/

/-- What follows `setJson` goes on in the same way whatever Redis has answered. -/
theorem setJson_bind_heeds {α : Type} (key : String) (value : CacheValue) (ttlMs : Int)
    {f : Unit → App α} (hf : (f ()).Heeds Heeded) :
    ((RedisService.setJson key value ttlMs).bind f).Heeds Heeded := by
  rw [setJson_bind]
  exact ⟨.inr fun _ _ => rfl, fun _ => hf⟩

theorem binance_request_heeds {α : Type} (endpoint symbol : String)
    (validShape? : Json → Option α) :
    (BinanceClient.request endpoint symbol validShape?).Heeds Heeded := by
  unfold BinanceClient.request
  refine (Prog.Heeds.attempt (Prog.heeds_request (S := sig) trivial)).bind fun r => ?_
  split
  · split
    · trivial
    · split
      · trivial
      · split
        · trivial
        · split <;> trivial
  all_goals trivial

/-- Translating the errors of Binance heeds nothing more. -/
theorem mapBinanceErrors_heeds {α : Type} {x : App α} (hx : x.Heeds Heeded) :
    (PricingService.mapBinanceErrors x).Heeds Heeded := by
  unfold PricingService.mapBinanceErrors
  refine hx.attempt.bind fun r => ?_
  split <;> trivial

/-- `fetchPrice` goes on in the same way whether the price could be stored or not. -/
theorem fetchPrice_heeds (symbol : String) : (PricingService.fetchPrice symbol).Heeds Heeded := by
  unfold PricingService.fetchPrice
  refine (mapBinanceErrors_heeds ?_).bind fun price => ?_
  · refine (binance_request_heeds _ _ _).bind fun ticker => ?_
    exact (Prog.heeds_request (S := sig) (e := .dateNow) trivial).bind fun now => trivial
  · refine (Prog.heeds_request (S := sig) (e := .priceCacheTtlMs) trivial).bind fun ttlMs => ?_
    exact setJson_bind_heeds _ _ _ trivial

/-- `fetchSymbolBreakdown` goes on in the same way whether the split could be stored or not. -/
theorem fetchSymbolBreakdown_heeds (symbol : String) :
    (PricingService.fetchSymbolBreakdown symbol).Heeds Heeded := by
  unfold PricingService.fetchSymbolBreakdown
  refine (mapBinanceErrors_heeds ?_).bind fun breakdown => setJson_bind_heeds _ _ _ trivial
  refine Prog.Heeds.bind ((binance_request_heeds _ _ _).bind fun infos => ?_) fun info => trivial
  split <;> trivial

/-! ## Nothing breaks -/

section
variable [JsEngine]

/-- The reply is a miss; or an object whose amounts `BigInt` takes, and which the read can show the
client, or which is not the client's as little as the row is. -/
def Harmless (reply : Except JsError (Option String)) (db : Database) (clientId : Uuid)
    (id : String) : Prop :=
  ∀ cached, RedisService.ofReply reply = some cached → ∃ row, deserializeObject cached = .ok row ∧
    (row.spread.text? "clientId" = some clientId.text ∧ row.expiresAt.isSome ∧
      row.createdAt.isSome ∨
      row.spread.text? "clientId" ≠ some clientId.text ∧
        ∃ found, db.readQuote id = .ok found ∧ ∀ q ∈ found, q.clientId ≠ clientId)

/-- What goes wrong in reading an object back is a plain `Error`, which ends the request with a
500. -/
theorem deserializeObject_error {cached : Json} {x : JsError}
    (h : deserializeObject cached = .error x) :
    ∃ message, x = .error message := by
  have hbigint : ∀ v y, bigintOf v = .error y → ∃ message, y = .error message := by
    intro v y hy
    unfold bigintOf at hy
    split at hy
    · cases hy
      unfold bigintError
      split
      · exact ⟨_, rfl⟩
      · exact ⟨_, rfl⟩
      · exact ⟨_, rfl⟩
      · exact ⟨_, rfl⟩
      · split <;> exact ⟨_, rfl⟩
      · split <;> exact ⟨_, rfl⟩
    · cases hy
  have hdate : ∀ v y, dateOf v = .error y → ∃ message, y = .error message := by
    intro v y hy
    unfold dateOf at hy
    split at hy
    · cases hy
      exact ⟨_, rfl⟩
    · cases hy
  unfold deserializeObject at h
  cases h₁ : bigintOf (cached.field? "baseAmountMinor") with
  | error y => rw [h₁] at h; cases h; exact hbigint _ _ h₁
  | ok n =>
    cases h₂ : bigintOf (cached.field? "quoteAmountMinor") with
    | error y => rw [h₁, h₂] at h; cases h; exact hbigint _ _ h₂
    | ok m =>
      cases h₃ : dateOf (cached.field? "expiresAt") with
      | error y => rw [h₁, h₂, h₃] at h; cases h; exact hdate _ _ h₃
      | ok d =>
        cases h₄ : dateOf (cached.field? "createdAt") with
        | error y => rw [h₁, h₂, h₃, h₄] at h; cases h; exact hdate _ _ h₄
        | ok d' => rw [h₁, h₂, h₃, h₄] at h; cases h

omit [JsEngine] in
/-- A read that misses the cache ends with no plain `Error`. -/
theorem missError_ne_error {db : Database} {clientId : Uuid} {id message : String} :
    missError db clientId id ≠ some (.error message) := by
  unfold missError Database.readQuote
  cases Uuid.ofText? id with
  | none => simp [Except.bind, thrown, invalidTextRepresentation]
  | some u =>
    simp only [Except.bind, assertOwnedByClient]
    split
    · simp [thrown]
    · split <;> simp [thrown]

omit [JsEngine] in
/-- A read that misses is told that there is no such quote, if there is none of the client. -/
theorem missError_eq_notFound_iff {db : Database} {clientId : Uuid} {id : String} :
    missError db clientId id = some (.notFoundException s!"Quote \"{id}\" not found") ↔
      ∃ found, db.readQuote id = .ok found ∧ ∀ q ∈ found, q.clientId ≠ clientId := by
  unfold missError
  cases hread : db.readQuote id with
  | error x =>
    have hx : x = invalidTextRepresentation := by
      unfold Database.readQuote at hread
      split at hread <;> cases hread
      rfl
    simp [Except.bind, thrown, hx, invalidTextRepresentation]
  | ok found =>
    cases found with
    | none => simp [Except.bind, thrown, assertOwnedByClient]
    | some q =>
      by_cases hq : q.clientId = clientId <;> simp [Except.bind, thrown, assertOwnedByClient, hq]

/-- A value in the cache throws nothing that a miss would not, if and only if it is harmless. By
cases on what `deserializeQuote` makes of the value. -/
theorem harmless_iff {reply : Except JsError (Option String)} {db : Database} {clientId : Uuid}
    {id : String} : Harmless reply db clientId id ↔
      ∀ cached, RedisService.ofReply reply = some cached →
      ∀ x, hitError cached clientId id = some x → missError db clientId id = some x := by
  refine forall₂_congr fun cached _ => ?_
  unfold hitError
  cases hrow : deserializeObject cached with
  | error x =>
    obtain ⟨message, rfl⟩ := deserializeObject_error hrow
    refine iff_of_false (fun ⟨_, h, _⟩ => by cases h) fun h => missError_ne_error (h _ rfl)
  | ok row =>
    simp only [Except.ok.injEq, exists_eq_left']
    by_cases hown : row.spread.text? "clientId" = some clientId.text
    · by_cases hdates : row.expiresAt.isSome ∧ row.createdAt.isSome
      · simp [hown, hdates]
      · simp only [hown, hdates, ne_eq, not_true_eq_false, false_and, or_false, and_false, if_false]
        exact iff_of_false not_false fun h => missError_ne_error (h _ rfl)
    · simp [hown, missError_eq_notFound_iff]

variable [DecimalJs]

/-- The same happens around two calls, except that different commands to Redis fail. -/
def SameTurns (τ τ' : Nat → Turn backend) : Prop :=
  ∀ n, (τ n).moves = (τ' n).moves ∧ (τ n).choice = (τ' n).choice

omit [JsEngine] [DecimalJs] in
/-- Redis has no part in what a program that heeds only the others answers and leaves. Two runs
with different failures of Redis end alike. -/
theorem run_heeded {α : Type} {x : App α} (hx : x.Heeds Heeded) {τ τ' : Nat → Turn backend}
    (hτ : SameTurns τ τ') {db : Database} {e e' : Surroundings} (he : SameButCache e e') :
    (x.run redisFails τ ⟨db, e, none⟩).1 = (x.run redisFails τ' ⟨db, e', none⟩).1 ∧
      (x.run redisFails τ ⟨db, e, none⟩).2.data = (x.run redisFails τ' ⟨db, e', none⟩).2.data := by
  refine Prog.run_heeds sameButCache_equivalence (fun h => h.1) (fun χ h => h.tick χ)
    (fun χ hQ h => h.answer hQ χ) (fun χ e hQ => sameButCache_answer hQ χ e) (fun a ha => ?_) hτ hx
    he none
  have ha : redisFails a = true := ha.elim id id
  unfold redisFails at ha
  split at ha
  · exact ⟨_, rfl, id⟩
  · exact ⟨_, rfl, id⟩
  · exact ⟨_, rfl, id⟩
  · cases ha

/-- **Redis breaks no request.** Whatever Redis replies to the first command of a read and whatever
other commands to it fail, reads of quotes, prices and symbols throw nothing they would not throw
after a miss, and a trade answers and leaves what it would with any other cache, if and only if the
reply is harmless. -/
theorem unharmed_iff (reply : Except JsError (Option String)) (db : Database) (clientId : Uuid)
    (id : String) :
    ((∀ (e : Surroundings) (τ τ' : Nat → Turn backend) x,
        thrown ((QuotingService.getObjectById reply clientId id).run redisFails τ
          ⟨db, e, none⟩).1 = some x →
        thrown ((QuotingService.getObjectById (.ok none) clientId id).run redisFails τ'
          ⟨db, e, none⟩).1 = some x) ∧
      (∀ (symbol : String) (e : Surroundings) (τ τ' : Nat → Turn backend) x, SameTurns τ τ' →
        thrown ((PricingService.getPriceObject reply symbol).run redisFails τ
          ⟨db, e, none⟩).1 = some x →
        thrown ((PricingService.getPriceObject (.ok none) symbol).run redisFails τ'
          ⟨db, e, none⟩).1 = some x) ∧
      (∀ (symbol : String) (e : Surroundings) (τ τ' : Nat → Turn backend) x, SameTurns τ τ' →
        thrown ((PricingService.getSymbolBreakdownObject reply symbol).run redisFails τ
          ⟨db, e, none⟩).1 = some x →
        thrown ((PricingService.getSymbolBreakdownObject (.ok none) symbol).run redisFails τ'
          ⟨db, e, none⟩).1 = some x) ∧
      ∀ (dto : CreateTradeDto) (key : String) (e e' : Surroundings) (τ τ' : Nat → Turn backend),
        SameButCache e e' → SameTurns τ τ' →
        ((TradingService.executeTrade clientId dto key).run redisFails τ ⟨db, e, none⟩).1 =
            ((TradingService.executeTrade clientId dto key).run redisFails τ' ⟨db, e', none⟩).1 ∧
          ((TradingService.executeTrade clientId dto key).run redisFails τ ⟨db, e, none⟩).2.data =
            ((TradingService.executeTrade clientId dto key).run redisFails τ'
              ⟨db, e', none⟩).2.data) ↔
      Harmless reply db clientId id := by
  rw [harmless_iff]
  constructor
  · rintro ⟨hquote, -⟩ cached hreply x hx
    let τ : Nat → Turn backend := fun _ => ⟨[], ⟨clientId, .failed, true, .elapse 0⟩, false⟩
    let e : Surroundings := ⟨⟨0, by decide, by decide⟩, fun _ => none, 0⟩
    have := hquote e τ τ x
    rw [thrown_getObjectById, thrown_getObjectById, hreply] at this
    exact this hx
  · refine fun h => ⟨fun e τ τ' x hx => ?_, fun symbol e τ τ' x hτ hx => ?_,
      fun symbol e τ τ' x hτ hx => ?_, fun dto key e e' τ τ' he hτ =>
        run_heeded (executeTrade_heeds clientId dto key) hτ he⟩
    · rw [thrown_getObjectById] at hx ⊢
      cases hreply : RedisService.ofReply reply with
      | none => rwa [hreply] at hx
      | some cached =>
        rw [hreply] at hx
        exact h cached hreply x hx
    · cases hreply : RedisService.ofReply reply with
      | some cached => rw [PricingService.getPriceObject, hreply] at hx; cases hx
      | none =>
        have hmiss : (PricingService.getPriceObject (.ok none) symbol).Heeds Heeded :=
          (fetchPrice_heeds _).bind fun _ => trivial
        rw [PricingService.getPriceObject, hreply] at hx
        rwa [← (run_heeded hmiss hτ ⟨rfl, rfl⟩).1]
    · cases hreply : RedisService.ofReply reply with
      | some cached => rw [PricingService.getSymbolBreakdownObject, hreply] at hx; cases hx
      | none =>
        have hmiss : (PricingService.getSymbolBreakdownObject (.ok none) symbol).Heeds Heeded :=
          (fetchSymbolBreakdown_heeds _).bind fun _ => trivial
        rw [PricingService.getSymbolBreakdownObject, hreply] at hx
        rwa [← (run_heeded hmiss hτ ⟨rfl, rfl⟩).1]

end

section
open scoped Reference

/-- An empty object under the key of Alice's quote makes her read fail, which succeeds after a
miss. -/
theorem empty_object_breaks_read : ∃ s : Sys,
    State.Reaches program (Sys.start Sample.clients Sample.surroundings) s ∧
    thrown ((QuotingService.getObjectById (.ok (some "\x7b\x7d")) Sample.alice
        Sample.quoteId.text).run redisFails Sample.calm ⟨s.data, s.env, none⟩).1 =
      some (.error "Cannot convert undefined to a BigInt") ∧
    thrown ((QuotingService.getObjectById (.ok none) Sample.alice
        Sample.quoteId.text).run redisFails Sample.calm ⟨s.data, s.env, none⟩).1 = none :=
  ⟨Sample.after (Sample.deposits ++ Sample.quotes), Sample.reached (by decide +kernel),
    by decide +kernel, by decide +kernel⟩

end

end MiniOpenFX
