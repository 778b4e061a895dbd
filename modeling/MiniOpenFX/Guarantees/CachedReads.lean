import MiniOpenFX.Guarantees.Cache

/-!
# Cached reads

Calls served one after the other, while entries expire or are evicted at any moment and reads and
writes of the cache fail. As long as every trade finds the cache without other spellings of its
quote's id, every entry is the row as it is now (`Current`), and a read answers what it would answer
if it always went to Postgres (`cached_reads_refine`). A trade deletes only the key it was called
with, so a copy under another spelling outlives it (`stale_spelling`).
-/

namespace MiniOpenFX

open Js Transactional

/-- The acts that may fail: reads and writes of the cache. A deletion is not among them, as a key
that stays is just how a stale copy survives. -/
def cacheFails : Act sig → Bool
  | .ext (.redisGet _) | .ext (.redisSet ..) => true
  | _ => false

/-! ## Entries disappear -/

/-- Time goes on, and no quote comes into the cache. Entries may go, at any moment: the reads below
then go to the table. -/
structure Ebbs (e e' : Surroundings) : Prop where
  now : e.now.micros ≤ e'.now.micros
  get : ∀ id value, e'.get (quoteCacheKey id) = some value → e.get (quoteCacheKey id) = some value

namespace Ebbs

theorem refl (e : Surroundings) : Ebbs e e := ⟨le_refl _, fun _ _ h => h⟩

theorem trans {e₁ e₂ e₃ : Surroundings} (h : Ebbs e₁ e₂) (h' : Ebbs e₂ e₃) : Ebbs e₁ e₃ :=
  ⟨h.now.trans h'.now, fun id value hget => h.get id value (h'.get id value hget)⟩

/-- On its own the cache only loses entries, by expiry and eviction, and time passes. -/
theorem tick (χ : Choice) (e : Surroundings) : Ebbs e (tick χ e) :=
  ⟨tick_now χ e, fun _ _ h => tick_get h⟩

/-- A plain request brings no quote into the cache. -/
theorem plain {x : Ext} (hx : Plain x) (χ : Choice) (e : Surroundings) :
    Ebbs e (answer x χ e).2 := by
  refine ⟨le_of_eq (congrArg Timestamp.micros (answer_now x χ e)).symm, fun id value h => ?_⟩
  rwa [Surroundings.get, hx.cache, answer_now] at h

end Ebbs

/-- What a call relies on when no other is at work: the tables stay, and the surroundings do no
more than `Ebbs` says. -/
def relyAlone : Rely backend := Rely.alone Ebbs Ebbs.refl Ebbs.trans cacheFails

/-- Every entry under the id of a quote is its row as it is now. That is more than `Copies`, and
holds only while every trade finds its own spelling in the cache or none. -/
def Current (p : Seen backend) : Prop :=
  ∀ id value, p.env.get (quoteCacheKey id) = some value → ∃ u q, Uuid.ofText? id = some u ∧
    p.data.quote? u = some q ∧ value = .quote (serializeQuote q.load)

/-- Entries that are current stay so while the tables stay and the cache loses entries. -/
theorem Current.later {p q : Seen backend} (h : Current p) (hl : relyAlone.Later p q) :
    Current q := by
  intro id value hget
  rw [← show p.data = q.data from hl.data]
  exact h id value (hl.env.get id value hget)

/-- The row of the id's quote. -/
def Database.readQuote (db : Database) (id : String) : Except JsError (Option (QuoteRow Date)) :=
  match Uuid.ofText? id with
  | none => .error invalidTextRepresentation
  | some u => .ok ((db.quote? u).map QuoteRow.load)

/-- The statement that reads a quote returns the row of the id's quote, or fails on a text that is
no uuid. -/
theorem exec_selectQuote_eq (now : Timestamp) (db : Database) (id : String) :
    exec now db (.selectQuote id) = (db.readQuote id).map fun row => (row, []) := by
  rw [exec, Database.readQuote]
  cases Uuid.ofText? id <;> rfl

section
variable [DecimalJs]

/-! ## Reading without the cache -/

/-- `getQuoteById`, if `loadQuote` always read the row from Postgres. It is what a read through the
cache is compared with. -/
def QuotingService.getQuoteByIdUncached (clientId : Uuid) (id : String) : App QuoteResponse := do
  let row : Option (QuoteRow Date) ← App.query (.selectQuote id)
  let row ← App.ofExcept
    (assertOwnedByClient QuoteRow.clientId row clientId s!"Quote \"{id}\" not found")
  return toQuoteResponse (← App.dateNow) row

/-- What a client that reads the row at a moment is shown. -/
def showQuote (clientId : Uuid) (id : String) (now : Int) (row : Option (QuoteRow Date)) :
    Except JsError QuoteResponse :=
  (assertOwnedByClient QuoteRow.clientId row clientId s!"Quote \"{id}\" not found").map
    (toQuoteResponse now)

/-- With nobody else at work the uncached read answers with the row as it is and the time at that
moment. -/
theorem run_getQuoteByIdUncached (clientId : Uuid) (id : String) {τ : Nat → Turn backend}
    (hτ : ∀ n, (τ n).moves = []) (db : Database) (e : Surroundings) :
    ((QuotingService.getQuoteByIdUncached clientId id).run (fun _ => false) τ ⟨db, e, none⟩).1 =
      (db.readQuote id).bind (showQuote clientId id e.dateNow) := by
  have henv : ∀ n (e : Surroundings), (τ n).env e = e := fun n e => by rw [Turn.env, hτ]; rfl
  unfold QuotingService.getQuoteByIdUncached
  refine (congrArg Prod.fst
    (Prog.run_query_bind (S := sig) (s := .selectQuote id) rfl _ τ db e)).trans ?_
  rw [henv, show backend.exec (.selectQuote id) (τ 0).choice (backend.stamp e) db = _ from
    exec_selectQuote_eq e.now db id]
  cases db.readQuote id with
  | error x => rfl
  | ok row =>
    simp only [Except.map, Except.bind, showQuote]
    cases assertOwnedByClient QuoteRow.clientId row clientId s!"Quote \"{id}\" not found" with
    | error x => rfl
    | ok row =>
      refine (congrArg Prod.fst (Prog.run_request_bind (S := sig) (B := backend) (x := .dateNow)
        rfl _ _ _)).trans ?_
      simp only [henv]
      rfl

/-! ## One call -/

/-- What a call relies on when no other is at work is tolerant, so that the verification of the
calls under any rely stands for this one. -/
theorem relyAlone_tolerant : Tolerant relyAlone :=
  ⟨fun _ χ e hx => .plain hx χ e, fun h => (show _ = _ from h) ▸ .refl⟩

section
variable {p q : Seen backend} {ℓ : History}

omit [DecimalJs] in
/-- A copy of the row has been put in the cache. -/
theorem Current.stored {id : String} {u : Uuid} {row : QuoteRow Timestamp} (h : Current p)
    (spelled : Uuid.ofText? id = some u) (found : p.data.quote? u = some row)
    (hs : Stored relyAlone (quoteCacheKey id) (.quote (serializeQuote row.load)) p q) :
    Current q ∧ q.data = p.data := by
  obtain ⟨p', hl, rfl | ⟨expiresAt, rfl⟩⟩ := hs
  · exact ⟨h.later hl, (show p.data = q.data from hl.data).symm⟩
  have hdata : p.data = p'.data := hl.data
  refine ⟨fun id' value hget => ?_, hdata.symm⟩
  by_cases hid : id' = id
  · subst hid
    simp only [Surroundings.get, Surroundings.put, if_true] at hget
    exact ⟨u, row, spelled, hdata ▸ found,
      (Option.some.inj (Option.ite_none_right_eq_some.mp hget).2).symm⟩
  · have hne : quoteCacheKey id' ≠ quoteCacheKey id := fun h => hid (quoteCacheKey_inj.mp h)
    exact h.later hl id' value ((Surroundings.get_put_of_ne hne).symm.trans hget)

omit [DecimalJs] in
/-- Where every entry is current, `loadQuote` returns the row as Postgres would, whether it finds
it in the cache or not, and leaves every entry current. -/
theorem LoadQuote.current {id : String} {r : Except JsError (Option (QuoteRow Date))}
    (h : LoadQuote relyAlone id p q ℓ r) (hp : Current p) :
    Current q ∧ q.data = p.data ∧ r = p.data.readQuote id := by
  cases h with
  | hit now got _ =>
    have hdata : p.data = q.data := now.data
    obtain ⟨u, row, spelled, found, hvalue⟩ := hp.later now id _ got
    cases hvalue
    refine ⟨hp.later now, hdata.symm, ?_⟩
    rw [deserializeQuote_serializeQuote, Database.readQuote, spelled, hdata]
    simp only [found]
    rfl
  | @read q₀ _ _ u row now spelled found stored _ =>
    have hdata : p.data = q₀.data := now.data
    obtain ⟨hq, hq'⟩ := (hp.later now).stored spelled found stored
    refine ⟨hq, hq'.trans hdata.symm, ?_⟩
    rw [Database.readQuote, spelled, hdata]
    simp only [found]
    rfl
  | absent now spelled missing _ =>
    have hdata : p.data = q.data := now.data
    refine ⟨hp.later now, hdata.symm, ?_⟩
    rw [Database.readQuote, spelled, hdata]
    simp only [missing]
    rfl
  | @failed _ _ e now errs _ =>
    have hdata : p.data = q.data := now.data
    obtain ⟨χ, hx⟩ | ⟨hf, -⟩ := errs
    · have hx : exec q.env.now q.data (.selectQuote id) = .error e := hx
      refine ⟨hp.later now, hdata.symm, ?_⟩
      simp only [exec, Database.readQuote] at hx ⊢
      cases hu : Uuid.ofText? id with
      | none => rw [hu] at hx; cases hx; rfl
      | some u => rw [hu] at hx; cases hx
    · cases hf
  | lost _ fails => cases fails

/-- Where every entry is current, a read shows the row as Postgres has it, at the time it ends, and
leaves every entry current. -/
theorem GetQuoteById.current {clientId : Uuid} {id : String} {r : Except JsError QuoteResponse}
    (h : GetQuoteById relyAlone clientId id p q ℓ r) (hp : Current p) :
    Current q ∧ q.data = p.data ∧
      r = (p.data.readQuote id).bind (showQuote clientId id q.env.dateNow) := by
  cases h with
  | unloaded load =>
    obtain ⟨hq, hdata, hr⟩ := load.current hp
    exact ⟨hq, hdata, by rw [← hr]; rfl⟩
  | foreign load owned =>
    obtain ⟨hq, hdata, hr⟩ := load.current hp
    refine ⟨hq, hdata, ?_⟩
    rw [← hr, Except.bind, showQuote, owned]
    rfl
  | response load owned later _ =>
    obtain ⟨hq, hdata, hr⟩ := load.current hp
    refine ⟨hq.later later, (show _ = q.data from later.data).symm.trans hdata, ?_⟩
    rw [← hr, Except.bind, showQuote, owned]
    rfl
  | lost fails => cases fails

/-- Making a quote leaves every entry current: what it puts in the cache is the row that it has
inserted. -/
theorem CreateQuote.current (h : CreateQuote relyAlone p q) (hp : Current p) : Current q := by
  cases h with
  | rejected now => exact hp.later now
  | @created q₀ q₁ _ row now allowed stored later =>
    have hrow : ((Effect.quote row).apply q₀.data).quote? row.id = some row := by
      rw [Effect.apply, quote?_apply_quote, allowed.1]
      simp
    have hq₀ : Current ⟨(Effect.quote row).apply q₀.data, q₀.env⟩ := by
      intro id value hget
      obtain ⟨u, x, spelled, found, hvalue⟩ := hp.later now id value hget
      refine ⟨u, x, spelled, ?_, hvalue⟩
      change (Database.quote? ((Write.quote row).apply q₀.data) u) = some x
      rw [quote?_apply_quote, found]
      rfl
    exact (hq₀.stored (Uuid.ofText?_text row.id) hrow stored).1.later later

/-- Making a quote adds no key but the text of the quote's id, which is the spelling that clients
are given. -/
theorem CreateQuote.key (h : CreateQuote relyAlone p q) {id : String} {value : CacheValue}
    (hget : q.env.get (quoteCacheKey id) = some value) :
    (∃ value, p.env.get (quoteCacheKey id) = some value) ∨ ∃ u : Uuid, id = u.text := by
  cases h with
  | rejected now => exact .inl ⟨value, now.env.get id value hget⟩
  | @created q₀ q₁ _ row now _ stored later =>
    obtain ⟨p', hl, rfl | ⟨expiresAt, rfl⟩⟩ := stored
    · exact .inl ⟨value, now.env.get id value (hl.env.get id value (later.env.get id value hget))⟩
    by_cases hid : id = row.id.text
    · exact .inr ⟨row.id, hid⟩
    have hne : quoteCacheKey id ≠ quoteCacheKey row.id.text := fun h => hid (quoteCacheKey_inj.mp h)
    exact .inl ⟨value, now.env.get id value (hl.env.get id value
      ((Surroundings.get_put_of_ne hne).symm.trans (later.env.get id value hget)))⟩

/-- A trade leaves only copies of other quotes, if it finds none of its own under other spellings.
Its own spelling it deletes. -/
theorem ExecuteTrade.current {clientId : Uuid} {quoteId key : String}
    {first : Except JsError (Option (TradeRow Date))} {r : Except JsError TradeResult}
    (h : ExecuteTrade relyAlone clientId quoteId key p first q ℓ r) (hp : Current p)
    (spellings : ∀ u, Uuid.ofText? quoteId = some u → q.data.quote? u ≠ p.data.quote? u →
      ∀ id, id ≠ quoteId → Uuid.ofText? id = some u → p.env.get (quoteCacheKey id) = none) :
    Current q := by
  cases h with
  | lookupFailed now | replay now | failed now => exact hp.later now
  | @filled q₀ e q₁ _ _ quote tradeId now allowed spelled _ env later deleted _ =>
    obtain rfl | ⟨-, hf⟩ := deleted
    swap
    · cases hf
    have hdata : p.data = q₀.data := now.data
    have hdata' : (Effect.trade quote tradeId key q₀.env.now).apply q₀.data = q₁.data := later.data
    have hquote : ∀ u, q₁.data.quote? u = (p.data.quote? u).map fun x =>
        if quote.id = u then { x with status := .EXECUTED } else x := fun u => by
      rw [← hdata', Effect.quote?_trade, hdata]
    intro id value hget
    by_cases hid : id = quoteId
    · simp [Surroundings.get, Surroundings.put, hid] at hget
    have hne : quoteCacheKey id ≠ quoteCacheKey quoteId := fun h => hid (quoteCacheKey_inj.mp h)
    have hget : p.env.get (quoteCacheKey id) = some value :=
      now.env.get id value (env.env.get id value (later.env.get id value
        ((Surroundings.get_put_of_ne hne).symm.trans hget)))
    obtain ⟨u, x, spelled', found, hvalue⟩ := hp id value hget
    by_cases hu : quote.id = u
    · -- the trade executes its quote
      have hx : x = quote := by
        rw [← hu, hdata, allowed.1] at found
        exact (Option.some.inj found).symm
      have hchanged : q₁.data.quote? u ≠ p.data.quote? u := by
        rw [hquote, found, Option.map_some, if_pos hu, hx]
        intro he
        have hs := congrArg QuoteRow.status (Option.some.inj he)
        cases hs.trans allowed.2.1
      rw [spellings u (hu ▸ spelled) hchanged id hid spelled'] at hget
      cases hget
    · refine ⟨u, x, spelled', ?_, hvalue⟩
      change q₁.data.quote? u = some x
      rw [hquote, found, Option.map_some, if_neg hu]

end

/-! ## One call after the other -/

/-- The calls that make, read and execute quotes. -/
def Quoting : Call → Prop
  | .createQuote .. | .executeTrade .. | .getQuoteById .. => True
  | _ => False

/-- Serve a call with nobody else at work: the answer, and what it leaves. Reads and writes of the
cache may fail on the way (`cacheFails`). -/
def served (p : Seen backend) (call : Call) (τ : Nat → Turn backend) :
    Except JsError Response × Seen backend :=
  let (r, w) := (program call).run cacheFails τ ⟨p.data, p.env, none⟩
  (r, w.seen)

/-- Serve calls one after the other. -/
def serial (p : Seen backend) (calls : List (Call × (Nat → Turn backend))) : Seen backend :=
  calls.foldl (fun p c => (served p c.1 c.2).2) p

/-- If the call executes its quote, no other spelling of the quote's id is in the cache. A call
that makes no trade has nothing to keep to. -/
def OneSpelling (p : Seen backend) (call : Call) (τ : Nat → Turn backend) : Prop :=
  ∀ clientId quoteId key u, call = .executeTrade clientId ⟨quoteId⟩ key →
    Uuid.ofText? quoteId = some u → (served p call τ).2.data.quote? u ≠ p.data.quote? u →
      ∀ id, id ≠ quoteId → Uuid.ofText? id = some u → p.env.get (quoteCacheKey id) = none

section
variable {p : Seen backend} {call : Call} {τ : Nat → Turn backend}

/-- What a call verified alone ends with. The rule carries a verification in the logic over to the
function that runs the call. -/
theorem served_of_wp {Q : Seen backend → Except JsError Response → Prop}
    (h : (program call).Wp isolation relyAlone obligations
      (fun m _ r => ∃ q, m = .outside q ∧ Q q r) (.outside p) []) :
    Q (served p call τ).2 (served p call τ).1 := by
  obtain ⟨m, ℓ, hw, q, rfl, hq⟩ := Prog.Wp.run (w := ⟨p.data, p.env, none⟩) Ebbs.tick h rfl τ
  have hseen : (served p call τ).2 = q := congrArg World.seen hw
  rw [hseen]
  exact hq

/-- A read shows the row as it is, whether it finds it in the cache or not, and leaves the cache as
true as it was. -/
theorem served_getQuoteById {clientId : Uuid} {id : String} (hp : Current p) :
    Current (served p (.getQuoteById clientId id) τ).2 ∧
      (served p (.getQuoteById clientId id) τ).2.data = p.data ∧
      (served p (.getQuoteById clientId id) τ).1 = ((p.data.readQuote id).bind
        (showQuote clientId id (served p
          (.getQuoteById clientId id) τ).2.env.dateNow)).map .quote := by
  have hquiet : History.Quiet [] := fun _ _ _ _ h => nomatch h
  refine served_of_wp (Q := fun q r => Current q ∧ q.data = p.data ∧ r = ((p.data.readQuote id).bind
    (showQuote clientId id q.env.dateNow)).map .quote)
    (wp_response ((getQuoteById_wp hquiet).mono fun m ℓ r ⟨q, hm, h⟩ => ⟨q, hm, ?_⟩))
  obtain ⟨hq, hdata, rfl⟩ := h.current hp
  exact ⟨hq, hdata, rfl⟩

/-- Every call leaves only rows as they are. A new quote is cached as it is stored, a read caches
what it reads, and a trade deletes its quote. -/
theorem current_served (hp : Current p) (hcall : Quoting call) (hone : OneSpelling p call τ) :
    Current (served p call τ).2 := by
  have hquiet : History.Quiet [] := fun _ _ _ _ h => nomatch h
  cases call with
  | getQuoteById clientId id => exact (served_getQuoteById hp).1
  | createQuote clientId dto =>
    exact served_of_wp (Q := fun q _ => Current q) (wp_response
      ((createQuote_wp relyAlone_tolerant hquiet trivial trivial).mono
        fun m ℓ r ⟨q, hm, h⟩ => ⟨q, hm, h.current hp⟩))
  | executeTrade clientId dto key =>
    refine served_of_wp (Q := fun q _ => (∀ u, Uuid.ofText? dto.quoteId = some u →
      q.data.quote? u ≠ p.data.quote? u → ∀ id, id ≠ dto.quoteId → Uuid.ofText? id = some u →
        p.env.get (quoteCacheKey id) = none) → Current q) (wp_response
      ((executeTrade_wp relyAlone_tolerant).mono fun m ℓ r ⟨q, first, hm, _, h⟩ =>
        ⟨q, hm, h.current hp⟩)) fun u => hone clientId dto.quoteId key u rfl
  | seed | getBalances | createDeposit | getPrice => exact hcall.elim

/-- A quote that is made with no quote in the cache leaves none there under a spelling of its id
other than its text. -/
theorem get_served_createQuote (empty : ∀ id, p.env.get (quoteCacheKey id) = none)
    {clientId u : Uuid} {dto : CreateQuoteDto} {id : String} (spelled : Uuid.ofText? id = some u)
    (hid : id ≠ u.text) :
    (served p (.createQuote clientId dto) τ).2.env.get (quoteCacheKey id) = none := by
  have hquiet : History.Quiet [] := fun _ _ _ _ h => nomatch h
  refine served_of_wp (Q := fun q _ => q.env.get (quoteCacheKey id) = none) (wp_response
    ((createQuote_wp relyAlone_tolerant hquiet trivial trivial).mono
      fun m ℓ r ⟨q, hm, h⟩ => ⟨q, hm, ?_⟩))
  cases hget : q.env.get (quoteCacheKey id) with
  | none => rfl
  | some value =>
    rcases h.key hget with ⟨value, hvalue⟩ | ⟨v, rfl⟩
    · cases (empty id).symm.trans hvalue
    · cases (Uuid.ofText?_text v).symm.trans spelled
      exact absurd rfl hid

/-- As long as every trade finds one spelling of its quote, only rows as they are stay. By
induction on the calls, from `current_served`. -/
theorem current_serial {calls : List (Call × (Nat → Turn backend))} (hp : Current p)
    (hcalls : ∀ c ∈ calls, Quoting c.1)
    (hone : ∀ pre c post, calls = pre ++ c :: post → OneSpelling (serial p pre) c.1 c.2) :
    Current (serial p calls) := by
  induction calls using List.reverseRecOn with
  | nil => exact hp
  | append_singleton calls c ih =>
    have hlast : serial p (calls ++ [c]) = (served (serial p calls) c.1 c.2).2 := by
      simp [serial]
    rw [hlast]
    refine current_served (ih (fun d hd => hcalls d (List.mem_append_left _ hd)) ?_)
      (hcalls c List.mem_concat_self) (hone calls c [] rfl)
    exact fun pre d post h => hone pre d (post ++ [c]) (by simp [h])

/-- **Cached reads refine uncached ones.** After any calls that make, read and execute quotes, one
after the other, with whatever becomes of the cache meanwhile: if no trade that executed its quote
found another spelling of the quote's id in the cache, a read answers what it would answer, at the
same moment, if it always read the row from Postgres. -/
theorem cached_reads_refine {calls : List (Call × (Nat → Turn backend))}
    (empty : ∀ id, p.env.get (quoteCacheKey id) = none) (hcalls : ∀ c ∈ calls, Quoting c.1)
    (hone : ∀ pre c post, calls = pre ++ c :: post → OneSpelling (serial p pre) c.1 c.2)
    (clientId : Uuid) (id : String) {still : Nat → Turn backend}
      (hstill : ∀ n, (still n).moves = []) :
    (served (serial p calls) (.getQuoteById clientId id) τ).1 =
      (((QuotingService.getQuoteByIdUncached clientId id).run (fun _ => false) still
        ⟨(serial p calls).data, (served (serial p calls) (.getQuoteById clientId id) τ).2.env,
          none⟩).1).map .quote := by
  have hcurrent : Current (serial p calls) := by
    refine current_serial (fun id value hget => ?_) hcalls hone
    cases (empty id).symm.trans hget
  rw [run_getQuoteByIdUncached clientId id hstill]
  exact (served_getQuoteById hcurrent).2.2

end

end

/-! ## Two spellings -/

section
open scoped Reference

namespace Sample

/-- Alice has made her deposit, and the cache is empty. -/
def funded : Seen backend := ⟨(after deposits).data, surroundings⟩

/-- Nothing happens around a call, ids are `id`, and Binance answers about the symbol first. -/
def serves (id : Uuid) : Nat → Turn backend := fun n =>
  ⟨[], choice id (if n = 1 then exchangeInfo else bookTicker), false⟩

/-- Alice's quote is made. -/
def makes : Call × (Nat → Turn backend) :=
  (.createQuote alice ⟨"BTC", "USDT", .BUY, "0.01"⟩, serves quoteId)

/-- Alice reads her quote, with its id in upper case, before she executes it. -/
def readsAndTrades : List (Call × (Nat → Turn backend)) :=
  [makes, (.getQuoteById alice (upperCase quoteId.text), serves quoteId),
    (.executeTrade alice ⟨quoteId.text⟩ "key", serves tradeId)]

/-- Alice's quote is made, and she executes it. -/
def makesAndTrades : List (Call × (Nat → Turn backend)) :=
  [makes, (.executeTrade alice ⟨quoteId.text⟩ "key", serves tradeId)]

end Sample

/-- Alice reads her quote when she has executed it. -/
theorem cached_reads_refine_trades :
    (served (serial Sample.funded Sample.makesAndTrades)
        (.getQuoteById Sample.alice Sample.quoteId.text) (Sample.serves Sample.tradeId)).1 =
      (((QuotingService.getQuoteByIdUncached Sample.alice Sample.quoteId.text).run (fun _ => false)
        (Sample.serves Sample.tradeId) ⟨(serial Sample.funded Sample.makesAndTrades).data,
          (served (serial Sample.funded Sample.makesAndTrades)
            (.getQuoteById Sample.alice Sample.quoteId.text) (Sample.serves Sample.tradeId)).2.env,
          none⟩).1).map .quote := by
  refine cached_reads_refine (fun _ => rfl) (fun c hc => ?_) (fun pre c post hsplit => ?_) _ _
    fun _ => rfl
  · rcases List.mem_cons.mp hc with rfl | hc
    · trivial
    · rw [List.mem_singleton.mp hc]
      trivial
  · rintro clientId quoteId key u hcall spelled -
    match pre, hsplit with
    | [], hsplit =>
      cases hsplit
      cases hcall
    | [_], hsplit =>
      cases hsplit
      cases hcall
      cases (Uuid.ofText?_text Sample.quoteId).symm.trans spelled
      exact fun id hid spelled' => get_served_createQuote (fun _ => rfl) spelled' hid
    | _ :: _ :: _, hsplit => simp [Sample.makesAndTrades] at hsplit

/-- The trade of that run is one that executes its quote. -/
example : (serial Sample.funded Sample.makesAndTrades).data.quote? Sample.quoteId =
    some { Sample.quote with status := .EXECUTED } := by decide +kernel

/-- A copy under another spelling of the id outlives the trade: the read shows the executed quote as
active. -/
theorem stale_spelling : ∃ (p : Seen backend) (calls : List (Call × (Nat → Turn backend)))
    (clientId : Uuid) (id : String) (τ still : Nat → Turn backend),
    (∀ id, p.env.get (quoteCacheKey id) = none) ∧ (∀ c ∈ calls, Quoting c.1) ∧
    (∀ n, (still n).moves = []) ∧
    (served (serial p calls) (.getQuoteById clientId id) τ).1 ≠
      (((QuotingService.getQuoteByIdUncached clientId id).run (fun _ => false) still
        ⟨(serial p calls).data, (served (serial p calls) (.getQuoteById clientId id) τ).2.env,
          none⟩).1).map .quote := by
  refine ⟨Sample.funded, Sample.readsAndTrades, Sample.alice, upperCase Sample.quoteId.text,
    Sample.serves Sample.tradeId, Sample.serves Sample.tradeId, fun _ => rfl, fun c hc => ?_,
    fun _ => rfl, by decide +kernel⟩
  rcases List.mem_cons.mp hc with rfl | hc
  · trivial
  · rcases List.mem_cons.mp hc with rfl | hc
    · trivial
    · rw [List.mem_singleton.mp hc]
      trivial

end

end MiniOpenFX
