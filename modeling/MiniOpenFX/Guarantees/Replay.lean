import MiniOpenFX.Guarantees.Tables
import MiniOpenFX.Transactional.Serial

/-!
# Retries

What a retry of `executeTrade` is answered once its key has a trade. The key is looked up first,
outside the transaction. A call that does so after the trade is committed gets the trade, if it
spells the quote's id as Postgres does (`same_key_replayed_iff`, `replayed_iff_lowerCase`); a call
that did so before is told that its quote has already been executed.
-/

namespace MiniOpenFX

open Js Transactional

/-! ## Two calls with one key

Alice executes her quote and retries with the same key. -/

namespace Sample

open scoped Reference

/-- Thread 2 executes the quote, up to the commit. -/
def committing : List (Label backend Call) :=
  deposits ++ quotes ++ [executes quoteId.text "key"] ++ acts 2 15 tradeId

/-- Thread 2 commits. -/
def commit : Label backend Call := .run 2 (choice tradeId .failed)

/-- Thread 3 retries after the commit. -/
def retries : List (Label backend Call) :=
  acts 2 1 tradeId ++ [executes quoteId.text " key "] ++ acts 3 1 tradeId

/-- Thread 3 has looked the key up before thread 2 commits. -/
def racing : List (Label backend Call) :=
  committing ++ [executes quoteId.text "key"] ++ acts 3 1 tradeId

/-- Thread 2 executes the quote, whose id it spells in upper case. -/
def shouting : List (Label backend Call) :=
  deposits ++ quotes ++ [executes (upperCase quoteId.text) "key"] ++ acts 2 17 tradeId

/-- Nothing happens around a call. -/
def calm : Nat → Turn backend := fun _ => ⟨[], choice tradeId .failed, false⟩

/-- The trade of the key. -/
def trade : TradeRow Timestamp :=
  ⟨tradeId, alice, quoteId, "BTCUSDT", .BUY, "BTC", "USDT", 1000000, 50001000000, "50001", .FILLED,
    "key", surroundings.now⟩

end Sample

/-! ## Lookups -/

/-- No transaction looks a key up. -/
theorem Running.not_lookup {db : Database} {ws : List Write} {L : List Resource} {c : Uuid}
    {key : String} : ¬ Running db ws L (.selectTradeByKey c key) := by
  intro h
  cases h with
  | held moves => exact moves

/-- The call has not looked its key up, or was told about the trade. It is the condition under
which the stronger rely takes over for a call that is under way. -/
def Informed (clientId : Uuid) (key : String) (trade : TradeRow Timestamp) (ℓ : History) : Prop :=
  ∀ r, ℓ.head? = some (.sql (.selectTradeByKey clientId key) (.ok r)) → r = some trade.load

/-- A call that has found the trade under the key, if it has looked, has so after an event that
finds it or does not look. -/
theorem Informed.concat {clientId : Uuid} {key : String} {trade : TradeRow Timestamp} {ℓ : History}
    (h : Informed clientId key trade ℓ) {ev : Event sig JsError}
    (hev : ∀ r, ev = .sql (.selectTradeByKey clientId key) (.ok r) → r = some trade.load) :
    Informed clientId key trade (ℓ ++ [ev]) := by
  intro r hr
  cases ℓ with
  | nil => exact hev r (Option.some.inj hr)
  | cons _ _ => exact h r hr

section
variable [DecimalJs]

/-- The trade of a retry is compared with the id as spelled. Postgres prints ids in lower case, so
any other spelling is taken for another quote. -/
theorem replayOrConflict_eq_ok_iff {trade : TradeRow Timestamp} {quoteId : String}
    (spelled : Uuid.ofText? quoteId = some trade.quoteId) :
    TradingService.replayOrConflict trade.load quoteId = .ok ⟨toTradeResponse trade.load, true⟩ ↔
      lowerCase quoteId = quoteId := by
  rw [Uuid.ofText?_eq_iff.mp spelled, TradingService.replayOrConflict]
  change (if trade.quoteId.text ≠ quoteId then _ else _) = _ ↔ _
  split
  · next h => simpa using h
  · next h => simpa using h

/-- A retry is answered with a trade only if it spells the id of the quote as Postgres does. -/
theorem replayOrConflict_ok {row : TradeRow Date} {quoteId : String} {result : TradeResult}
    (h : TradingService.replayOrConflict row quoteId = .ok result) :
    row.quoteId.text = quoteId ∧ result = ⟨toTradeResponse row, true⟩ := by
  unfold TradingService.replayOrConflict at h
  split at h
  · cases h
  · next hid => cases h; exact ⟨not_ne_iff.mp hid, rfl⟩

variable {clients : List ClientRow} {e : Surroundings} {s s₁ s₂ s₃ : Sys}

/-- A trade that a lookup has returned stays under its key, in every state that follows. -/
theorem tradeByKey?_of_lookup (h : State.Reaches program (Sys.start clients e) s) :
    ∀ t ∈ s.threads, ∀ c key row,
      Event.sql (S := sig) (.selectTradeByKey c key) (.ok (some row)) ∈ t.log →
        ∃ trade, s.data.tradeByKey? c key = some trade := by
  refine h.events (P := fun _ ℓ (d : Database) => ∀ c key row,
    Event.sql (S := sig) (.selectTradeByKey c key) (.ok (some row)) ∈ ℓ →
      ∃ trade, d.tradeByKey? c key = some trade) verified (isolated_init _ _)
    (fun t ht => by cases ht) (fun _ _ _ _ _ hm => by cases hm) ?_ ?_
  · intro _ ℓ d d' hd hP c key row hm
    obtain ⟨trade, htrade⟩ := hP c key row hm
    exact ⟨trade, hd.tradeByKey? htrade⟩
  · intro u i t ev hu _ hi hlog hsees c key row hm
    rcases List.mem_append.mp hm with hm | hm
    · exact hlog c key row hm
    obtain rfl := List.mem_singleton.mp hm
    obtain ⟨k, hp, hbroken | ⟨χ, hx⟩⟩ := hsees.sql
    · cases hbroken
    obtain ⟨tx, -, hrun⟩ | ⟨htx, -⟩ := hu.sql hi hp
    · exact absurd hrun Running.not_lookup
    · have hview : (u.world t).view = u.data := by simp [State.world, World.view, htx]
      rw [hview] at hx
      cases hfound : u.data.tradeByKey? c key with
      | some trade => exact ⟨trade, rfl⟩
      | none =>
        have hx : (exec (u.world t).stamp u.data (.selectTradeByKey c key)).map Prod.fst =
          .ok (some row) := hx
        simp [exec, hfound, Except.map] at hx

/-! ## Once the trade is committed -/

/-- What calls rely on once the trade is committed: it stays under its key. Every effect keeps it,
so no call has to promise more than before. -/
def relyTraded (clientId : Uuid) (key : String) (trade : TradeRow Timestamp) : Rely backend where
  __ := rely
  inv db := db.tradeByKey? clientId key = some trade
  data_inv hd h := Database.Later.tradeByKey? hd h

/-- From then on, every lookup of the key finds it. The obligations of the calls are the same; only
what they rely on has grown. -/
theorem upgrade_traded (clientId : Uuid) (key : String) (trade : TradeRow Timestamp) :
    Prog.Upgrade rely (relyTraded clientId key trade) obligations obligations
      (Informed clientId key trade) where
  inv _ := trivial
  data h := h
  envInv _ := trivial
  env h := h
  fails _ := trivial
  inside _ _ h := h
  commit _ _ h := h
  outside _ _ h := h
  request _ _ h := h
  begin h := h.concat fun _ he => by cases he
  committed h := h.concat fun _ he => by cases he
  rollback h := h.concat fun _ he => by cases he
  error h := h.concat fun _ he => by cases he
  answer h := h.concat fun _ he => by cases he
  sqlInside _ h hrun _ := h.concat fun _ he => by
    cases he
    exact absurd hrun Running.not_lookup
  sqlOutside {p _ st _ _ _ w} hinv h _ hx := h.concat fun r he => by
    cases he
    have hx : exec st p.data (.selectTradeByKey clientId key) = .ok (r, w) := hx
    obtain ⟨rfl, -⟩ := exec_selectTradeByKey.mp hx
    exact congrArg (Option.map TradeRow.load) hinv

/-- What a call with the trade's key and quote answers if it comes too late to execute the quote
itself. -/
def answersTraded (i : Nat) (c : Uuid) (quoteId rawKey : String) (trade : TradeRow Timestamp)
    (k : Nat) (call : Call) : Answer backend Response := fun _ _ r =>
  k = i ∧ call = .executeTrade c ⟨quoteId⟩ rawKey → r = .error .connectionError ∨
    r = (TradingService.replayOrConflict trade.load quoteId).map .trade

/-- A replay is of a trade that the lookup returned. -/
theorem TradeAnswer.replayed {c : Uuid} {quoteId key : String} {db : Database} {ℓ : History}
    {response : TradeResponse}
    (h : TradeAnswer c quoteId key db ℓ (.ok (.trade ⟨response, true⟩))) :
    ∃ row : TradeRow Date,
      ℓ.head? = some (.sql (S := sig) (.selectTradeByKey c key) (.ok (some row))) ∧
        row.quoteId.text = quoteId := by
  generalize hr : Except.ok (Response.trade ⟨response, true⟩) = r at h
  cases h with
  | filled | failed => cases hr
  | @replay row _ first =>
    cases hok : TradingService.replayOrConflict row.load quoteId with
    | error e => rw [hok] at hr; cases hr
    | ok result => exact ⟨_, first, (replayOrConflict_ok hok).1⟩

/-- An informed call replays: its lookup has found the trade, and the rest is the comparison of the
two ids. -/
theorem TradeAnswer.informed {c : Uuid} {quoteId key : String} {db : Database} {ℓ : History}
    {r : Except JsError Response} {trade : TradeRow Timestamp}
    (h : TradeAnswer c quoteId key db ℓ r) (hℓ : Informed c key trade ℓ) :
    r = (TradingService.replayOrConflict trade.load quoteId).map .trade := by
  cases h with
  | replay _ first => rw [Option.some.inj (hℓ _ first)]
  | filled _ _ first _ | failed first => cases hℓ _ first

/-- A call that has not looked the key up when the trade is committed replays it, however the calls
go on from there. -/
theorem replays_of_untouched {c : Uuid} {quoteId rawKey : String} {trade : TradeRow Timestamp}
    {i : Nat} {t : Thread backend Call Response} {r : Except JsError Response}
    (h₁ : State.Reaches program (Sys.start clients e) s₁)
    (made : s₁.data.tradeByKey? c (trim rawKey) = some trade)
    (untouched : ∀ t₁, s₁.threads[i]? = some t₁ → t₁.log = [])
    (h₂ : State.Reaches program s₁ s₂) (hi : s₂.threads[i]? = some t)
    (call : t.call = .executeTrade c ⟨quoteId⟩ rawKey) (finished : t.result? = some r) :
    r = .error .connectionError ∨
      r = (TradingService.replayOrConflict trade.load quoteId).map .trade := by
  set R' := relyTraded c (trim rawKey) trade
  set As' := answersTraded i c quoteId rawKey trade
  have u : ∀ (k : Nat) (_ : Call), Prog.Upgrade rely R' obligations obligations
      (fun ℓ => k = i → Informed c (trim rawKey) trade ℓ) :=
    fun k _ => (upgrade_traded c (trim rawKey) trade).imp (k = i)
  have hA : ∀ k call (p : Seen backend) ℓ r, (k = i → Informed c (trim rawKey) trade ℓ) →
      answers call p ℓ r → As' k call p ℓ r := by
    rintro k call p ℓ r hℓ ha ⟨rfl, rfl⟩
    exact ha.imp_right fun ha => ha.informed (hℓ rfl)
  have hv : Verified isolation R' program (fun _ _ => obligations) As' :=
    verified.upgrade u (fun _ _ _ r hr => by cases hr) hA
      (fun _ _ => guarantees.mono (fun _ => trivial) (fun _ => trivial) id id) (fun _ => trivial)
      (fun χ e _ => tick_now χ e) fun _ _ _ _ _ => .inl rfl
  have hs : Isolated isolation R' (fun _ _ => obligations) As' s₁ := by
    refine (later_of_reaches h₁).1.upgrade u (fun k t₁ ht₁ => .inl fun hk r hr => ?_)
      (fun k t₁ _ => hA k t₁.call) (fun _ _ _ _ _ _ _ h => h) made trivial
    rw [untouched t₁ (hk ▸ ht₁)] at hr
    cases hr
  obtain ⟨p, -, ha⟩ := (h₂.isolated hv hs).1.answer hi finished
  exact ha ⟨rfl, call⟩

/-- **Retries at the same time.** A call with the key and the quote of a trade that is being
committed is answered with that trade if and only if it has not looked its key up before the commit
and spells the quote's id as Postgres does. -/
theorem same_key_replayed_iff {c : Uuid} {quoteId rawKey : String} {trade : TradeRow Timestamp}
    {i j : Nat} {χ : Choice} {t : Thread backend Call Response} {r : Except JsError Response}
    (h₁ : State.Reaches program (Sys.start clients e) s₁)
    (commit : s₁.step program (.run j χ) = some s₂)
    (free : s₁.data.tradeByKey? c (trim rawKey) = none)
    (made : s₂.data.tradeByKey? c (trim rawKey) = some trade)
    (spelled : Uuid.ofText? quoteId = some trade.quoteId)
    (h₂ : State.Reaches program s₂ s₃) (other : i ≠ j) (hi : s₃.threads[i]? = some t)
    (call : t.call = .executeTrade c ⟨quoteId⟩ rawKey)
    (finished : t.result? = some r) (answered : r ≠ .error .connectionError) :
    r = .ok (.trade ⟨toTradeResponse trade.load, true⟩) ↔
      lowerCase quoteId = quoteId ∧ ∀ t₁, s₁.threads[i]? = some t₁ → t₁.log = [] := by
  have h₁₂ := h₁.tail commit
  constructor
  · rintro rfl
    obtain ⟨p, -, ha⟩ := (later_of_reaches (h₁₂.trans h₂)).1.answer hi finished
    rw [call] at ha
    obtain ⟨row, first, hid⟩ := (ha.resolve_left answered).replayed
    obtain rfl : row.quoteId.text = quoteId := hid
    refine ⟨row.quoteId.lower, fun t₁ ht₁ => ?_⟩
    obtain ⟨t', ht', -, hlog⟩ := (((State.Reaches.refl s₁).tail commit).trans h₂).thread ht₁
    cases ht'.symm.trans hi
    cases hℓ : t₁.log with
    | nil => rfl
    | cons ev ℓ =>
      -- the lookup came before the commit, when there was nothing to find
      obtain ⟨ℓ', hℓ'⟩ := hlog
      rw [← hℓ', hℓ] at first
      cases first
      obtain ⟨_, hfound⟩ := tradeByKey?_of_lookup h₁ t₁ (List.mem_of_getElem? ht₁) _ _ _
        (hℓ ▸ List.mem_cons_self)
      cases free.symm.trans hfound
  · rintro ⟨hlower, untouched⟩
    rw [← State.step_run_of_ne commit other] at untouched
    have := replays_of_untouched h₁₂ made untouched h₂ hi call finished
    rw [(replayOrConflict_eq_ok_iff spelled).mpr hlower] at this
    exact this.resolve_left answered

end

section
open scoped Reference

/-- Alice's retry after the commit. -/
theorem same_key_replayed_iff_retry :
    (Except.ok (.trade ⟨toTradeResponse Sample.trade.load, true⟩) : Except JsError Response) =
        .ok (.trade ⟨toTradeResponse Sample.trade.load, true⟩) ↔
      lowerCase Sample.quoteId.text = Sample.quoteId.text ∧
        ∀ t₁, (Sample.after Sample.committing).threads[3]? = some t₁ → t₁.log = [] :=
  same_key_replayed_iff (c := Sample.alice) (Sample.reached (by decide +kernel))
    (Sample.step_after Sample.commit (by decide +kernel)) (by decide +kernel) (by decide +kernel)
    (Uuid.ofText?_text _) (Sample.after_reached Sample.retries (by decide +kernel)) (by decide)
    (Sample.getElem?_thread (by decide +kernel))
    (show (Sample.thread _ 3).call = .executeTrade Sample.alice ⟨Sample.quoteId.text⟩ " key " from
      by decide +kernel) (by decide +kernel) (by simp)

/-- A retry that has looked the key up before the commit is told that the quote has already been
executed. -/
theorem same_key_refused : ∃ s₁ s₂ s₃ t,
    State.Reaches program (Sys.start Sample.clients Sample.surroundings) s₁ ∧
    s₁.step program Sample.commit = some s₂ ∧
    s₁.data.tradeByKey? Sample.alice "key" = none ∧
    s₂.data.tradeByKey? Sample.alice "key" = some Sample.trade ∧
    State.Reaches program s₂ s₃ ∧ s₃.threads[3]? = some t ∧
    t.call = .executeTrade Sample.alice ⟨Sample.quoteId.text⟩ "key" ∧
    (∀ t₂ ∈ s₂.threads[3]?, t₂.result? = none) ∧
    t.result? = some (.error (.conflictException
      s!"Quote \"{Sample.quoteId.text}\" has already been executed")) :=
  ⟨Sample.after Sample.racing, Sample.after (Sample.racing ++ [Sample.commit]),
    Sample.after (Sample.racing ++ [Sample.commit] ++ Sample.acts 3 3 Sample.tradeId),
    Sample.thread _ 3, Sample.reached (by decide +kernel),
    Sample.step_after _ (by decide +kernel), by decide +kernel, by decide +kernel,
    Sample.after_reached _ (by decide +kernel), Sample.getElem?_thread (by decide +kernel),
    by decide +kernel⟩

end

section
variable [DecimalJs] {clients : List ClientRow} {e : Surroundings} {s : Sys}

/-! ## Retries afterwards -/

/-- A call whose key has a trade does nothing but look it up: no transaction is begun, and nothing
is written. -/
theorem run_executeTrade_found {c : Uuid} {quoteId rawKey : String} {trade : TradeRow Timestamp}
    {db : Database} {e : Surroundings} (found : db.tradeByKey? c (trim rawKey) = some trade)
    (τ : Nat → Turn backend) :
    (program (.executeTrade c ⟨quoteId⟩ rawKey)).run (fun _ => false) τ ⟨db, e, none⟩ =
      ((TradingService.replayOrConflict trade.load quoteId).map .trade,
        ⟨db, (τ 0).env e, none⟩) := by
  simp only [program, TradingService.executeTrade, TradingService.findByIdempotencyKey, App.query,
    Prog.query, Prog.bind_eq, Prog.bind_sql, Prog.bind_ok, Prog.run, Bool.and_false,
    Bool.false_eq_true, if_false, World.view, exec, found, Option.map_some, App.ofExcept,
    World.record]
  cases TradingService.replayOrConflict trade.load quoteId <;> rfl

/-- What a successful call has answered is a trade of its quote, under its key for good. -/
theorem tradeByKey?_of_success {c : Uuid} {quoteId rawKey : String} {result : TradeResult} {i : Nat}
    {t : Thread backend Call Response} (h₁ : State.Reaches program (Sys.start clients e) s₁)
    (hi : s₁.threads[i]? = some t) (call : t.call = .executeTrade c ⟨quoteId⟩ rawKey)
    (succeeded : t.result? = some (.ok (.trade result))) :
    ∃ trade, s₁.data.tradeByKey? c (trim rawKey) = some trade ∧
      Uuid.ofText? quoteId = some trade.quoteId ∧ result.trade = toTradeResponse trade.load := by
  obtain ⟨p, hp, ha⟩ := (later_of_reaches h₁).1.answer hi succeeded
  rw [call] at ha
  have ha := ha.resolve_left (by simp)
  generalize hr : Except.ok (Response.trade result) = r at ha
  cases ha with
  | failed => cases hr
  | @replay row found _ =>
    cases hok : TradingService.replayOrConflict row.load quoteId with
    | error e => rw [hok] at hr; cases hr
    | ok result' =>
      rw [hok] at hr
      cases hr
      obtain ⟨hid, rfl⟩ := replayOrConflict_ok hok
      obtain rfl : row.quoteId.text = quoteId := hid
      exact ⟨row, hp.data.tradeByKey? found, Uuid.ofText?_text _, rfl⟩
  | @filled row found spelled _ _ =>
    cases hr
    exact ⟨row, hp.data.tradeByKey? found, spelled, rfl⟩

/-- **Retries afterwards.** Whatever happens after a successful call, a retry with its key and its
spelling of the quote's id is answered with the same trade and changes nothing, if and only if it
spells the id as Postgres does. -/
theorem replayed_iff_lowerCase {c : Uuid} {quoteId rawKey rawKey' : String} {result : TradeResult}
    {i : Nat} {t : Thread backend Call Response}
    (h₁ : State.Reaches program (Sys.start clients e) s₁) (hi : s₁.threads[i]? = some t)
    (call : t.call = .executeTrade c ⟨quoteId⟩ rawKey)
    (succeeded : t.result? = some (.ok (.trade result)))
    (h₂ : State.Reaches program s₁ s₂) (same : trim rawKey' = trim rawKey)
    (τ : Nat → Turn backend) :
    ((program (.executeTrade c ⟨quoteId⟩ rawKey')).run (fun _ => false) τ
      ⟨s₂.data, s₂.env, none⟩).1 =
        .ok (.trade ⟨result.trade, true⟩) ∧
      ((program (.executeTrade c ⟨quoteId⟩ rawKey')).run (fun _ => false) τ
        ⟨s₂.data, s₂.env, none⟩).2.data = s₂.data ↔ lowerCase quoteId = quoteId := by
  obtain ⟨trade, found, spelled, hresult⟩ := tradeByKey?_of_success h₁ hi call succeeded
  have found₂ : s₂.data.tradeByKey? c (trim rawKey') = some trade := by
    rw [same]
    exact (moves_on h₁ h₂).data.tradeByKey? found
  rw [run_executeTrade_found found₂, hresult, ← replayOrConflict_eq_ok_iff spelled]
  cases TradingService.replayOrConflict trade.load quoteId <;> simp [Except.map]

end

section
open scoped Reference

/-- Alice's retry after her trade. -/
theorem replayed_iff_lowerCase_retry :
    ((program (.executeTrade Sample.alice ⟨Sample.quoteId.text⟩ " key ")).run (fun _ => false)
          Sample.calm ⟨Sample.traded.data, Sample.traded.env, none⟩).1 =
        .ok (.trade ⟨toTradeResponse Sample.trade.load, true⟩) ∧
      ((program (.executeTrade Sample.alice ⟨Sample.quoteId.text⟩ " key ")).run (fun _ => false)
          Sample.calm ⟨Sample.traded.data, Sample.traded.env, none⟩).2.data = Sample.traded.data ↔
      lowerCase Sample.quoteId.text = Sample.quoteId.text :=
  replayed_iff_lowerCase Sample.traded_reached (Sample.getElem?_thread (by decide +kernel))
    (show (Sample.thread _ 2).call = .executeTrade Sample.alice ⟨Sample.quoteId.text⟩ "key" from
      by decide +kernel)
    (show (Sample.thread _ 2).result? = some
      (.ok (.trade ⟨toTradeResponse Sample.trade.load, false⟩))
      from by decide +kernel) (.refl _) (by decide) Sample.calm

/-- A retry of the very same call is refused if it spells the quote's id in upper case. -/
theorem retry_refused : ∃ s t result,
    State.Reaches program (Sys.start Sample.clients Sample.surroundings) s ∧
    s.threads[2]? = some t ∧
    t.call = .executeTrade Sample.alice ⟨upperCase Sample.quoteId.text⟩ "key" ∧
    t.result? = some (.ok (.trade result)) ∧
    ((program (.executeTrade Sample.alice ⟨upperCase Sample.quoteId.text⟩ "key")).run
        (fun _ => false) Sample.calm ⟨s.data, s.env, none⟩).1 =
      .error (.conflictException
        "Idempotency-Key was already used to execute a different quote") :=
  ⟨Sample.after Sample.shouting, Sample.thread _ 2, ⟨toTradeResponse Sample.trade.load, false⟩,
    Sample.reached (by decide +kernel), Sample.getElem?_thread (by decide +kernel),
    by decide +kernel⟩

end

end MiniOpenFX
