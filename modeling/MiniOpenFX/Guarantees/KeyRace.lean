import MiniOpenFX.Guarantees.Cache
import MiniOpenFX.Proof.Commits
import MiniOpenFX.Transactional.Traces

/-!
# Races for a key

Calls of one client with one key, each for a quote of its own. At most one of them ever commits
(`commits_once`), whatever the others are about: the key is unique in the trades. The others change
nothing and leave their quotes active, but what they are told depends on when they looked their key
up (`conflict_iff_untouched`): a call that did so before the winner's commit and only meets the
unique index is answered with the bare error of the failed insert.
-/

namespace MiniOpenFX

open Js Transactional

/-! ## Two quotes and one key

Alice has two quotes and executes both with the same key. -/

namespace Sample

open scoped Reference

/-- The quote of the sample. -/
def smallQuoteId : Uuid := ⟨"5a115a11-5a11-4a11-8a11-5a115a115a11", by decide, by decide⟩

/-- The trade of the sample. -/
def smallTradeId : Uuid := ⟨"5a115a11-5a11-4a11-8a11-5a115a115a12", by decide, by decide⟩

/-- Thread 2 makes a second quote, at the cached price. -/
def twoQuotes : List (Label backend Call) :=
  deposits ++ quotes ++ [.spawn (.createQuote alice ⟨"BTC", "USDT", .BUY, "0.005"⟩)] ++
    acts 2 7 smallQuoteId

/-- Thread 3 executes the first quote, up to the commit. -/
def winning : List (Label backend Call) :=
  twoQuotes ++ [executes quoteId.text "key"] ++ acts 3 15 tradeId

/-- Thread 3 commits. -/
def wins : Label backend Call := .run 3 (choice tradeId .failed)

/-- Thread 4 is to execute the second quote, and looks its key up after the commit. -/
def late : List (Label backend Call) := [executes smallQuoteId.text "key"] ++ acts 4 1 smallTradeId

/-- Thread 4 has looked the key up before thread 3 commits. -/
def early : List (Label backend Call) :=
  winning ++ [executes smallQuoteId.text "key"] ++ acts 4 1 smallTradeId

/-- Alice's second quote. -/
def smallQuote : QuoteRow Timestamp :=
  { quote with id := smallQuoteId, baseAmountMinor := 500000, quoteAmountMinor := 25000500000 }

end Sample

section
variable [DecimalJs] {clients : List ClientRow} {e : Surroundings} {s s₁ s₂ s₃ : Sys}

/-! ## Commits of trades -/

/-- Every state of every run keeps the invariants of isolated transactions, with what each call
commits among the obligations. -/
theorem isolated_of_reaches (h : State.Reaches program (Sys.start clients e) s) :
    Isolated isolation rely (fun _ => obligationsOf) (fun _ => answers) s :=
  (h.isolated verified_of (.init trivial trivial)).1

/-- A trade stays under its key in a step: trades are only added, and none is added under a key
that is taken. -/
theorem isSome_tradeByKey?_step {s s' : Sys} {l : Label backend Call} {c : Uuid} {key : String}
    (hs : Isolated isolation rely (fun _ => obligationsOf) (fun _ => answers) s)
    (hst : s.step program l = some s') (h : (s.data.tradeByKey? c key).isSome) :
    (s'.data.tradeByKey? c key).isSome := by
  obtain ⟨trade, htrade⟩ := Option.isSome_iff_exists.mp h
  exact Option.isSome_iff_exists.mpr
    ⟨trade, (hs.step verified_of hst).2.data.tradeByKey? htrade⟩

/-- A call that has committed has its trade under its key, and no other call with the key has
committed. -/
structure Keyed (s : Sys) : Prop where
  made : ∀ (i : Nat) (t : Thread backend Call Response) c key, s.threads[i]? = some t →
    t.call.Uses c key → .commit (.ok ()) ∈ t.log → (s.data.tradeByKey? c key).isSome
  once : ∀ (i j : Nat) (t t' : Thread backend Call Response) c key, s.threads[i]? = some t →
    s.threads[j]? = some t' → t.call.Uses c key → t'.call.Uses c key →
    .commit (.ok ()) ∈ t.log → .commit (.ok ()) ∈ t'.log → i = j

/-- A commit under a key finds it unused, and uses it. Of two calls with a key only one can commit.
-/
theorem CommitsAlone.keyed {c : Call} {ℓ : History} {db db' : Database}
    (h : CommitsAlone c ℓ db db')
    {clientId : Uuid} {key : String} (huses : c.Uses clientId key) :
    db.tradeByKey? clientId key = none ∧ (db'.tradeByKey? clientId key).isSome := by
  obtain ⟨q, tradeId, createdAt, ⟨-, -, -, -, hkey, -⟩, hdata, rfl, -⟩ := h.trade_of_uses huses
  refine ⟨hkey, ?_⟩
  rw [hdata, Database.tradeByKey?, trades_trade, List.find?_append, Option.isSome_or]
  exact Bool.or_eq_true_iff.mpr
    (.inr (by simp [QuoteRow.trade, QuoteRow.tradeValues, TradeValues.row]))

/-- No step commits under a key that a call has committed under. The key is taken then, and stays
so. -/
theorem Keyed.step {s s' : Sys} {l : Label backend Call} (h : Keyed s)
    (hs : Isolated isolation rely (fun _ => obligationsOf) (fun _ => answers) s)
    (hst : s.step program l = some s') : Keyed s' := by
  -- what this step commits under a key, no call has committed before
  have hnew : ∀ {t' : Thread backend Call Response} {c key},
      s.committed l = [(t'.call, t'.log)] → t'.call.Uses c key →
      s.data.tradeByKey? c key = none ∧ (s'.data.tradeByKey? c key).isSome := by
    intro t' c key hc huses
    rcases tables_of_step hs hst with ⟨hnone, -⟩ | ⟨c', ℓ, hc', alone⟩
    · cases hnone.symm.trans hc
    cases hc.symm.trans hc'
    exact alone.keyed huses
  refine ⟨fun i t' c key hi huses hm => ?_, fun i j t u c key hi hj ht hu hmt hmu => ?_⟩
  · rcases State.commit_of_step hst hi hm with ⟨t, hi, hcall, hm⟩ | ⟨-, hc⟩
    · exact isSome_tradeByKey?_step hs hst (h.made i t c key hi (hcall ▸ huses) hm)
    · exact (hnew hc huses).2
  · rcases State.commit_of_step hst hi hmt with ⟨t₀, hi₀, hcall, hm⟩ | ⟨⟨χ, rfl⟩, hc⟩
    · rcases State.commit_of_step hst hj hmu with ⟨u₀, hj₀, hcall', hm'⟩ | ⟨-, hc'⟩
      · exact h.once i j t₀ u₀ c key hi₀ hj₀ (hcall ▸ ht) (hcall' ▸ hu) hm hm'
      · have := h.made i t₀ c key hi₀ (hcall ▸ ht) hm
        rw [(hnew hc' hu).1] at this
        cases this
    · rcases State.commit_of_step hst hj hmu with ⟨u₀, hj₀, hcall', hm'⟩ | ⟨⟨χ', hl⟩, -⟩
      · have := h.made j u₀ c key hj₀ (hcall' ▸ hu) hm'
        rw [(hnew hc ht).1] at this
        cases this
      · cases hl
        rfl

/-- In every state of every run, a trade under a key has been committed by one call. By induction
on the run, with `Keyed.step`. -/
theorem keyed_of_reaches (h : State.Reaches program (Sys.start clients e) s) : Keyed s := by
  refine (h.invariant (I := fun s => Isolated isolation rely (fun _ => obligationsOf)
    (fun _ => answers) s ∧ Keyed s) ⟨.init trivial trivial, ?_, ?_⟩ ?_).2
  · intro i t c key hi
    cases hi
  · intro i j t t' c key hi
    cases hi
  · rintro s l s' ⟨hs, hk⟩ hst
    exact ⟨(hs.step verified_of hst).1, hk.step hs hst⟩

/-- An executed quote has been executed by a call: its trade came with a commit, and the thread of
that commit is still there. -/
theorem executed_by_call (h : State.Reaches program (Sys.start clients e) s)
    {q : QuoteRow Timestamp}
    (hq : q ∈ s.data.quotes) (hs : q.status = .EXECUTED) :
    ∃ t ∈ s.threads, t.call.Executes q.id ∧ .commit (.ok ()) ∈ t.log := by
  refine (h.invariant (I := fun s : Sys => Isolated isolation rely (fun _ => obligationsOf)
    (fun _ => answers) s ∧ ∀ q ∈ s.data.quotes, q.status = .EXECUTED →
      ∃ t ∈ s.threads, t.call.Executes q.id ∧ .commit (.ok ()) ∈ t.log)
    ⟨.init trivial trivial, fun q hq => by cases hq⟩ ?_).2 q hq hs
  rintro s l s' ⟨hs, hexec⟩ hst
  refine ⟨(hs.step verified_of hst).1, ?_⟩
  have hold : ∀ q ∈ s.data.quotes, q.status = .EXECUTED →
      ∃ t ∈ s'.threads, t.call.Executes q.id ∧ .commit (.ok ()) ∈ t.log := by
    intro q hq hsq
    obtain ⟨t, ht, hcall, hm⟩ := hexec q hq hsq
    obtain ⟨i, hi⟩ := List.getElem?_of_mem ht
    obtain ⟨t', hi', hcall', hlog⟩ := State.step_thread hst hi
    exact ⟨t', List.mem_of_getElem? hi', hcall' ▸ hcall, hlog.subset hm⟩
  rcases tables_of_step hs hst with ⟨-, hdata | ⟨t, -, row, dto, -, ⟨-, hactive, -⟩, hdata⟩⟩ |
    ⟨c, ℓ, hc, alone⟩ <;> intro q hq hsq
  · exact hold q (hdata ▸ hq) hsq
  · rw [hdata] at hq
    rcases List.mem_append.mp hq with hq | hq
    · exact hold q hq hsq
    · rw [List.mem_singleton.mp hq, hactive] at hsq
      cases hsq
  · obtain ⟨i, χ, t', -, hi', rfl, rfl, hm⟩ := State.thread_of_committed hst hc
    obtain ⟨f, hf, hdata, hby⟩ := alone.effect
    rw [hdata] at hq
    cases f with
    | nothing => exact hold q hq hsq
    | quote row => cases hby
    | deposit | seed => exact hold q (by simpa [Effect.apply, Write.apply] using hq) hsq
    | trade x tradeId key createdAt =>
      rw [quotes_trade] at hq
      obtain ⟨y, hy, rfl⟩ := List.mem_map.mp hq
      obtain ⟨dto, rawKey, hcall, spelled, -⟩ := hby
      by_cases hyx : y.id = x.id
      · rw [if_pos hyx]
        exact ⟨t', List.mem_of_getElem? hi', ⟨_, dto, rawKey, hcall, hyx ▸ spelled⟩, hm⟩
      · rw [if_neg hyx] at hsq ⊢
        exact hold y hy hsq

/-! ## Conflicts -/

/-- The error is no conflict. Most of a trade throws none, which leaves few places where a 409 can
come from. -/
def Unconflicting (x : JsError) : Prop := ∀ message, x ≠ .conflictException message

omit [DecimalJs] in
/-- A failing statement is no conflict: drizzle's error has no `code` that the service could
recognise. -/
theorem unconflicting_of_possible {st : Stmt} {x : JsError}
    (h : (Event.sql (S := sig) st (.error x)).Possible (.free backend)) : Unconflicting x := by
  obtain ⟨-, hbroken | ⟨χ, now, db, -, hx⟩⟩ := h
  · cases hbroken
    exact fun _ h => nomatch h
  · have hx : (exec now db st).map Prod.fst = .error x := hx
    cases hexec : exec now db st with
    | ok r => rw [hexec] at hx; cases hx
    | error x' =>
      rw [hexec] at hx
      cases hx
      obtain ⟨cause, rfl⟩ := exec_error hexec
      exact fun _ h => nomatch h

section
variable {α : Type}

omit [DecimalJs] in
/-- A statement throws errors of Postgres, which are no conflicts. This and the lemmas below go
through what a trade does, up to where it is refused. -/
theorem query_unconflicting (st : Stmt) :
    (App.query st).Throws (.free backend) Unconflicting :=
  Prog.throws_query fun _ => unconflicting_of_possible

omit [DecimalJs] in
theorem uuidv4_unconflicting : App.uuidv4.Throws (.free backend) Unconflicting := by
  refine Prog.throws_request trivial fun x hx => ?_
  obtain ⟨-, hbroken | ⟨χ, w, -, hx⟩⟩ := hx
  · cases hbroken
    exact fun _ h => nomatch h
  · cases hx

omit [DecimalJs] in
theorem forM_unconflicting {xs : List α} {f : α → App PUnit}
    (h : ∀ a, (f a).Throws (.free backend) Unconflicting) :
    Prog.Throws (.free backend) Unconflicting (xs.forM f : App PUnit) := by
  induction xs with
  | nil => exact fun _ => trivial
  | cons a xs ih => exact (h a).bind fun _ => ih

omit [DecimalJs] in
theorem lockBalanceRows_unconflicting (clientId : Uuid) (currencies : List String) :
    (LedgerService.lockBalanceRows clientId currencies).Throws (.free backend) Unconflicting := by
  refine (forM_unconflicting fun _ => query_unconflicting _).bind fun _ => Prog.Throws.bind ?_
    fun _ _ => trivial
  exact forM_unconflicting fun _ => (query_unconflicting _).bind fun _ _ => trivial

omit [DecimalJs] in
/-- A balance that is not locked is an internal error, no conflict. -/
theorem assertCovers_unconflicting (lock : BalanceLock) (clientId : Uuid) (currency : String) :
    (App.ofExcept (LedgerService.assertCovers lock clientId currency)).Throws (.free backend)
      Unconflicting := by
  unfold LedgerService.assertCovers
  split
  · exact fun _ _ h => nomatch h
  · exact fun _ => trivial

omit [DecimalJs] in
/-- `debit` throws no conflict: funds that are lacking have an error of their own. -/
theorem debit_unconflicting (lock : BalanceLock) (params : LedgerMovementParams) :
    (LedgerService.debit lock params).Throws (.free backend) Unconflicting := by
  refine (assertCovers_unconflicting _ _ _).bind fun _ =>
    (query_unconflicting _).bind fun updated => ?_
  cases updated with
  | none => exact fun _ _ h => nomatch h
  | some _ => exact query_unconflicting _

omit [DecimalJs] in
theorem credit_unconflicting (lock : BalanceLock) (params : LedgerMovementParams) :
    (LedgerService.credit lock params).Throws (.free backend) Unconflicting :=
  (assertCovers_unconflicting _ _ _).bind fun _ => (query_unconflicting _).bind fun _ =>
    query_unconflicting _

omit [DecimalJs] in
/-- `invalidateCache` throws nothing at all. -/
theorem invalidateCache_unconflicting (id : String) :
    (QuotingService.invalidateCache id).Throws (.free backend) Unconflicting := by
  refine fun ℓ => Prog.yields_bind.mpr (Prog.yields_attempt.mpr ⟨trivial, fun r _ => ?_⟩)
  cases r <;> trivial

omit [DecimalJs] in
/-- A program that throws no conflict meets any condition on how conflicts come about. The parts of
a trade that are not its two conflicts pass by it. -/
theorem yields_of_throws {x : App α} {A : History → Prop} {ℓ : History}
    (hx : x.Throws (.free backend) Unconflicting) : x.Yields (.free backend)
      (fun ℓ r => ∀ message, r = .error (.conflictException message) → A ℓ) ℓ := by
  refine (hx ℓ).mono fun ℓ r hr message h => ?_
  rw [h] at hr
  exact absurd rfl (hr message)

end

/-- The call has found its quote executed. -/
def History.FoundExecuted (quoteId : String) (ℓ : History) : Prop :=
  ∃ row, Event.sql (S := sig) (.selectQuoteForUpdate quoteId) (.ok (some row)) ∈ ℓ ∧
    row.status = .EXECUTED

omit [DecimalJs] in
/-- Inside its transaction a trade meets a conflict only in the status of its quote. The index on
keys does not show as a conflict there. -/
theorem executeWithinTransaction_yields (clientId : Uuid) (quoteId key : String) (ℓ : History) :
    (TradingService.executeWithinTransaction clientId quoteId key).Yields (.free backend)
      (fun ℓ r => ∀ message, r = .error (.conflictException message) →
        History.FoundExecuted quoteId ℓ) ℓ := by
  unfold TradingService.executeWithinTransaction
  refine Prog.yields_query (fun row _ => ?_) fun x hx message h => ?_
  swap
  · cases h
    exact absurd rfl (unconflicting_of_possible hx message)
  cases howned : assertOwnedByClient QuoteRow.clientId row clientId
      s!"Quote \"{quoteId}\" not found" with
  | error x =>
    intro message h
    cases h
    unfold assertOwnedByClient at howned
    split at howned
    · cases howned
    · split at howned <;> cases howned
  | ok quote =>
    obtain ⟨rfl, -⟩ := assertOwnedByClient_ok howned
    rw [App.ofExcept, Prog.bind_eq, Prog.bind_ok]
    split
    · next hs => exact fun message _ => ⟨quote, List.mem_concat_self, hs⟩
    refine Prog.yields_request trivial (fun now _ => ?_) fun x hx message h => ?_
    swap
    · cases h
      obtain ⟨-, hbroken | ⟨χ, w, -, hx⟩⟩ := hx
      · cases hbroken
      · cases hx
    split
    · exact fun message h => by cases h
    refine yields_of_throws ((lockBalanceRows_unconflicting _ _).bind fun lock => ?_)
    refine uuidv4_unconflicting.bind fun tradeId => (debit_unconflicting _ _).bind fun _ => ?_
    refine (credit_unconflicting _ _).bind fun _ => (query_unconflicting _).bind fun trade => ?_
    exact (query_unconflicting _).bind fun _ _ => trivial

omit [DecimalJs] in
/-- A quote that was found executed was so in a longer history, too. -/
theorem History.FoundExecuted.append {quoteId : String} {ℓ : History} (ℓ' : History)
    (h : History.FoundExecuted quoteId ℓ) : History.FoundExecuted quoteId (ℓ ++ ℓ') := by
  obtain ⟨row, hm, hs⟩ := h
  exact ⟨row, List.mem_append_left _ hm, hs⟩

/-- A trade answers with a conflict only if its lookup has found a trade under its key, or it has
found its quote executed. -/
theorem executeTrade_yields (c : Uuid) (quoteId rawKey : String) :
    (program (.executeTrade c ⟨quoteId⟩ rawKey)).Yields (.free backend)
      (fun ℓ r => ∀ message, r = .error (.conflictException message) →
        (∃ row, ℓ.head? = some (.sql (S := sig) (.selectTradeByKey c (trim rawKey))
          (.ok (some row)))) ∨ History.FoundExecuted quoteId ℓ) [] := by
  refine Prog.yields_bind.mpr ?_
  unfold TradingService.executeTrade
  refine Prog.yields_query (fun found _ => ?_) fun x hx message h => ?_
  swap
  · cases h
    exact absurd rfl (unconflicting_of_possible hx message)
  cases found with
  | some existing =>
    change (App.ofExcept (TradingService.replayOrConflict existing quoteId)).Yields _ _ _
    cases TradingService.replayOrConflict existing quoteId with
    | ok result => exact fun message h => by cases h
    | error x => exact fun message _ => .inl ⟨existing, rfl⟩
  | none =>
    refine Prog.yields_bind.mpr (Prog.yields_attempt.mpr ((Prog.yields_transaction
      (Q := fun ℓ r => ∀ message, r = .error (.conflictException message) →
        History.FoundExecuted quoteId ℓ) (fun ℓ message h => by cases h) ?_).mono ?_))
    · refine (executeWithinTransaction_yields c quoteId (trim rawKey) _).mono fun ℓ r hr => ?_
      cases r with
      | ok row => exact fun message h => by cases h
      | error x => exact fun message h => (hr message h).append _
    · intro ℓ r hr
      cases r with
      | ok row =>
        refine Prog.yields_bind.mp (yields_of_throws (Prog.Throws.bind
          ((invalidateCache_unconflicting quoteId).bind fun _ => ?_) fun _ => ?_))
        · exact fun _ => trivial
        · exact fun _ => trivial
      | error x =>
        -- the error of a failed query is never taken for a unique violation
        exact fun message h => .inr (hr message (by cases h; rfl))

/-- What a finished trade that answers with a conflict has found: a trade of another quote under
its key, or its quote executed. -/
theorem found_of_conflict (h : State.Reaches program (Sys.start clients e) s)
    {t : Thread backend Call Response} (ht : t ∈ s.threads) {c : Uuid} {quoteId rawKey : String}
    (call : t.call = .executeTrade c ⟨quoteId⟩ rawKey) {message : String}
    (finished : t.result? = some (.error (.conflictException message))) :
    (∃ row, t.log.head? = some (.sql (S := sig) (.selectTradeByKey c (trim rawKey))
      (.ok (some row)))) ∨ History.FoundExecuted quoteId t.log := by
  have hy := h.yields (W := .free backend) (Q := fun call ℓ r => ∀ c quoteId rawKey message,
    call = .executeTrade c ⟨quoteId⟩ rawKey → r = .error (.conflictException message) →
      (∃ row, ℓ.head? = some (.sql (S := sig) (.selectTradeByKey c (trim rawKey))
        (.ok (some row)))) ∨ History.FoundExecuted quoteId ℓ)
    (fun call => ?_) rfl trivial trivial (fun _ _ _ _ => trivial) ht finished
  · exact (hy.resolve_left (by simp)) c quoteId rawKey message call rfl
  · by_cases hcall : ∃ c quoteId rawKey, call = .executeTrade c ⟨quoteId⟩ rawKey
    · obtain ⟨c, quoteId, rawKey, rfl⟩ := hcall
      refine (executeTrade_yields c quoteId rawKey).mono ?_
      intro ℓ r hr c' quoteId' rawKey' message h
      cases h
      exact hr message
    · have hacts := (program_acts call).yields (W := .free backend) (ℓ := []) fun _ _ => trivial
      refine hacts.mono fun ℓ r _ c quoteId rawKey message h => ?_
      exact absurd ⟨c, quoteId, rawKey, h⟩ hcall

/-- A quote that a trade has found executed is executed, now and whenever it is looked at: no
effect makes a quote active again. -/
theorem executed_of_found (h : State.Reaches program (Sys.start clients e) s)
    {t : Thread backend Call Response} (ht : t ∈ s.threads) {quoteId : String} {u : Uuid}
    (spelled : Uuid.ofText? quoteId = some u) (hfound : History.FoundExecuted quoteId t.log) :
    ∃ q, s.data.quote? u = some q ∧ q.status = .EXECUTED := by
  obtain ⟨row, hm, hs⟩ := hfound
  obtain ⟨hid, q, hq, hcopy⟩ := knows_of_read h t ht quoteId row (.inr hm)
  obtain rfl := Option.some.inj (hid.symm.trans spelled)
  refine ⟨q, hq, ?_⟩
  rcases hcopy with rfl | rfl
  · exact hs
  · cases hs

/-! ## The race -/

/-- No act of thread `i` between `s` and `s'` changes the tables. What others do in between is not
restricted. -/
def LeavesTables (i : Nat) (s s' : Sys) : Prop :=
  ∀ u u' χ, State.Reaches program s u → u.step program (.run i χ) = some u' →
    State.Reaches program u' s' → u'.data = u.data

/-- The thread that makes a trade under a key is a call with the key: only a commit adds a trade,
under the key of its call. -/
theorem uses_of_made {c : Uuid} {key : String} {j : Nat} {χ : Choice}
    (h₁ : State.Reaches program (Sys.start clients e) s₁)
    (commit : s₁.step program (.run j χ) = some s₂) (free : s₁.data.tradeByKey? c key = none)
    (made : (s₂.data.tradeByKey? c key).isSome) : ∃ t, s₂.threads[j]? = some t ∧
      t.call.Uses c key ∧ .commit (.ok ()) ∈ t.log := by
  have hsame : s₂.data.trades ≠ s₁.data.trades := by
    intro htrades
    rw [Database.tradeByKey?, htrades, ← Database.tradeByKey?, free] at made
    cases made
  rcases tables_of_step (isolated_of_reaches h₁) commit with
    ⟨-, hdata | ⟨-, -, row, -, -, -, hdata⟩⟩ |
    ⟨c', ℓ, hc, alone⟩
  · exact absurd (congrArg Database.trades hdata) hsame
  · exact absurd (congrArg Database.trades hdata) hsame
  obtain ⟨i, χ', t, hl, hi, rfl, rfl, hm⟩ := State.thread_of_committed commit hc
  cases hl
  refine ⟨t, hi, ?_, hm⟩
  obtain ⟨f, hf, hdata, hby⟩ := alone.effect
  rw [hdata] at hsame made
  cases f with
  | nothing | quote => exact absurd rfl hsame
  | deposit | seed => exact absurd (by simp [Effect.apply, Write.apply]) hsame
  | trade x tradeId key' createdAt =>
    obtain ⟨dto, rawKey, hcall, -, rfl⟩ := hby
    rw [Database.tradeByKey?, trades_trade, List.find?_append, ← Database.tradeByKey?, free,
      Option.none_or, List.find?_singleton] at made
    split at made
    · next hkey =>
      simp only [decide_eq_true_eq] at hkey
      exact ⟨dto, rawKey, hcall.trans (congrArg (Call.executeTrade · dto rawKey) hkey.1), hkey.2⟩
    · cases made

/-- **Races for a key.** While a trade is being committed under a key, another call has the key and
a quote of its own. No call but the committing one ever commits under the key; the other one changes
no table and leaves its quote active; and it is answered with a conflict if and only if it has not
looked its key up before the commit. -/
theorem conflict_iff_untouched {c u : Uuid} {quoteId rawKey : String} {trade : TradeRow Timestamp}
    {i j : Nat} {χ : Choice} {t : Thread backend Call Response}
    (h₁ : State.Reaches program (Sys.start clients e) s₁)
    (commit : s₁.step program (.run j χ) = some s₂)
    (free : s₁.data.tradeByKey? c (trim rawKey) = none)
    (made : s₂.data.tradeByKey? c (trim rawKey) = some trade)
    (h₂ : State.Reaches program s₂ s₃) (other : i ≠ j) (hi : s₃.threads[i]? = some t)
    (call : t.call = .executeTrade c ⟨quoteId⟩ rawKey) (spelled : Uuid.ofText? quoteId = some u)
    (different : u ≠ trade.quoteId)
    (own : ∀ (k : Nat) t', s₃.threads[k]? = some t' → t'.call.Executes u → k = i) :
    (∀ (k : Nat) t', s₃.threads[k]? = some t' → t'.call.Uses c (trim rawKey) →
        .commit (.ok ()) ∈ t'.log → k = j) ∧
      LeavesTables i (Sys.start clients e) s₃ ∧
      (∀ q, s₃.data.quote? u = some q → q.status = .ACTIVE) ∧
      ∀ r, t.result? = some r → r ≠ .error .connectionError →
        ((∃ message, r = .error (.conflictException message)) ↔
          ∀ t₁, s₁.threads[i]? = some t₁ → t₁.log = []) := by
  have h₁₂ := h₁.tail commit
  have h₃ := h₁₂.trans h₂
  have huses : t.call.Uses c (trim rawKey) := ⟨_, _, call, rfl⟩
  obtain ⟨t₂, hj₂, huses₂, hm₂⟩ := uses_of_made h₁ commit free (made ▸ rfl)
  obtain ⟨t₃, hj, hcall₃, hlog₃⟩ := h₂.thread hj₂
  have once : ∀ (k : Nat) t', s₃.threads[k]? = some t' → t'.call.Uses c (trim rawKey) →
      .commit (.ok ()) ∈ t'.log → k = j := fun k t' hk hu hm =>
    (keyed_of_reaches h₃).once k j t' t₃ c _ hk hj hu (hcall₃ ▸ huses₂) hm (hlog₃.subset hm₂)
  have hnever : .commit (.ok ()) ∉ t.log := fun hm => other (once i t hi huses hm)
  have active : ∀ q, s₃.data.quote? u = some q → q.status = .ACTIVE := by
    intro q hq
    cases hs : q.status with
    | ACTIVE => rfl
    | EXECUTED =>
      obtain ⟨hmem, rfl⟩ := mem_of_quote? hq
      obtain ⟨t', ht', hexec, hm⟩ := executed_by_call h₃ hmem hs
      obtain ⟨k, hk⟩ := List.getElem?_of_mem ht'
      obtain rfl := own k t' hk hexec
      cases hk.symm.trans hi
      exact absurd hm hnever
  refine ⟨once, fun v v' χ' hv hst hv' => ?_, active,
    fun r finished answered => ⟨?_, fun untouched => ?_⟩⟩
  · obtain ⟨t₀, -, -, -, hi₀, -, -⟩ := State.step_run hst
    obtain ⟨t', hi', hcall, -⟩ := ((State.Reaches.refl v).tail hst |>.trans hv').thread hi₀
    cases hi'.symm.trans hi
    refine data_of_run (isolated_of_reaches hv) hst hi₀ (fun _ _ h => ?_) ?_
    · cases call.symm.trans (hcall.trans h)
    · rcases tables_of_step (isolated_of_reaches hv) hst with ⟨hc, -⟩ | ⟨c', ℓ, hc, -⟩
      · exact hc
      · obtain ⟨i', χ'', t'', hl, hi'', rfl, rfl, hm⟩ := State.thread_of_committed hst hc
        cases hl
        obtain ⟨t₄, hi₄, -, hlog⟩ := hv'.thread hi''
        cases hi₄.symm.trans hi
        exact absurd (hlog.subset hm) hnever
  · rintro ⟨message, rfl⟩ t₁ ht₁
    rcases found_of_conflict h₃ (List.mem_of_getElem? hi) call finished with ⟨row, first⟩ | hfound
    · obtain ⟨t', ht', -, ℓ', hℓ'⟩ := (((State.Reaches.refl s₁).tail commit).trans h₂).thread ht₁
      cases ht'.symm.trans hi
      cases hℓ : t₁.log with
      | nil => rfl
      | cons ev ℓ =>
        -- the lookup came before the commit, when there was nothing to find
        rw [← hℓ', hℓ] at first
        cases first
        obtain ⟨_, hkey⟩ := tradeByKey?_of_lookup h₁ t₁ (List.mem_of_getElem? ht₁) _ _ _
          (hℓ ▸ List.mem_cons_self)
        cases free.symm.trans hkey
    · obtain ⟨q, hq, hs⟩ := executed_of_found h₃ (List.mem_of_getElem? hi) spelled hfound
      rw [active q hq] at hs
      cases hs
  · rw [← State.step_run_of_ne commit other] at untouched
    have hreplay :=
      (replays_of_untouched h₁₂ made untouched h₂ hi call finished).resolve_left answered
    have hother : trade.load.quoteId.text ≠ quoteId := by
      rintro rfl
      exact different (Option.some.inj (spelled.symm.trans (Uuid.ofText?_text _)))
    rw [TradingService.replayOrConflict, if_pos hother] at hreplay
    exact ⟨_, hreplay⟩

end

section
open scoped Reference

namespace Sample

/-- The state after the late call. -/
def lateState : Sys := after (winning ++ [wins] ++ late)

theorem lateState_calls : lateState.threads.map Thread.call =
    [.createDeposit alice ⟨"USDT", "1000"⟩, .createQuote alice ⟨"BTC", "USDT", .BUY, "0.01"⟩,
      .createQuote alice ⟨"BTC", "USDT", .BUY, "0.005"⟩, .executeTrade alice ⟨quoteId.text⟩ "key",
      .executeTrade alice ⟨smallQuoteId.text⟩ "key"] := by
  decide +kernel

/-- Only thread 4 is to execute the second quote. -/
theorem lateState_own {k : Nat} {t : Thread backend Call Response}
    (hk : lateState.threads[k]? = some t)
    (h : t.call.Executes smallQuoteId) : k = 4 := by
  have hcall : (lateState.threads.map Thread.call)[k]? = some t.call := by
    rw [List.getElem?_map, hk, Option.map_some]
  rw [lateState_calls] at hcall
  obtain ⟨c, dto, key, heq, spelled⟩ := h
  rw [heq] at hcall
  rcases k with _ | _ | _ | _ | _ | k
  · cases hcall
  · cases hcall
  · cases hcall
  · cases hcall
    exact absurd (Option.some.inj ((Uuid.ofText?_text _).symm.trans spelled)) (by decide)
  · rfl
  · cases hcall

end Sample

/-- The late call is told that its key has been used. -/
theorem conflict_iff_untouched_late :
    (∀ (k : Nat) t', Sample.lateState.threads[k]? = some t' →
      t'.call.Uses Sample.alice (trim "key") →
        .commit (.ok ()) ∈ t'.log → k = 3) ∧
      LeavesTables 4 (Sys.start Sample.clients Sample.surroundings) Sample.lateState ∧
      (∀ q, Sample.lateState.data.quote? Sample.smallQuoteId = some q → q.status = .ACTIVE) ∧
      ∀ r, (Sample.thread Sample.lateState 4).result? = some r → r ≠ .error .connectionError →
        ((∃ message, r = .error (.conflictException message)) ↔
          ∀ t₁, (Sample.after Sample.winning).threads[4]? = some t₁ → t₁.log = []) :=
  conflict_iff_untouched (Sample.reached (by decide +kernel))
    (Sample.step_after Sample.wins (by decide +kernel)) (by decide +kernel)
    (show Database.tradeByKey? _ Sample.alice "key" = some Sample.trade from by decide +kernel)
    (Sample.after_reached Sample.late (by decide +kernel)) (by decide)
    (Sample.getElem?_thread (by decide +kernel))
    (show (Sample.thread Sample.lateState 4).call =
      .executeTrade Sample.alice ⟨Sample.smallQuoteId.text⟩ "key" from by decide +kernel)
    (Uuid.ofText?_text _) (by decide) fun _ _ => Sample.lateState_own

/-- The early call is answered with the bare error of its insert, which meets the unique index. Its
quote was its client's, active, in time and affordable all along. -/
theorem key_race_crashes : ∃ s₁ s₂ s₃ t,
    State.Reaches program (Sys.start Sample.clients Sample.surroundings) s₁ ∧
    s₁.step program Sample.wins = some s₂ ∧
    s₁.data.tradeByKey? Sample.alice "key" = none ∧
    s₂.data.tradeByKey? Sample.alice "key" = some Sample.trade ∧
    State.Reaches program s₂ s₃ ∧ s₃.threads[4]? = some t ∧
    t.call = .executeTrade Sample.alice ⟨Sample.smallQuoteId.text⟩ "key" ∧
    s₃.data.quote? Sample.smallQuoteId = some Sample.smallQuote ∧
    Sample.smallQuote.clientId = Sample.alice ∧ Sample.smallQuote.status = .ACTIVE ∧
    s₃.env.now.micros < Sample.smallQuote.expiresAt.micros ∧
    Sample.smallQuote.debitAmount ≤ s₃.data.available Sample.alice Sample.smallQuote.debitCurrency ∧
    t.result? = some (.error (uniqueViolation TradingService.IDEMPOTENCY_KEY_UNIQUE_CONSTRAINT)) :=
  ⟨Sample.after Sample.early, Sample.after (Sample.early ++ [Sample.wins]),
    Sample.after (Sample.early ++ [Sample.wins] ++ Sample.acts 4 14 Sample.smallTradeId),
    Sample.thread _ 4, Sample.reached (by decide +kernel), Sample.step_after _ (by decide +kernel),
    by decide +kernel, by decide +kernel, Sample.after_reached _ (by decide +kernel),
    Sample.getElem?_thread (by decide +kernel), by decide +kernel⟩

end

end MiniOpenFX
