import MiniOpenFX.Guarantees.KeyRace

/-!
# Expired quotes

A quote is shown as EXPIRED when the clock has passed its time and the row that was read is active;
nothing is written. A trade checks the clock once, after it has locked the quote, and may wait long
before it commits. So a report of EXPIRED is final if, when it is made, no trade of the quote has
committed or passed its check (`expired_final`); a trade that has can still commit.
-/

namespace MiniOpenFX

open Js Transactional

/-! ## A trade at the quote's last moment

Alice's quote runs out while her trade is past its check, or before it starts. -/

namespace Sample

open scoped Reference

/-- The quote's time passes. -/
def lapses : Label backend Call := .tick ⟨quoteId, .failed, true, .elapse 15000000⟩

/-- Thread 2 reads the quote after its time. -/
def lapsed : List (Label backend Call) := deposits ++ quotes ++ [lapses, reads] ++ acts 2 4 quoteId

/-- Thread 3 is to execute the quote and is refused; thread 4 reads it again. -/
def refused : List (Label backend Call) :=
  [executes quoteId.text "key"] ++ acts 3 5 tradeId ++ [reads] ++ acts 4 4 quoteId

/-- Thread 2 has found that the quote has time left; then the time passes, and thread 3 reads the
quote. -/
def outrun : List (Label backend Call) :=
  deposits ++ quotes ++ [executes quoteId.text "key"] ++ acts 2 4 tradeId ++ [lapses, reads] ++
    acts 3 4 quoteId

/-- Thread 2 goes on, and thread 4 reads the quote. -/
def fills : List (Label backend Call) := acts 2 13 tradeId ++ [reads] ++ acts 4 4 quoteId

end Sample

/-! ## The clock -/

/-- The milliseconds of the clock do not go back where its microseconds do not. -/
theorem dateNow_mono {e e' : Surroundings} (h : e.now.micros ≤ e'.now.micros) :
    e.dateNow ≤ e'.dateNow :=
  Int.ediv_le_ediv (by decide) h

/-- The clock has reached a moment. As it does not go back, this is a setting: everything keeps it.
-/
def clockPast (ms : Int) : Setting backend where
  data _ := True
  env e := ms ≤ e.dateNow
  event _ := True
  asks _ := True
  apply _ := id
  tick χ h := h.trans (dateNow_mono (tick_now χ _))
  answer x χ _ _ h := h.trans
    (dateNow_mono (le_of_eq (congrArg Timestamp.micros (answer_now x χ _)).symm))

/-- From then on the clock reads no less. -/
theorem clockPast_reading {ms n : Int}
    (h : (Event.ext (S := sig) .dateNow (.ok n)).Possible (clockPast ms)) : ms ≤ n := by
  obtain ⟨-, hbroken | ⟨χ, e, he, hx⟩⟩ := h
  · cases hbroken
  · cases hx
    exact he

section
variable [DecimalJs] {clients : List ClientRow} {e : Surroundings} {s s' s₁ s₂ : Sys}

/-- The clock reads no less than any call has read. So a quote that some call has seen expired is
expired for all that look later. -/
theorem reading_le (h : State.Reaches program (Sys.start clients e) s) : ∀ t ∈ s.threads, ∀ n,
    Event.ext (S := sig) .dateNow (.ok n) ∈ t.log → n ≤ s.env.dateNow := by
  refine h.invariant (I := fun s : Sys => ∀ t ∈ s.threads, ∀ n,
    Event.ext (S := sig) .dateNow (.ok n) ∈ t.log → n ≤ s.env.dateNow) (fun t ht => by cases ht) ?_
  intro u l u' hu hst
  have hacts : ∀ {t p ev w}, t ∈ u.threads → u.Acts t ev w →
    ∀ i, ∀ t' ∈ (u.resume i t (p, ev, w)).threads,
      ∀ n, Event.ext (S := sig) .dateNow (.ok n) ∈ t'.log → n ≤ w.env.dateNow := by
    intro t p ev w ht hw i t' ht' n hm
    have hle : u.env.dateNow ≤ w.env.dateNow := by
      rcases hw.env with henv | ⟨x, k, χ, -, -, -, henv⟩ <;> rw [henv]
      exact dateNow_mono (le_of_eq (congrArg Timestamp.micros (answer_now x χ _)).symm)
    rcases List.mem_or_eq_of_mem_set ht' with ht' | rfl
    · exact (hu t' ht' n hm).trans hle
    · rcases List.mem_append.mp hm with hm | hm
      · exact (hu t ht n hm).trans hle
      · obtain rfl := List.mem_singleton.mp hm
        cases hw with
        | run h =>
          obtain ⟨⟨k, hp⟩, -⟩ := Prog.step_ext h
          rw [hp] at h
          cases h
          exact le_refl _
        | interrupt h =>
          generalize t.prog = prog at h
          cases prog <;> cases h
  rcases State.step_cases hst with ⟨c, -, rfl⟩ | ⟨χ, -, rfl⟩ | ⟨i, t, hi, hmove⟩
  · intro t ht n hm
    rcases List.mem_append.mp ht with ht | ht
    · exact hu t ht n hm
    · rw [List.mem_singleton.mp ht] at hm
      cases hm
  · exact fun t ht n hm => (hu t ht n hm).trans (dateNow_mono (tick_now χ _))
  · have hmem := List.mem_of_getElem? hi
    cases hmove with
    | run _ h => exact hacts hmem (.run h) i
    | interrupt h => exact hacts hmem (.interrupt h) i
    | crash =>
      intro t' ht' n hm
      rcases List.mem_or_eq_of_mem_set ht' with ht' | rfl
      · exact hu t' ht' n hm
      · exact hu t hmem n hm

/-! ## What a trade checks -/

/-- What a trade that commits has checked: the quote it has locked had time left. The reading
stands in its history, between the lock and the first change. -/
theorem CommitsAlone.checked {c : Uuid} {dto : CreateTradeDto} {rawKey : String} {ℓ : History}
    {db db' : Database} (h : CommitsAlone (.executeTrade c dto rawKey) ℓ db db') : ∃ row n ℓ',
      ℓ = [.sql (S := sig) (.selectTradeByKey c (trim rawKey)) (.ok none), .begin (.ok ()),
        .sql (.selectQuoteForUpdate dto.quoteId) (.ok (some row)), .ext .dateNow (.ok n)] ++
          ℓ' ++ [.commit (.ok ())] ∧ n < row.expiresAt.ms ∧ ∀ ev ∈ ℓ', ev.act.Inner := by
  cases h with
  | @trade _ _ _ ℓ _ _ _ _ trade alone =>
    suffices (Prog.transaction (TradingService.executeWithinTransaction c dto.quoteId
        (trim rawKey))).Yields (.free backend) (fun ℓ r => ∀ trade, r = .ok trade → ∃ row n ℓ',
          ℓ = .begin (.ok ()) :: .sql (S := sig) (.selectQuoteForUpdate dto.quoteId)
            (.ok (some row)) ::
            .ext .dateNow (.ok n) :: ℓ' ++ [.commit (.ok ())] ∧ n < row.expiresAt.ms ∧
          ∀ ev ∈ ℓ', ev.act.Inner) [] by
      obtain ⟨row, n, ℓ', hℓ, hn, hinner⟩ := this.solo alone trade rfl
      rw [List.nil_append] at hℓ
      exact ⟨row, n, ℓ', by rw [hℓ]; rfl, hn, hinner⟩
    refine Prog.yields_transaction (fun _ _ h => by cases h) ?_
    unfold TradingService.executeWithinTransaction
    refine Prog.yields_query (fun row _ => ?_) fun _ _ _ h => by cases h
    cases howned : assertOwnedByClient QuoteRow.clientId row c
        s!"Quote \"{dto.quoteId}\" not found" with
    | error x => exact fun _ h => by cases h
    | ok quote =>
      obtain ⟨rfl, -⟩ := assertOwnedByClient_ok howned
      rw [App.ofExcept, Prog.bind_eq, Prog.bind_ok]
      split
      · exact fun _ h => by cases h
      refine Prog.yields_request trivial (fun n _ => ?_) fun _ _ _ h => by cases h
      split
      · exact fun _ h => by cases h
      next hn =>
      have hsql : ∀ st : Stmt, (∀ v, st ≠ .insertQuote v) → Act.Inner (S := sig) (.sql st) :=
        fun _ _ => trivial
      refine (Prog.Acts.yields (P := Act.Inner) ?_ fun _ _ => trivial).mono fun ℓ r hr => ?_
      · exact (lockBalanceRows_acts hsql _ _).bind fun lock =>
          (request_acts (fun _ _ => trivial) .uuidv4 (by rfl)).bind fun tradeId =>
            (debit_acts hsql _ _).bind fun _ => (credit_acts hsql _ _).bind fun _ =>
              (query_acts hsql (by simp)).bind fun _ => (query_acts hsql (by simp)).bind
                fun _ => trivial
      · cases r with
        | error x => exact fun _ h => by cases h
        | ok trade =>
          obtain ⟨ℓ', rfl, hinner⟩ := hr
          exact fun _ _ => ⟨quote, n, ℓ', by simp, Int.not_le.mp hn, hinner⟩

/-! ## What a read reports -/

section
variable {α : Type} {Q : History → Except JsError α → Prop} {ℓ : History}

omit [DecimalJs] in
/-- A command to Redis, failed or not, and what follows it. -/
theorem yields_failSoft {x : Ext} {fallback : ExtRes x} {f : ExtRes x → App α}
    (h : ∀ r, (f (r.toOption.getD fallback)).Yields (.free backend) Q
      (ℓ ++ [.ext (S := sig) (ε := JsError) x r])) :
    ((RedisService.failSoft (App.request x) fallback).bind f).Yields (.free backend) Q ℓ := by
  refine Prog.yields_bind.mpr
    (Prog.yields_bind.mpr (Prog.yields_attempt.mpr ⟨trivial, fun r _ => ?_⟩))
  cases r <;> exact h _

end

omit [DecimalJs] in
/-- A read of a quote ends with what the cache or Postgres had, and says which. -/
theorem loadQuote_yields (id : String) : (QuotingService.loadQuote id).Yields (.free backend)
    (fun ℓ r => ∀ row, r = .ok row → Loaded id ℓ row) [] := by
  unfold QuotingService.loadQuote
  refine yields_failSoft fun got => ?_
  dsimp only
  split
  · next cached hgot =>
    obtain rfl : got = .ok (some (.quote cached)) := by
      cases got with
      | ok got => exact congrArg Except.ok hgot
      | error x => cases hgot
    cases hd : deserializeQuote cached with
    | error x => exact fun _ h => by cases h
    | ok row => exact fun _ h => by cases h; exact .cached List.mem_concat_self hd
  · refine Prog.yields_query (fun row _ => ?_) fun _ _ _ h => by cases h
    cases row with
    | none => exact fun _ h => by cases h; exact .read List.mem_concat_self
    | some row =>
      refine Prog.yields_request trivial (fun now _ => ?_) fun _ _ _ h => by cases h
      have hread : ∀ ℓ', Loaded id ([.ext (.redisGet (quoteCacheKey id)) got,
          .sql (.selectQuote id) (.ok (some row)), .ext .dateNow (.ok now)] ++ ℓ') (some row) :=
        fun ℓ' => .read (.tail _ (.head _))
      split
      · exact yields_failSoft fun r _ h => by cases h; exact hread [_]
      · exact fun _ h => by cases h; exact hread []

/-- A read that shows a quote has read its row and then the clock. The status shown is computed
from these two. -/
theorem getQuoteById_yields (c : Uuid) (id : String) :
    (program (.getQuoteById c id)).Yields (.free backend) (fun ℓ r => ∀ response,
      r = .ok (.quote response) → ∃ row now, response = toQuoteResponse now row ∧
        Loaded id ℓ (some row) ∧ .ext .dateNow (.ok now) ∈ ℓ) [] := by
  refine Prog.yields_bind.mpr (Prog.yields_bind.mpr ((loadQuote_yields id).mono fun ℓ r hr => ?_))
  cases r with
  | error x => exact fun _ h => by cases h
  | ok row =>
    have hloaded := hr row rfl
    change Prog.Yields _ _ _ (Prog.bind (App.ofExcept (assertOwnedByClient _ _ _ _)) _)
    cases howned : assertOwnedByClient QuoteRow.clientId row c s!"Quote \"{id}\" not found" with
    | error x => exact fun _ h => by cases h
    | ok quote =>
      obtain ⟨rfl, -⟩ := assertOwnedByClient_ok howned
      refine Prog.yields_request trivial (fun now _ => ?_) fun _ _ _ h => by cases h
      rintro _ ⟨⟩
      exact ⟨quote, now, rfl, hloaded.of_prefix (List.prefix_append _ _), List.mem_concat_self⟩

/-- What a finished read that shows a quote has read: a row that was loaded, and a time the clock
had. -/
theorem read_of_shown (h : State.Reaches program (Sys.start clients e) s)
    {t : Thread backend Call Response} (ht : t ∈ s.threads) {c : Uuid} {id : String}
    (call : t.call = .getQuoteById c id) {response : QuoteResponse}
    (finished : t.result? = some (.ok (.quote response)))
    (uncached : ∀ cached, Event.ext (S := sig) (.redisGet (quoteCacheKey id))
      (.ok (some (.quote cached))) ∉ t.log) :
    ∃ row now, response = toQuoteResponse now row ∧
      Event.sql (S := sig) (.selectQuote id) (.ok (some row)) ∈ t.log ∧
      .ext .dateNow (.ok now) ∈ t.log := by
  have hy := h.yields (W := .free backend) (Q := fun call ℓ r => ∀ c id response,
    call = .getQuoteById c id → r = .ok (.quote response) →
      ∃ row now, response = toQuoteResponse now row ∧ Loaded id ℓ (some row) ∧
        .ext .dateNow (.ok now) ∈ ℓ)
    (fun call => ?_) rfl trivial trivial (fun _ _ _ _ => trivial) ht finished
  · obtain ⟨row, now, hresponse, hloaded, hnow⟩ :=
      (hy.resolve_left (by simp)) c id response call rfl
    cases hloaded with
    | cached got _ => exact absurd got (uncached _)
    | read got => exact ⟨row, now, hresponse, got, hnow⟩
  · by_cases hcall : ∃ c id, call = .getQuoteById c id
    · obtain ⟨c, id, rfl⟩ := hcall
      refine (getQuoteById_yields c id).mono fun ℓ r hr c' id' response h => ?_
      cases h
      exact hr response
    · refine ((program_acts call).yields fun _ _ => trivial).mono fun ℓ r _ c id response h => ?_
      exact absurd ⟨c, id, h⟩ hcall

/-! ## After the report -/

/-- The call has a transaction open in which it has locked its quote and found that it had time
left. -/
def PastCheck (t : Thread backend Call Response) : Prop :=
  t.tx.isSome ∧ ∃ id row n, .sql (S := sig) (.selectQuoteForUpdate id) (.ok (some row)) ∈ t.log ∧
    .ext .dateNow (.ok n) ∈ t.log ∧ n < row.expiresAt.ms

omit [DecimalJs] in
/-- A copy of a quote, from whatever time, has its expiry. -/
theorem expiresAt_of_copy {row : QuoteRow Date} {q : QuoteRow Timestamp} (h : row.CopyOf q) :
    row.expiresAt = q.load.expiresAt := by
  rcases h with rfl | rfl <;> rfl

omit [DecimalJs] in
/-- A list is cut behind what is not in its second part. It finds the place of an event in a
history that is known to end in two ways. -/
theorem append_cut {α : Type} (xs : List α) {ys zs zs' : List α} {a : α}
    (h : xs ++ [a] ++ ys = zs ++ zs') (ha : a ∉ zs') :
      ∃ vs, zs = xs ++ [a] ++ vs ∧ ys = vs ++ zs' := by
  rcases List.append_eq_append_iff.mp h with ⟨vs, hzs, hys⟩ | ⟨vs, hxs, hzs'⟩
  · exact ⟨vs, hzs, hys⟩
  · rcases List.eq_nil_or_concat vs with rfl | ⟨vs, b, rfl⟩
    · exact ⟨[], by simpa using hxs.symm, by simpa using hzs'.symm⟩
    · rw [List.concat_eq_append, ← List.append_assoc] at hxs
      obtain ⟨-, hb⟩ := List.append_inj' hxs rfl
      cases hb
      exact absurd (by simp [hzs']) ha

/-- A quote keeps its time: a copy from any moment expires when the row does. -/
theorem Database.Knows.expiresAt {db db' : Database} {row : QuoteRow Date} {q : QuoteRow Timestamp}
    (h : db'.Knows row) (found : db.quote? row.id = some q) (hl : db.Later db') :
    row.expiresAt = q.load.expiresAt := by
  obtain ⟨q₁, hq₁, hcopy⟩ := h
  obtain ⟨q₂, hq₂, hcopy'⟩ := (Database.knows_load found).later hl
  have hid : q.load.id = row.id := quote?_id found
  rw [hid, hq₁] at hq₂
  cases hq₂
  exact (expiresAt_of_copy hcopy).trans (expiresAt_of_copy hcopy').symm

/-- A trade that commits after the quote's time had passed its check before. The check compares the
clock with the quote, and would have failed afterwards. -/
theorem pastCheck_of_commit {u : Uuid} {q : QuoteRow Timestamp} {i : Nat} {χ : Choice}
    {t : Thread backend Call Response} (h₁ : State.Reaches program (Sys.start clients e) s₁)
    (found : s₁.data.quote? u = some q) (expired : q.load.expiresAt.ms ≤ s₁.env.dateNow)
    (h : State.Reaches program s₁ s) (hst : s.step program (.run i χ) = some s')
    (hi : s'.threads[i]? = some t) (hc : s.committed (.run i χ) = [(t.call, t.log)])
    (hexec : t.call.Executes u) : ∃ t₁, s₁.threads[i]? = some t₁ ∧ PastCheck t₁ := by
  obtain ⟨c, dto, key, hcall, spelled⟩ := hexec
  rcases tables_of_step (isolated_of_reaches (h₁.trans h)) hst with ⟨hnone, -⟩ | ⟨c', ℓ, hc', alone⟩
  · cases hnone.symm.trans hc
  cases hc.symm.trans hc'
  rw [hcall] at alone
  obtain ⟨row, n, ℓ', hlog, hn, hinner⟩ := alone.checked
  -- the history before the commit
  obtain ⟨t₀, p, ev, w, hi₀, hact, rfl⟩ := State.step_run hst
  have hlt : i < s.threads.length := (List.getElem?_eq_some_iff.mp hi₀).1
  obtain rfl := Option.some.inj (hi.symm.trans (List.getElem?_set_self hlt))
  obtain ⟨hlog₀, -⟩ := List.append_inj' (show t₀.log ++ [ev] = _ ++ [_] from hlog) rfl
  -- the row is the quote's
  obtain ⟨hid, hknown⟩ := knows_of_read (h₁.trans h) t₀ (List.mem_of_getElem? hi₀) dto.quoteId row
    (.inr (by simp [hlog₀]))
  obtain rfl := Option.some.inj (hid.symm.trans spelled)
  have hexpires := hknown.expiresAt found (moves_on h₁ h).data
  obtain ⟨ℓ₀, ℓ₁, hsplit, hold, hposs⟩ :=
    h.since (W := clockPast q.load.expiresAt.ms) trivial expired
    (fun _ => trivial) (fun _ => trivial) hi₀
  have hearly : .ext .dateNow (.ok n) ∉ ℓ₁ := fun hm =>
    absurd (clockPast_reading (hposs _ hm)) (Int.not_le.mpr (hexpires ▸ hn))
  -- so the clock was read before the report
  obtain ⟨ℓ₂, rfl, rfl⟩ := append_cut [.sql (S := sig) (.selectTradeByKey c (trim key)) (.ok none),
    .begin (.ok ()), .sql (.selectQuoteForUpdate dto.quoteId) (.ok (some row))]
    (hlog₀.symm.trans hsplit) hearly
  obtain hnil | ⟨t₁, hi₁, hlog₁⟩ := hold
  · cases hnil
  refine ⟨t₁, hi₁, ?_, dto.quoteId, row, n, by simp [hlog₁], by simp [hlog₁], hn⟩
  rcases h₁.opened rfl (List.mem_of_getElem? hi₁) with hdone | hopen
  · obtain ⟨t', hi', -, r, hr⟩ := h.finished hi₁ ⟨_, hdone⟩
    cases hi'.symm.trans hi₀
    rw [hr] at hact
    cases hact
  · rw [hopen, hlog₁, opened_append fun ev hm => hinner ev (List.mem_append_left _ hm)]
    rfl

/-- A trade of the quote that has committed after its time had committed before or passed its
check. -/
theorem committed_or_pastCheck {u : Uuid} {q : QuoteRow Timestamp}
    (h₁ : State.Reaches program (Sys.start clients e) s₁) (found : s₁.data.quote? u = some q)
    (expired : q.load.expiresAt.ms ≤ s₁.env.dateNow) (h : State.Reaches program s₁ s) {i : Nat}
    {t : Thread backend Call Response} (hi : s.threads[i]? = some t) (hexec : t.call.Executes u)
    (hm : .commit (.ok ()) ∈ t.log) :
    ∃ t₁, s₁.threads[i]? = some t₁ ∧ (.commit (.ok ()) ∈ t₁.log ∨ PastCheck t₁) := by
  refine (h.invariant (I := fun s => State.Reaches program s₁ s ∧
    ∀ (i : Nat) t, s.threads[i]? = some t → t.call.Executes u → .commit (.ok ()) ∈ t.log →
      ∃ t₁, s₁.threads[i]? = some t₁ ∧ (.commit (.ok ()) ∈ t₁.log ∨ PastCheck t₁))
    ⟨.refl s₁, fun i t hi _ hm => ⟨t, hi, .inl hm⟩⟩ ?_).2 i t hi hexec hm
  rintro v l v' ⟨hv, hold⟩ hst
  refine ⟨hv.tail hst, fun i t hi hexec hm => ?_⟩
  rcases State.commit_of_step hst hi hm with ⟨t₀, hi₀, hcall, hm₀⟩ | ⟨⟨χ, rfl⟩, hc⟩
  · exact hold i t₀ hi₀ (hcall ▸ hexec) hm₀
  · obtain ⟨t₁, hi₁, hpast⟩ := pastCheck_of_commit h₁ found expired hv hst hi hc hexec
    exact ⟨t₁, hi₁, .inr hpast⟩

/-- **When EXPIRED is final.** After a read from Postgres has shown a quote as EXPIRED, a trade of
it commits only if its transaction was then open and had passed its check; and a read from Postgres
shows it as EXECUTED only if a trade of it had committed or passed its check then. -/
theorem expired_final {u c : Uuid} {id : String} {response : QuoteResponse}
    {t : Thread backend Call Response} (h₁ : State.Reaches program (Sys.start clients e) s₁)
    (ht : t ∈ s₁.threads) (call : t.call = .getQuoteById c id) (spelled : Uuid.ofText? id = some u)
    (finished : t.result? = some (.ok (.quote response))) (expired : response.status = .EXPIRED)
    (uncached : ∀ cached, Event.ext (S := sig) (.redisGet (quoteCacheKey id))
      (.ok (some (.quote cached))) ∉ t.log)
    (h₂ : State.Reaches program s₁ s₂) :
    (∀ (i : Nat) t₂, s₂.threads[i]? = some t₂ → t₂.call.Executes u → .commit (.ok ()) ∈ t₂.log →
      ∃ t₁, s₁.threads[i]? = some t₁ ∧ (.commit (.ok ()) ∈ t₁.log ∨ PastCheck t₁)) ∧
    ∀ t₂ ∈ s₂.threads, ∀ c' id' response', t₂.call = .getQuoteById c' id' →
      Uuid.ofText? id' = some u → t₂.result? = some (.ok (.quote response')) →
      (∀ cached, Event.ext (S := sig) (.redisGet (quoteCacheKey id'))
        (.ok (some (.quote cached))) ∉ t₂.log) →
      response'.status = .EXECUTED → ∃ t₁ ∈ s₁.threads, t₁.call.Executes u ∧
        (.commit (.ok ()) ∈ t₁.log ∨ PastCheck t₁) := by
  obtain ⟨row, n, rfl, hread, hnow⟩ := read_of_shown h₁ ht call finished uncached
  obtain ⟨hid, q, hq, hcopy⟩ := knows_of_read h₁ t ht id row (.inl hread)
  obtain rfl := Option.some.inj (hid.symm.trans spelled)
  have hpast : q.load.expiresAt.ms ≤ s₁.env.dateNow := by
    have hle := reading_le h₁ t ht n hnow
    have hn := (displayStatus_eq_expired.mp expired).2
    rw [← expiresAt_of_copy hcopy]
    exact hn.trans hle
  refine ⟨fun i t₂ hi hexec hm => committed_or_pastCheck h₁ hq hpast h₂ hi hexec hm, ?_⟩
  intro t₂ ht₂ c' id' response' call' spelled' finished' uncached' executed
  have h₁₂ := h₁.trans h₂
  obtain ⟨row', n', rfl, hread', -⟩ := read_of_shown h₁₂ ht₂ call' finished' uncached'
  obtain ⟨hid', q', hq', hcopy'⟩ := knows_of_read h₁₂ t₂ ht₂ id' row' (.inl hread')
  have hs := displayStatus_eq_executed.mp executed
  have hs' : q'.status = .EXECUTED := by
    rcases hcopy' with rfl | rfl
    · exact hs
    · cases hs
  obtain ⟨hmem, hqid⟩ := mem_of_quote? hq'
  obtain ⟨t₃, ht₃, hexec, hm⟩ := executed_by_call h₁₂ hmem hs'
  rw [hqid, Option.some.inj (hid'.symm.trans spelled')] at hexec
  obtain ⟨i, hi⟩ := List.getElem?_of_mem ht₃
  obtain ⟨t₁, hi₁, hor⟩ := committed_or_pastCheck h₁ hq hpast h₂ hi hexec hm
  obtain ⟨t', hi', hcall', -⟩ := h₂.thread hi₁
  cases hi'.symm.trans hi
  exact ⟨t₁, List.mem_of_getElem? hi₁, hcall' ▸ hexec, hor⟩

end

section
open scoped Reference

namespace Sample

/-- No command to Redis has brought a value. -/
def missed (ℓ : History) : Bool := ℓ.all fun
  | .ext (.redisGet _) (.ok (some _)) => false
  | _ => true

/-- A call that has missed the cache has read no quote from it. -/
theorem uncached_of_missed {ℓ : History} (h : missed ℓ) (key : String) (cached : CachedQuote) :
    Event.ext (S := sig) (.redisGet key) (.ok (some (.quote cached))) ∉ ℓ :=
  fun hm => by cases List.all_eq_true.mp h _ hm

end Sample

/-- Alice's quote has run out before her trade starts: the report is final. -/
theorem expired_final_refused :
    (∀ (i : Nat) t₂, (Sample.after (Sample.lapsed ++ Sample.refused)).threads[i]? = some t₂ →
      t₂.call.Executes Sample.quoteId → .commit (.ok ()) ∈ t₂.log →
      ∃ t₁, (Sample.after Sample.lapsed).threads[i]? = some t₁ ∧
        (.commit (.ok ()) ∈ t₁.log ∨ PastCheck t₁)) ∧
    ∀ t₂ ∈ (Sample.after (Sample.lapsed ++ Sample.refused)).threads, ∀ c' id' response',
      t₂.call = .getQuoteById c' id' → Uuid.ofText? id' = some Sample.quoteId →
      t₂.result? = some (.ok (.quote response')) →
      (∀ cached, Event.ext (S := sig) (.redisGet (quoteCacheKey id'))
        (.ok (some (.quote cached))) ∉ t₂.log) →
      response'.status = .EXECUTED → ∃ t₁ ∈ (Sample.after Sample.lapsed).threads,
        t₁.call.Executes Sample.quoteId ∧ (.commit (.ok ()) ∈ t₁.log ∨ PastCheck t₁) :=
  expired_final (Sample.reached (by decide +kernel))
    (List.mem_of_getElem? (Sample.getElem?_thread (i := 2) (by decide +kernel)))
    (show (Sample.thread _ 2).call = .getQuoteById Sample.alice Sample.quoteId.text from
      by decide +kernel) (Uuid.ofText?_text _)
    (show (Sample.thread _ 2).result? =
      some (.ok (.quote (toQuoteResponse 1700000015000 Sample.quote.load))) from by decide +kernel)
    (by decide +kernel) (Sample.uncached_of_missed (by decide +kernel) _)
    (Sample.after_reached Sample.refused (by decide +kernel))

/-- A trade that has passed its check commits after the quote has been shown as EXPIRED, and the
next read shows it as EXECUTED. -/
theorem executed_after_expired : ∃ s₁ s₂ t₁ t₂ response response',
    State.Reaches program (Sys.start Sample.clients Sample.surroundings) s₁ ∧
    s₁.threads[3]? = some t₁ ∧ t₁.call = .getQuoteById Sample.alice Sample.quoteId.text ∧
    (∀ cached, Event.ext (S := sig) (.redisGet (quoteCacheKey Sample.quoteId.text))
      (.ok (some (.quote cached))) ∉ t₁.log) ∧
    t₁.result? = some (.ok (.quote response)) ∧ response.status = .EXPIRED ∧
    s₁.data.trades = [] ∧ State.Reaches program s₁ s₂ ∧
    s₂.data.trades.map TradeRow.quoteId = [Sample.quoteId] ∧ s₁.threads.length ≤ 4 ∧
    s₂.threads[4]? = some t₂ ∧ t₂.call = .getQuoteById Sample.alice Sample.quoteId.text ∧
    (∀ cached, Event.ext (S := sig) (.redisGet (quoteCacheKey Sample.quoteId.text))
      (.ok (some (.quote cached))) ∉ t₂.log) ∧
    t₂.result? = some (.ok (.quote response')) ∧ response'.status = .EXECUTED :=
  ⟨Sample.after Sample.outrun, Sample.after (Sample.outrun ++ Sample.fills), Sample.thread _ 3,
    Sample.thread _ 4, toQuoteResponse 1700000015000 Sample.quote.load,
    toQuoteResponse 1700000015000 (QuoteRow.load { Sample.quote with status := .EXECUTED }),
    Sample.reached (by decide +kernel), Sample.getElem?_thread (by decide +kernel),
    by decide +kernel, Sample.uncached_of_missed (by decide +kernel) _, by decide +kernel,
    by decide +kernel, by decide +kernel, Sample.after_reached Sample.fills (by decide +kernel),
    by decide +kernel, by decide +kernel, Sample.getElem?_thread (by decide +kernel),
    by decide +kernel, Sample.uncached_of_missed (by decide +kernel) _, by decide +kernel,
    by decide +kernel⟩

end

end MiniOpenFX
