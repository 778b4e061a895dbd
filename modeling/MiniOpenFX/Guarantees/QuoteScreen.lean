import MiniOpenFX.Web.QuotesPage

/-!
# The outcome on the quote screen

A screen is `Honest` when the trade and the status it shows are those of the quote it shows. The
handlers do not look whether the quote they started from is still the one shown, so an event keeps
the screen honest exactly if it is `Current`, and a run is honest throughout exactly if all of its
events are (`honest_throughout_iff`).
-/

namespace MiniOpenFX

open Js

namespace Screen

/-- What is shown of a trade belongs to the quote that is shown. -/
def Honest (s : Screen) : Prop :=
  ∀ q ∈ s.page.quote, (∀ t ∈ s.page.trade, t.quoteId = q.id) ∧
    (s.page.status = .EXECUTED → q.id ∈ s.answered)

/-- The event finds the screen at the quote it is about. A quote that arrives finds no trade of
another one, and is not executed unless its trade has been answered. A trade, or 409, that arrives
while a quote is shown belongs to that quote. -/
def Current (s : Screen) : ScreenEvent → Prop
  | .quoteArrives _ _ (.ok q) => (∀ t ∈ s.page.trade, t.quoteId = q.id) ∧
      (q.status = .EXECUTED → q.id ∈ s.answered)
  | .tradeArrives request (.ok t) => ∀ q ∈ s.page.quote, t.quoteId = q.id ∧
      (q.id = request.quoteId ∨ q.id ∈ s.answered)
  | .tradeArrives request (.error (.apiError status _ _)) => status = 409 →
      ∀ q ∈ s.page.quote, q.id = request.quoteId ∨ q.id ∈ s.answered
  | _ => True

section
variable {s s' : Screen} {e : ScreenEvent}

theorem honest_of_no_quote (h : s.page.quote = none) : s.Honest := by
  intro q hq
  rw [h] at hq
  cases hq

/-- What leaves the quote and the answers alone, shows no other trade and does not execute, keeps
the screen honest. -/
theorem Honest.of_frame (hs : s.Honest) (hquote : s'.page.quote = s.page.quote)
    (htrade : ∀ t ∈ s'.page.trade, t ∈ s.page.trade)
    (hstatus : s'.page.status = .EXECUTED → s.page.status = .EXECUTED)
    (hanswered : s'.answered = s.answered) : s'.Honest := by
  intro q hq
  obtain ⟨h₁, h₂⟩ := hs q (hquote ▸ hq)
  rw [hanswered]
  exact ⟨fun t ht => h₁ t (htrade t ht), fun he => h₂ (hstatus he)⟩

/-- The clock changes the countdown and lets the quote expire; it does not change what is shown of
it otherwise. -/
theorem tick_frame (p : QuotesPage) (now : Int) : (p.tick now).quote = p.quote ∧
    (p.tick now).trade = p.trade ∧ ((p.tick now).status = .EXECUTED → p.status = .EXECUTED) := by
  unfold QuotesPage.tick
  split
  · exact ⟨rfl, rfl, id⟩
  · split
    · exact ⟨rfl, rfl, id⟩
    · refine ⟨rfl, rfl, fun h => ?_⟩
      dsimp only at h
      split at h
      · cases h
      · exact h

/-- A quote that arrives is shown with its own status, and with the trade that is held. Nothing of
the form is looked at. -/
theorem createQuoteThen_frame (p : QuotesPage) (request : CreateQuoteDto) (key : String)
    (q : QuoteResponse) : (p.createQuoteThen request key (.ok q)).quote = some q ∧
      (p.createQuoteThen request key (.ok q)).trade = p.trade ∧
      ((p.createQuoteThen request key (.ok q)).status = .EXECUTED ↔ q.status = .EXECUTED) := by
  have hstatus : (if q.status = QuoteDisplayStatus.EXECUTED then QuoteDisplayStatus.EXECUTED
      else .ACTIVE) = .EXECUTED ↔ q.status = .EXECUTED := by
    split
    · next h => exact iff_of_true rfl h
    · next h => exact iff_of_false (fun he => nomatch he) h
  unfold QuotesPage.createQuoteThen
  cases request.side with
  | BUY => exact ⟨rfl, rfl, hstatus⟩
  | SELL => exact ⟨rfl, rfl, hstatus⟩

/-- A quote that arrives is shown honestly just if it is the one that was asked for last. If the
user has moved on, the page shows it all the same. -/
theorem honest_quoteArrives {request : CreateQuoteDto} {key : String} {q : QuoteResponse}
    (h : s.step (.quoteArrives request key (.ok q)) = some s') :
    s'.Honest ↔ s.Current (.quoteArrives request key (.ok q)) := by
  simp only [step] at h
  split at h
  · cases h
    obtain ⟨hquote, htrade, hstatus⟩ := createQuoteThen_frame s.page request key q
    simp only [Honest, hquote, htrade, hstatus, Option.mem_some_iff, forall_eq', Current]
  · cases h

/-- A trade that arrives is shown, and its quote is answered; if the page shows another quote by
then, the trade is shown on that one. -/
theorem honest_tradeArrives {request : CreateTradeRequest} {t : TradeResponse}
    (h : s.step (.tradeArrives request (.ok t)) = some s') :
    s'.Honest ↔ s.Current (.tradeArrives request (.ok t)) := by
  simp only [step] at h
  split at h
  · cases h
    simp only [Honest, QuotesPage.executeTradeThen, Option.mem_some_iff, forall_eq', settles,
      if_true, List.mem_cons, true_implies, Current]
  · cases h

/-- So is the quote of a 409; no other error settles it. -/
theorem honest_tradeRefused (hs : s.Honest) {request : CreateTradeRequest} {err : ClientError}
    (h : s.step (.tradeArrives request (.error err)) = some s') :
    s'.Honest ↔ s.Current (.tradeArrives request (.error err)) := by
  simp only [step] at h
  split at h
  · cases h
    cases err with
    | error message => exact iff_of_true (hs.of_frame rfl (fun _ => id) id rfl) trivial
    | apiError status code message =>
      by_cases h409 : status = 409
      · subst h409
        simp only [Honest, QuotesPage.executeTradeThen, settles, decide_true, if_true,
          List.mem_cons, true_implies, Current]
        exact ⟨fun h q hq => (h q hq).2, fun h q hq => ⟨(hs q hq).1, h q hq⟩⟩
      · have hsettles : settles (.error (.apiError status code message)) = false := by
          simp [settles, h409]
        refine iff_of_true (hs.of_frame rfl (fun _ => id) ?_ (by simp [hsettles]))
          fun h => absurd h h409
        intro hstatus
        simp only [QuotesPage.executeTradeThen] at hstatus
        split at hstatus
        · cases hstatus
        · next heq => exact absurd (ClientError.apiError.inj heq).1 h409
        · exact hstatus
  · cases h

/-- **One event** keeps the screen honest exactly if it is current. By cases on the event; clicks
always are, and of responses it depends on what was asked last. -/
theorem honest_step_iff (hs : s.Honest) (h : s.step e = some s') :
    s'.Honest ↔ s.Current e := by
  cases e with
  | selectBuyCurrency currency =>
    cases h
    exact iff_of_true (hs.of_frame rfl (fun _ => id) id rfl) trivial
  | selectSellCurrency currency =>
    cases h
    exact iff_of_true (hs.of_frame rfl (fun _ => id) id rfl) trivial
  | typeBuyAmount text =>
    cases h
    exact iff_of_true (hs.of_frame rfl (fun _ => id) id rfl) trivial
  | typeSellAmount text =>
    cases h
    exact iff_of_true (hs.of_frame rfl (fun _ => id) id rfl) trivial
  | swap =>
    cases h
    exact iff_of_true (honest_of_no_quote rfl) trivial
  | getQuote =>
    simp only [step] at h
    split at h
    · cases h
      exact iff_of_true (hs.of_frame rfl (fun _ ht => nomatch ht) id rfl) trivial
    · cases h
  | execute =>
    simp only [step] at h
    split at h
    · cases h
      have hpage : s.page.executeTrade.1.quote = s.page.quote ∧
          s.page.executeTrade.1.trade = s.page.trade ∧
          s.page.executeTrade.1.status = s.page.status := by
        unfold QuotesPage.executeTrade
        split
        · exact ⟨rfl, rfl, rfl⟩
        · exact ⟨rfl, rfl, rfl⟩
      obtain ⟨hquote, htrade, hstatus⟩ := hpage
      exact iff_of_true (hs.of_frame hquote (fun t ht => htrade ▸ ht) (fun he => hstatus ▸ he) rfl)
        trivial
    · cases h
  | newQuote =>
    simp only [step] at h
    split at h
    · cases h
      exact iff_of_true (honest_of_no_quote rfl) trivial
    · cases h
  | tick now =>
    cases h
    obtain ⟨hquote, htrade, hstatus⟩ := tick_frame s.page now
    exact iff_of_true (hs.of_frame hquote (fun t ht => htrade ▸ ht) hstatus rfl) trivial
  | quoteArrives request key outcome =>
    cases outcome with
    | ok q => exact honest_quoteArrives h
    | error err =>
      simp only [step] at h
      split at h
      · cases h
        exact iff_of_true (hs.of_frame rfl (fun _ => id) id rfl) trivial
      · cases h
  | tradeArrives request outcome =>
    cases outcome with
    | ok t => exact honest_tradeArrives h
    | error err => exact honest_tradeRefused hs h

end

/-- **The screen shows the outcome of the quote it shows** throughout a run exactly if every event
of the run is current. -/
theorem honest_throughout_iff {past : List (Screen × ScreenEvent)} {s : Screen} (h : Run past s) :
    ((∀ p ∈ past, p.1.Honest) ∧ s.Honest) ↔ ∀ p ∈ past, p.1.Current p.2 := by
  induction h with
  | start =>
    have hstart : Honest {} := honest_of_no_quote rfl
    exact iff_of_true ⟨fun _ hp => (nomatch hp), hstart⟩ fun _ hp => (nomatch hp)
  | @step past s s' e hrun hstep ih =>
    simp only [List.forall_mem_append, List.forall_mem_singleton]
    constructor
    · rintro ⟨⟨hpast, hs⟩, hs'⟩
      exact ⟨ih.mp ⟨hpast, hs⟩, (honest_step_iff hs hstep).mp hs'⟩
    · rintro ⟨hpast, he⟩
      obtain ⟨hhonest, hs⟩ := ih.mpr hpast
      exact ⟨⟨hhonest, hs⟩, (honest_step_iff hs hstep).mpr he⟩

/-! ## Two runs -/

/-- The states that events lead through, with the events. -/
def trail : Screen → List ScreenEvent → List (Screen × ScreenEvent)
  | _, [] => []
  | s, e :: events => (s, e) :: trail ((s.step e).getD s) events

/-- A run can be continued by the states that the next events lead through. It turns a list of
events that can be executed into a run. -/
theorem Run.trail {past : List (Screen × ScreenEvent)} {s s' : Screen} {events : List ScreenEvent}
    (h : Run past s) (hs : events.foldlM Screen.step s = some s') :
      Run (past ++ s.trail events) s' := by
  induction events generalizing past s with
  | nil =>
    cases hs
    simpa [Screen.trail] using h
  | cons e events ih =>
    rw [List.foldlM_cons] at hs
    obtain ⟨next, hnext, hrest⟩ := Option.bind_eq_some_iff.mp hs
    have := ih (h.step hnext) hrest
    rwa [List.append_assoc, List.singleton_append, show next = (s.step e).getD s by rw [hnext]; rfl]
      at this

namespace Sample

/-- The quote before the swap. -/
def firstQuoteId : Uuid := ⟨"11111111-1111-4111-8111-111111111111", by decide, by decide⟩

/-- The quote after it. -/
def secondQuoteId : Uuid := ⟨"22222222-2222-4222-8222-222222222222", by decide, by decide⟩

/-- What the button "Get quote" asks for at first. -/
def quoteRequest : CreateQuoteDto := ⟨"BTC", "USDT", .BUY, "0.01"⟩

/-- A quote of the given pair, as the API answers with it. -/
def quoteResponse (id : Uuid) : QuoteResponse :=
  ⟨id, "BTCUSDT", .BUY, "BTC", "USDT", "0.01", "50000", "500", .ACTIVE,
    "2023-11-14T22:13:35.000Z", "2023-11-14T22:13:20.000Z"⟩

/-- The trade that executes a quote of that pair. -/
def tradeResponse : TradeResponse :=
  ⟨firstQuoteId, firstQuoteId, "BTCUSDT", .BUY, "BTC", "USDT", "0.01", "500", "50000", .FILLED,
    "2023-11-14T22:13:21.000Z"⟩

/-- The first quote is executed, and its trade arrives. -/
def settled : List ScreenEvent :=
  [.getQuote, .quoteArrives quoteRequest "one" (.ok (quoteResponse firstQuoteId)), .execute,
    .tradeArrives ⟨firstQuoteId, "one"⟩ (.ok tradeResponse)]

/-- The user asks for a new quote before the trade of the first arrives. -/
def overtaken : List ScreenEvent :=
  [.getQuote, .quoteArrives quoteRequest "one" (.ok (quoteResponse firstQuoteId)), .execute,
    .newQuote, .getQuote, .quoteArrives quoteRequest "two" (.ok (quoteResponse secondQuoteId)),
    .tradeArrives ⟨firstQuoteId, "one"⟩ (.ok tradeResponse)]

/-- The screen after some events. -/
def screenAfter (events : List ScreenEvent) : Screen := (events.foldlM Screen.step {}).getD {}

theorem run_settled : Screen.Run (Screen.trail {} settled) (screenAfter settled) := by
  have hevents : settled.foldlM Screen.step {} = some (screenAfter settled) := by decide +kernel
  have := Screen.Run.start.trail hevents
  rwa [List.nil_append] at this

theorem run_overtaken : Screen.Run (Screen.trail {} overtaken) (screenAfter overtaken) := by
  have hevents : overtaken.foldlM Screen.step {} = some (screenAfter overtaken) := by decide +kernel
  have := Screen.Run.start.trail hevents
  rwa [List.nil_append] at this

end Sample

/-- The run in which the trade arrives in time. -/
theorem honest_throughout_iff_settled :
    ((∀ p ∈ trail {} Sample.settled, p.1.Honest) ∧ (Sample.screenAfter Sample.settled).Honest) ↔
      ∀ p ∈ trail {} Sample.settled, p.1.Current p.2 :=
  honest_throughout_iff Sample.run_settled

/-- The run in which it is overtaken: the trade of the first quote is shown on the second. -/
theorem dishonest_overtaken :
    Run (trail {} Sample.overtaken) (Sample.screenAfter Sample.overtaken) ∧
    (Sample.screenAfter Sample.overtaken).page.quote =
      some (Sample.quoteResponse Sample.secondQuoteId) ∧
    (Sample.screenAfter Sample.overtaken).page.trade = some Sample.tradeResponse ∧
    Sample.tradeResponse.quoteId ≠ (Sample.quoteResponse Sample.secondQuoteId).id ∧
    (Sample.screenAfter Sample.overtaken).page.status = .EXECUTED ∧
    Sample.secondQuoteId ∉ (Sample.screenAfter Sample.overtaken).answered ∧
    ¬ (∀ past s, Run past s → s.Honest) := by
  have hquote : (Sample.screenAfter Sample.overtaken).page.quote =
      some (Sample.quoteResponse Sample.secondQuoteId) := by decide +kernel
  have hstatus : (Sample.screenAfter Sample.overtaken).page.status = .EXECUTED := by decide +kernel
  have hanswered : Sample.secondQuoteId ∉ (Sample.screenAfter Sample.overtaken).answered := by
    decide +kernel
  refine ⟨Sample.run_overtaken, hquote, by decide +kernel, by decide +kernel, hstatus, hanswered,
    fun h => ?_⟩
  exact hanswered ((h _ _ Sample.run_overtaken _ hquote).2 hstatus)

end Screen

end MiniOpenFX
