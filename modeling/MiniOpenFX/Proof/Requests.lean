import MiniOpenFX.Proof.Transactions
import MiniOpenFX.System

/-!
# The requests

Each call of the system, verified by `Prog.Wp` against `obligations`. The programs around a
transaction or a read of a quote end in one of a few ways, listed once for each (`LoadQuote`,
`CreateQuote`, `ExecuteTrade`); pricing does nothing others could notice (`Unobtrusive`).
`verified` puts the calls together.
-/

namespace MiniOpenFX

open Js Transactional

/-! ## Histories -/

section
variable {ℓ : History}

/-- A history in which no quote was stored in the cache is so after an event that does not store
one. -/
theorem History.Quiet.concat {ev : Event sig JsError} (h : ℓ.Quiet)
    (hev : ∀ key cached ttlMs r, ev ≠ .ext (.redisSet key (.quote cached) ttlMs) r) :
    History.Quiet (ℓ ++ [ev]) := by
  intro key cached ttlMs r hm
  rcases List.mem_append.mp hm with hm | hm
  · exact h key cached ttlMs r hm
  · exact hev key cached ttlMs r (List.mem_singleton.mp hm).symm

/-- A statement is no command to the cache, so a quiet history stays quiet. -/
theorem History.Quiet.sql (h : ℓ.Quiet) {s : Stmt} {r : Except JsError (StmtRes s)} :
    History.Quiet (ℓ ++ [.sql s r]) :=
  h.concat fun _ _ _ _ he => by cases he

/-- A plain request is no command to the cache either. -/
theorem Plain.quiet {x : Ext} (hx : Plain x) {r : Except JsError (ExtRes x)} (h : ℓ.Quiet) :
    History.Quiet (ℓ ++ [.ext x r]) := by
  refine h.concat fun key cached ttlMs r he => ?_
  cases he
  exact hx

/-- A plain request may be made at any time: there are obligations only for the requests that
change the cache. -/
theorem Plain.requests {x : Ext} (hx : Plain x) (db : Database) (ℓ : History) :
    Requests db ℓ x := by
  unfold Requests
  split
  · exact hx.elim
  · exact hx.elim
  · exact hx

end

variable [DecimalJs] {R : Rely backend} {α β : Type} {p : Seen backend} {ℓ : History}

/-- What the requests ask of a rely: plain requests to the surroundings are allowed, and the data
move by effects only. Each verification of a call is made once for any such rely, and used for the
rely of the whole system, of a call with nobody else at work, and of the calls after a trade. -/
structure Tolerant (R : Rely backend) : Prop where
  plain : ∀ x χ e, Plain x → R.env e (answer x χ e).2
  later : ∀ {d d'}, R.data d d' → Database.Later d d'

/-- What the system relies on is tolerant: plain requests leave the clock as it is, and data move
by effects. -/
theorem rely_tolerant : Tolerant rely :=
  ⟨fun x χ e _ => le_of_eq (congrArg Timestamp.micros (answer_now x χ e)).symm, id⟩

/-! ## One act outside a transaction and what follows it -/

/-- The rules of this section are those of `Prog.Wp` at the system's own statements and requests,
in the form in which the calls use them. Here, a program that has ended with a value. -/
theorem wp_ok {a : α} {m : Mode backend} {Q : Mode backend → History → Except JsError α → Prop}
    (h : Q m ℓ (.ok a)) : (Prog.done (.ok a) : App α).Wp isolation R obligations Q m ℓ :=
  Prog.wp_done.mpr h

/-- A program that throws at once meets what holds of the error. -/
theorem wp_fail {e : JsError} {m : Mode backend}
    {Q : Mode backend → History → Except JsError α → Prop} (h : Q m ℓ (.error e)) :
    (Prog.fail e : App α).Wp isolation R obligations Q m ℓ :=
  Prog.wp_done.mpr h

/-- A statement outside a transaction: it runs on the data as they are when it is executed, sees
nothing else, and fails by an error of Postgres or of the connection. -/
theorem wp_query {s : Stmt} {f : StmtRes s → App α}
    {Q : Mode backend → History → Except JsError α → Prop} (halone : Alone s)
    (hok : ∀ q, R.Later p q → ∀ r ws, exec q.env.now q.data s = .ok (r, ws) →
      (f r).Wp isolation R obligations Q (.outside ⟨q.data.after ws, q.env⟩)
        (ℓ ++ [.sql s (.ok r)]))
    (herr : ∀ q, R.Later p q → ∀ e, R.Errs s q.env.now q.data e →
      Q (.outside q) (ℓ ++ [.sql s (.error e)]) (.error e)) :
    ((App.query s).bind f).Wp isolation R obligations Q (.outside p) ℓ :=
  Prog.wp_bind.mpr (Prog.wp_query_outside (fun _ _ => halone)
    (fun q hq _ r ws hx => hok q hq r ws hx) herr)

/-- A plain request whose answer leaves the surroundings alone, such as drawing an id or reading a
setting: the program goes on with the answer, or ends with a lost connection. -/
theorem wp_request {x : Ext} {f : ExtRes x → App α}
    {Q : Mode backend → History → Except JsError α → Prop} {a : Choice → Surroundings → ExtRes x}
    (hx : Plain x) (hanswer : ∀ χ e, answer x χ e = (.ok (a χ e), e))
    (hok : ∀ q χ, R.Later p q →
      (f (a χ q.env)).Wp isolation R obligations Q (.outside q) (ℓ ++ [.ext x (.ok (a χ q.env))]))
    (herr : ∀ q, R.Later p q → R.fails (.ext x) →
      Q (.outside q) (ℓ ++ [.ext x (.error .connectionError)]) (.error .connectionError)) :
    ((App.request x).bind f).Wp isolation R obligations Q (.outside p) ℓ := by
  refine Prog.wp_bind.mpr (Prog.wp_request_outside (fun q _ => hx.requests q.data ℓ)
    (fun q hq χ => ?_) fun hf q hq => herr q hq hf)
  change Prog.Then _ _ _ _ _ (.outside ⟨q.data, (answer x χ q.env).2⟩)
    (ℓ ++ [.ext x (answer x χ q.env).1]) (answer x χ q.env).1
  rw [hanswer]
  exact hok q χ hq

/-- The clock is read: it shows the time at the moment of the act, and the reading ends the program
if it fails. -/
theorem wp_dateNow {f : Int → App α} {Q : Mode backend → History → Except JsError α → Prop}
    (hok : ∀ q, R.Later p q → (f q.env.dateNow).Wp isolation R obligations Q (.outside q)
      (ℓ ++ [.ext .dateNow (.ok q.env.dateNow)]))
    (herr : ∀ q ℓ, R.Later p q → R.fails (.ext .dateNow) →
      Q (.outside q) ℓ (.error .connectionError)) :
    (App.dateNow.bind f).Wp isolation R obligations Q (.outside p) ℓ :=
  wp_request (x := .dateNow) (a := fun _ e => e.dateNow) trivial (fun _ _ => rfl)
    (fun q _ hq => hok q hq) fun q hq hf => herr q _ hq hf

/-! ## Redis -/

/-- A command of Redis that fails is answered with the fallback, so that what follows it only has
to be right for the two values it may be given; `failSoft` never throws. -/
theorem failSoft_wp {command : App α} {fallback : α} {m : Mode backend}
    {Q : Mode backend → History → Except JsError α → Prop}
    (h : command.Wp isolation R obligations
      (fun m ℓ r => Q m ℓ (.ok (r.toOption.getD fallback))) m ℓ) :
    (RedisService.failSoft command fallback).Wp isolation R obligations Q m ℓ := by
  unfold RedisService.failSoft
  refine Prog.wp_bind.mpr (Prog.wp_attempt.mpr (h.mono fun m ℓ r hr => ?_))
  cases r <;> simp only [Prog.Then, Prog.pure_eq, Prog.wp_done] <;> exact hr

/-- What `setJson` leaves, wherever it starts from: the entry, or nothing. It may have been delayed
before it stores the entry (`p'`), and Redis may have failed to store it. -/
def Stored (R : Rely backend) (key : String) (value : CacheValue) (p q : Seen backend) : Prop :=
  ∃ p', R.Later p p' ∧
    (q = p' ∨ ∃ expiresAt, q = ⟨p'.data, p'.env.put key (some ⟨value, expiresAt⟩)⟩)

/-- A value is stored in the cache or, where Redis fails, not, and the program goes on in either
case. What is stored has to be allowed under the key. -/
theorem wp_setJson {key : String} {value : CacheValue} {ttlMs : Int} {f : Unit → App α}
    {Q : Mode backend → History → Except JsError α → Prop}
    (hrequest : ∀ q, R.Later p q → Requests q.data ℓ (.redisSet key value ttlMs))
    (h : ∀ q ev, Stored R key value p q →
      (f ()).Wp isolation R obligations Q (.outside q) (ℓ ++ [ev])) :
    ((RedisService.setJson key value ttlMs).bind f).Wp isolation R obligations Q
      (.outside p) ℓ := by
  refine Prog.wp_bind.mpr (failSoft_wp (Prog.wp_request_outside hrequest (fun q hq χ => ?_)
    fun _ q hq => h q _ ⟨q, hq, .inl rfl⟩))
  change Prog.Wp isolation R obligations Q
    (.outside ⟨q.data, (answer (.redisSet key value ttlMs) χ q.env).2⟩) _ (f ())
  by_cases httl : ttlMs ≤ 0
  · simp only [answer, if_pos httl]
    exact h q _ ⟨q, hq, .inl rfl⟩
  · simp only [answer, if_neg httl]
    exact h _ _ ⟨q, hq, .inr ⟨_, rfl⟩⟩

/-- What `getJson` returns is what is under the key, or nothing where Redis fails. Others may have
moved the cache before the command is answered. -/
theorem getJson_wp {key : String}
    {Q : Mode backend → History → Except JsError (Option CacheValue) → Prop}
    (h : ∀ q r, R.Later p q → (r = .ok (q.env.get key) ∨ r = .error .connectionError) →
      Q (.outside q) (ℓ ++ [.ext (.redisGet key) r]) (.ok (r.toOption.getD none))) :
    (RedisService.getJson key).Wp isolation R obligations Q (.outside p) ℓ :=
  failSoft_wp (Prog.wp_request_outside (fun _ _ => trivial) (fun q hq _ => h q _ hq (.inl rfl))
    fun _ q hq => h q _ hq (.inr rfl))

/-! ## Prices -/

/-- A program that nobody notices: it does nothing but plain requests, so that whatever the rely
says of data and surroundings goes on through it. -/
def Unobtrusive (R : Rely backend) (x : App α) : Prop :=
  ∀ (p : Seen backend) (ℓ : History), R.inv p.data → R.envInv p.env → x.Wp isolation R obligations
    (fun m ℓ' _ => ∃ q, m = .outside q ∧ R.Later p q ∧ (ℓ.Quiet → History.Quiet ℓ'))
    (.outside p) ℓ

namespace Unobtrusive

/-- A program that has ended has no acts that others could notice. -/
theorem done (r : Except JsError α) : Unobtrusive R (Prog.done r : App α) :=
  fun p _ hp he => Prog.wp_done.mpr ⟨p, rfl, .refl hp he, id⟩

theorem bind {x : App α} {f : α → App β} (hx : Unobtrusive R x) (hf : ∀ a, Unobtrusive R (f a)) :
    Unobtrusive R (x.bind f) := by
  refine fun p ℓ hp he => Prog.wp_bind.mpr ((hx p ℓ hp he).mono ?_)
  rintro m ℓ' r ⟨q, rfl, hq, hℓ⟩
  cases r with
  | error e => exact ⟨q, rfl, hq, hℓ⟩
  | ok a =>
    refine (hf a q ℓ' hq.inv hq.envInv).mono ?_
    rintro m ℓ'' r ⟨q', rfl, hq', hℓ'⟩
    exact ⟨q', rfl, hq.trans hq', fun h => hℓ' (hℓ h)⟩

/-- Catching the error of an unobtrusive program leaves it unobtrusive. -/
theorem attempt {x : App α} (hx : Unobtrusive R x) : Unobtrusive R x.attempt :=
  fun p ℓ hp he => Prog.wp_attempt.mpr (hx p ℓ hp he)

/-- An unobtrusive command of Redis is so with its fallback. -/
theorem failSoft {x : App α} {fallback : α} (hx : Unobtrusive R x) :
    Unobtrusive R (RedisService.failSoft x fallback) :=
  fun p ℓ hp he => failSoft_wp (hx p ℓ hp he)

/-- A plain request is unobtrusive where the rely tolerates those. -/
theorem request (hR : Tolerant R) {x : Ext} (hx : Plain x) : Unobtrusive R (App.request x) := by
  refine fun p ℓ hp he => Prog.wp_request_outside (fun q _ => hx.requests q.data ℓ)
    (fun q hq χ => ?_) fun _ q hq => ⟨q, rfl, hq, hx.quiet⟩
  have henv := hR.plain x χ q.env hx
  exact ⟨_, rfl, hq.trans ⟨R.data_refl _, henv, hq.inv, R.env_inv henv hq.envInv⟩, hx.quiet⟩

end Unobtrusive

/-- A request to Binance is one plain request; reading its answer is no act. -/
theorem binance_request_unobtrusive (hR : Tolerant R) (endpoint symbol : String)
    (validShape? : Json → Option α) :
    Unobtrusive R (BinanceClient.request endpoint symbol validShape?) := by
  unfold BinanceClient.request
  refine .bind (.attempt (.request hR trivial)) fun r => ?_
  split
  · split
    · exact .done _
    · split
      · exact .done _
      · split
        · exact .done _
        · split <;> exact .done _
  all_goals exact .done _

/-- Renaming errors is not noticed by anybody. -/
theorem mapBinanceErrors_unobtrusive {x : App α} (hx : Unobtrusive R x) :
    Unobtrusive R (PricingService.mapBinanceErrors x) := by
  unfold PricingService.mapBinanceErrors
  refine .bind (.attempt hx) fun r => ?_
  split <;> exact .done _

/-- `getPrice` changes nothing that a rely speaks of: it stores prices only, under keys that are no
quote's. -/
theorem getPrice_unobtrusive (hR : Tolerant R) (symbol : String) :
    Unobtrusive R (PricingService.getPrice symbol) := by
  unfold PricingService.getPrice
  refine .bind (.failSoft (.request hR trivial)) fun cached => ?_
  split
  · exact .done _
  · refine .bind (mapBinanceErrors_unobtrusive ?_) fun price => ?_
    · refine .bind (binance_request_unobtrusive hR _ _ _) fun ticker => ?_
      exact .bind (.request hR trivial) fun now => .done _
    · refine .bind (.request hR trivial) fun ttlMs => ?_
      exact .bind (.failSoft (.request hR ⟨_, rfl⟩)) fun _ => .done _

/-- `getSymbolBreakdown` changes nothing that a rely speaks of: it stores splits only. -/
theorem getSymbolBreakdown_unobtrusive (hR : Tolerant R) (symbol : String) :
    Unobtrusive R (PricingService.getSymbolBreakdown symbol) := by
  unfold PricingService.getSymbolBreakdown
  refine .bind (.failSoft (.request hR trivial)) fun cached => ?_
  split
  · exact .done _
  · refine .bind (mapBinanceErrors_unobtrusive ?_) fun breakdown => ?_
    · refine .bind (.bind (binance_request_unobtrusive hR _ _ _) fun infos => ?_) fun _ => .done _
      split <;> exact .done _
    · exact .bind (.failSoft (.request hR ⟨_, rfl⟩)) fun _ => .done _

/-- Two unobtrusive programs are so together, in whichever order they fail. -/
theorem promiseAll_unobtrusive (hR : Tolerant R) {x : App α} {y : App β} (hx : Unobtrusive R x)
    (hy : Unobtrusive R y) : Unobtrusive R (App.promiseAll x y) := by
  unfold App.promiseAll
  refine .bind (.attempt hx) fun a => .bind (.attempt hy) fun b => ?_
  split
  · exact .done _
  · exact .done _
  · exact .done _
  · refine .bind (.request hR trivial) fun first => ?_
    split <;> exact .done _

/-! ## Quotes -/

/-- How a read of a quote's row ends: with what the cache has under the id, with the row Postgres
has, which goes to the cache, or with an error. A row from Postgres is read at `q` and put in the
cache later, which is where a trade can come between. -/
inductive LoadQuote (R : Rely backend) (id : String) (p : Seen backend) :
    Seen backend → History → Except JsError (Option (QuoteRow Date)) → Prop where
  | hit {q ℓ cached} (now : R.Later p q)
      (got : q.env.get (quoteCacheKey id) = some (.quote cached))
      (event : .ext (.redisGet (quoteCacheKey id)) (.ok (some (.quote cached))) ∈ ℓ) :
      LoadQuote R id p q ℓ ((deserializeQuote cached).map some)
  | read {q q' ℓ u row} (now : R.Later p q) (spelled : Uuid.ofText? id = some u)
      (found : q.data.quote? u = some row)
      (stored : Stored R (quoteCacheKey id) (.quote (serializeQuote row.load)) q q')
      (event : .sql (.selectQuote id) (.ok (some row.load)) ∈ ℓ) :
      LoadQuote R id p q' ℓ (.ok (some row.load))
  | absent {q ℓ u} (now : R.Later p q) (spelled : Uuid.ofText? id = some u)
      (missing : q.data.quote? u = none)
      (event : .sql (.selectQuote id) (.ok none) ∈ ℓ) : LoadQuote R id p q ℓ (.ok none)
  | failed {q ℓ e} (now : R.Later p q) (errs : R.Errs (.selectQuote id) q.env.now q.data e)
      (event : .sql (.selectQuote id) (.error e) ∈ ℓ) : LoadQuote R id p q ℓ (.error e)
  | lost {q ℓ} (now : R.Later p q) (fails : R.fails (.ext .dateNow)) :
      LoadQuote R id p q ℓ (.error .connectionError)

omit [DecimalJs] in
/-- What a program has loaded it has loaded still after further acts. -/
theorem Loaded.of_prefix {id : String} {ℓ ℓ' : History} {row : Option (QuoteRow Date)}
    (h : Loaded id ℓ row) (hℓ : ℓ <+: ℓ') : Loaded id ℓ' row := by
  cases h with
  | cached got decoded => exact .cached (hℓ.subset got) decoded
  | read got => exact .read (hℓ.subset got)

omit [DecimalJs] in
/-- The row that `loadQuote` returns was loaded by it, from the cache or from Postgres. The history
has the event that brought it. -/
theorem LoadQuote.loaded {id : String} {q : Seen backend} {row : Option (QuoteRow Date)}
    (h : LoadQuote R id p q ℓ (.ok row)) : Loaded id ℓ row := by
  generalize hr : Except.ok row = r at h
  cases h with
  | @hit _ _ cached _ _ event =>
    cases hd : deserializeQuote cached with
    | error e => rw [hd] at hr; cases hr
    | ok d => rw [hd] at hr; cases hr; exact .cached event hd
  | read _ _ _ _ event => cases hr; exact .read event
  | absent _ _ _ event => cases hr; exact .read event
  | failed | lost => cases hr

/-- `loadQuote` ends in one of the ways of `LoadQuote`: with a copy from the cache, with the row
from Postgres, which it then puts in the cache, or with an error. -/
theorem loadQuote_wp {id : String} (hℓ : ℓ.Quiet) :
    (QuotingService.loadQuote id).Wp isolation R obligations
      (fun m ℓ r => ∃ q, m = .outside q ∧ LoadQuote R id p q ℓ r) (.outside p) ℓ := by
  unfold QuotingService.loadQuote
  refine Prog.wp_bind.mpr (getJson_wp fun q r hq hr => ?_)
  simp only [Prog.Then]
  split
  · next cached hget =>
    obtain rfl : r = .ok (some (.quote cached)) := by
      rcases hr with rfl | rfl
      · exact congrArg Except.ok hget
      · cases hget
    have hgot := Except.ok.inj (hr.resolve_right (by simp))
    have hit := LoadQuote.hit (R := R) hq hgot.symm (List.mem_concat_self : _ ∈ ℓ ++ [_])
    cases hd : deserializeQuote cached with
    | error e => rw [hd] at hit; exact Prog.wp_done.mpr ⟨q, rfl, hit⟩
    | ok row => rw [hd] at hit; exact Prog.wp_done.mpr ⟨q, rfl, hit⟩
  · have hℓ := (show Plain (.redisGet (quoteCacheKey id)) from trivial).quiet (r := r) hℓ
    refine wp_query trivial (fun q' hq' row ws hx => ?_) fun q' hq' e he => ⟨q', rfl,
      .failed (hq.trans hq') he List.mem_concat_self⟩
    obtain ⟨u, hu, rfl, rfl⟩ := exec_selectQuote.mp hx
    have hlast : Event.sql (S := sig) (.selectQuote id)
      (.ok ((q'.data.quote? u).map QuoteRow.load)) ∈
        ℓ ++ [.ext (.redisGet (quoteCacheKey id)) r] ++ [.sql (.selectQuote id) (.ok _)] :=
      List.mem_concat_self
    cases hrow : q'.data.quote? u with
    | none =>
      rw [hrow] at hlast
      exact wp_ok ⟨q', rfl, .absent (hq.trans hq') hu hrow hlast⟩
    | some row =>
      rw [hrow] at hlast
      refine wp_dateNow (fun q₂ hq₂ => ?_) fun q₂ _ hq₂ hf =>
        ⟨q₂, rfl, .lost ((hq.trans hq').trans hq₂) hf⟩
      split
      · refine wp_setJson (fun q₃ _ => ?_) fun q₃ ev hq₃ => ?_
        · refine ⟨id, row.load, rfl,
            (Option.mem_def.mp hu).trans (congrArg some (quote?_id hrow).symm),
            ⟨.inl ⟨id, List.mem_append_left _ hlast⟩, ?_⟩, rfl⟩
          exact (show Plain .dateNow from trivial).quiet hℓ.sql
        · obtain ⟨q₄, hq₄, hq₃⟩ := hq₃
          exact wp_ok ⟨q₃, rfl, .read (hq.trans hq') hu hrow ⟨q₄, hq₂.trans hq₄, hq₃⟩
            (List.mem_append_left _ (List.mem_append_left _ hlast))⟩
      · exact wp_ok ⟨q₂, rfl, .read (hq.trans hq') hu hrow ⟨q₂, hq₂, .inl rfl⟩
          (List.mem_append_left _ hlast)⟩

/-- How `getQuoteById` ends: as `loadQuote` does, with the error that the quote is not the
client's, with the quote as it is shown at a later time, or with a lost connection. -/
inductive GetQuoteById (R : Rely backend) (clientId : Uuid) (id : String) (p : Seen backend) :
    Seen backend → History → Except JsError QuoteResponse → Prop where
  | unloaded {q ℓ e} (load : LoadQuote R id p q ℓ (.error e)) :
      GetQuoteById R clientId id p q ℓ (.error e)
  | foreign {q ℓ row e} (load : LoadQuote R id p q ℓ (.ok row))
      (owned : assertOwnedByClient QuoteRow.clientId row clientId s!"Quote \"{id}\" not found" =
        .error e) : GetQuoteById R clientId id p q ℓ (.error e)
  | response {q q' ℓ ℓ' found row} (load : LoadQuote R id p q ℓ (.ok found))
      (owned : assertOwnedByClient QuoteRow.clientId found clientId s!"Quote \"{id}\" not found" =
        .ok row) (later : R.Later q q') (log : ℓ <+: ℓ') :
      GetQuoteById R clientId id p q' ℓ' (.ok (toQuoteResponse q'.env.dateNow row))
  | lost {q ℓ} (fails : R.fails (.ext .dateNow)) :
      GetQuoteById R clientId id p q ℓ (.error .connectionError)

/-- `getQuoteById` ends as `loadQuote` does, with the quote refused to all but its client and shown
at the time of the clock. -/
theorem getQuoteById_wp {clientId : Uuid} {id : String} (hℓ : ℓ.Quiet) :
    (QuotingService.getQuoteById clientId id).Wp isolation R obligations
      (fun m ℓ r => ∃ q, m = .outside q ∧ GetQuoteById R clientId id p q ℓ r) (.outside p) ℓ := by
  unfold QuotingService.getQuoteById
  refine Prog.wp_bind.mpr ((loadQuote_wp hℓ).mono ?_)
  rintro m ℓ r ⟨q, rfl, load⟩
  cases r with
  | error e => exact ⟨q, rfl, .unloaded load⟩
  | ok row =>
    cases howned : assertOwnedByClient QuoteRow.clientId row clientId
        s!"Quote \"{id}\" not found" with
    | error e =>
      simp only [Prog.Then, howned, App.ofExcept]
      exact wp_fail ⟨q, rfl, .foreign load howned⟩
    | ok row =>
      simp only [Prog.Then, howned, App.ofExcept]
      refine wp_dateNow (fun q' hq' => ?_) fun q' _ _ hf => ⟨q', rfl, .lost hf⟩
      exact wp_ok ⟨q', rfl, .response load howned hq' (List.prefix_append ℓ _)⟩

/-- How `createQuote` ends: with an error and no quote, or with a new quote, which is stored in
Postgres first and then in the cache. -/
inductive CreateQuote (R : Rely backend) (p : Seen backend) : Seen backend → Prop where
  | rejected {q} (now : R.Later p q) : CreateQuote R p q
  | created {q q' q'' row} (now : R.Later p q) (allowed : (Effect.quote row).Allowed q.data)
      (stored : Stored R (quoteCacheKey row.id.text) (.quote (serializeQuote row.load))
        ⟨(Effect.quote row).apply q.data, q.env⟩ q') (later : R.Later q' q'') :
      CreateQuote R p q''

/-- How `createQuote` ends as seen from a later moment is how it ends as seen from an earlier one.
-/
theorem CreateQuote.of_later {p' q : Seen backend} (h : CreateQuote R p' q) (hp : R.Later p p') :
    CreateQuote R p q := by
  cases h with
  | rejected now => exact .rejected (hp.trans now)
  | created now allowed stored later => exact .created (hp.trans now) allowed stored later

/-- The last part of `createQuote`: the row is inserted, under an id that is new, and a copy of it
is put in the cache for as long as it can be used. -/
theorem insertQuote_wp {v : QuoteValues} {ttlMs : Int} (halone : Alone (.insertQuote v))
    (hℓ : ℓ.Quiet) :
    ((App.query (.insertQuote v)).bind fun row =>
      (RedisService.setJson (quoteCacheKey row.id.text) (.quote (serializeQuote row)) ttlMs).bind
        fun _ => App.dateNow.bind fun now => .done (.ok (toQuoteResponse now row))).Wp
      isolation R obligations (fun m _ _ => ∃ q, m = .outside q ∧ CreateQuote R p q)
      (.outside p) ℓ := by
  refine wp_query halone (fun q hq row ws hx => ?_) fun q hq e _ => ⟨q, rfl, .rejected hq⟩
  obtain ⟨-, t, -, -, -, hfresh, -, rfl, rfl⟩ := exec_insertQuote.mp hx
  have allowed : (Effect.quote (v.row t q.env.now)).Allowed q.data := ⟨hfresh, halone⟩
  refine wp_setJson (fun q' _ => ⟨_, _, rfl, Uuid.ofText?_text _, ⟨.inr ⟨v, List.mem_concat_self⟩,
    hℓ.sql⟩, rfl⟩) fun q' _ stored => ?_
  exact wp_dateNow (fun q'' later => wp_ok ⟨q'', rfl, .created hq allowed stored later⟩)
    fun q'' _ later _ => ⟨q'', rfl, .created hq allowed stored later⟩

/-- `createQuote` ends with an error and no quote, or with a new quote, which is in the cache then
unless storing it there has failed. -/
theorem createQuote_wp (hR : Tolerant R) {clientId : Uuid} {dto : CreateQuoteDto} (hℓ : ℓ.Quiet)
    (hp : R.inv p.data) (he : R.envInv p.env) :
    (QuotingService.createQuote clientId dto).Wp isolation R obligations
      (fun m _ _ => ∃ q, m = .outside q ∧ CreateQuote R p q) (.outside p) ℓ := by
  unfold QuotingService.createQuote
  cases toMinorUnits (.text dto.baseAmount) with
  | error e => exact wp_fail ⟨p, rfl, .rejected (.refl hp he)⟩
  | ok baseAmountMinor =>
    simp only [Prog.bind_eq, Prog.pure_eq, Prog.bind_ok]
    split
    · exact wp_fail ⟨p, rfl, .rejected (.refl hp he)⟩
    next hbase =>
    refine Prog.wp_bind.mpr ((promiseAll_unobtrusive hR (getSymbolBreakdown_unobtrusive hR _)
      (getPrice_unobtrusive hR _) p ℓ hp he).mono ?_)
    rintro m ℓ r ⟨q, rfl, hq, hquiet⟩
    have hℓ := hquiet hℓ
    cases r with
    | error e => exact ⟨q, rfl, .rejected hq⟩
    | ok priced =>
      obtain ⟨breakdown, indicativePrice⟩ := priced
      simp only [Prog.Then]
      cases computeQuoteAmount dto.side baseAmountMinor indicativePrice.ask indicativePrice.bid with
      | error e => exact wp_fail ⟨q, rfl, .rejected hq⟩
      | ok amount =>
        simp only [App.ofExcept, Prog.bind_ok]
        split
        · exact wp_fail ⟨q, rfl, .rejected hq⟩
        next hquote =>
        refine wp_dateNow (fun q₁ hq₁ => ?_) fun q₁ _ hq₁ _ => ⟨q₁, rfl, .rejected (hq.trans hq₁)⟩
        have hq := hq.trans hq₁
        split
        · exact wp_fail ⟨q₁, rfl, .rejected hq⟩
        next expiresAt _ =>
        refine wp_request (x := .genRandomUuid) (a := fun χ _ => χ.uuid) trivial (fun _ _ => rfl)
          (fun q₂ χ hq₂ => ?_) fun q₂ hq₂ _ => ⟨q₂, rfl, .rejected (hq.trans hq₂)⟩
        have hq := hq.trans hq₂
        refine (insertQuote_wp ⟨rfl, Int.not_le.mp hbase, Int.not_le.mp hquote⟩ ?_).mono ?_
        · exact (show Plain .genRandomUuid from trivial).quiet
            ((show Plain .dateNow from trivial).quiet hℓ)
        · rintro m ℓ r ⟨q₃, rfl, h⟩
          exact ⟨q₃, rfl, h.of_later hq⟩

/-! ## Trades -/

/-- How `executeTrade` ends, by what the lookup of the key returned: with the trade the key has
made before, with the trade of the quote, or with an error. In the second case its last act is the
deletion of the quote's key from the cache. -/
inductive ExecuteTrade (R : Rely backend) (clientId : Uuid) (quoteId key : String)
    (p : Seen backend) : Except JsError (Option (TradeRow Date)) → Seen backend → History →
    Except JsError TradeResult → Prop where
  | lookupFailed {q ℓ e} (now : R.Later p q)
      (errs : R.Errs (.selectTradeByKey clientId key) q.env.now q.data e) :
      ExecuteTrade R clientId quoteId key p (.error e) q ℓ (.error e)
  | replay {q ℓ row} (now : R.Later p q) (found : q.data.tradeByKey? clientId key = some row) :
      ExecuteTrade R clientId quoteId key p (.ok (some row.load)) q ℓ
        (TradingService.replayOrConflict row.load quoteId)
  | filled {q e q' q'' ℓ quote tradeId} (now : R.Later p q)
      (allowed : (Effect.trade quote tradeId key q.env.now).Allowed q.data)
      (spelled : Uuid.ofText? quoteId = some quote.id) (owned : quote.clientId = clientId)
      (env : R.EnvLater q.env e)
      (later : R.Later ⟨(Effect.trade quote tradeId key q.env.now).apply q.data, e⟩ q')
      (deleted : q'' = ⟨q'.data, q'.env.put (quoteCacheKey quoteId) none⟩ ∨
        q'' = q' ∧ R.fails (.ext (.redisDel (quoteCacheKey quoteId))))
      (last : ∃ r, ℓ.getLast? = some (.ext (.redisDel (quoteCacheKey quoteId)) r)) :
      ExecuteTrade R clientId quoteId key p (.ok none) q'' ℓ
        (.ok ⟨toTradeResponse (quote.trade tradeId key q.env.now).load, false⟩)
  | failed {q ℓ e} (now : R.Later p q) :
      ExecuteTrade R clientId quoteId key p (.ok none) q ℓ (.error e)

/-- A key is deleted from the cache or, where Redis fails, not, and the program goes on in either
case. -/
theorem wp_del {key : String} {f : Unit → App α}
    {Q : Mode backend → History → Except JsError α → Prop}
    (hrequest : ∀ q, R.Later p q → Requests q.data ℓ (.redisDel key))
    (h : ∀ q q' r, R.Later p q → (q' = ⟨q.data, q.env.put key none⟩ ∨
        q' = q ∧ R.fails (.ext (.redisDel key))) →
      (f ()).Wp isolation R obligations Q (.outside q') (ℓ ++ [.ext (.redisDel key) r])) :
    ((RedisService.del key).bind f).Wp isolation R obligations Q (.outside p) ℓ :=
  Prog.wp_bind.mpr (failSoft_wp (Prog.wp_request_outside hrequest
    (fun q hq _ => h q _ _ hq (.inl rfl)) fun hf q hq => h q _ _ hq (.inr ⟨rfl, hf⟩)))

/-- `executeTrade` looks the key up first, and then ends in one of the ways of `ExecuteTrade`: by a
replay or a conflict, with the trade made, or refused. -/
theorem executeTrade_wp (hR : Tolerant R) {clientId : Uuid} {dto : CreateTradeDto}
    {rawIdempotencyKey : String} :
    (TradingService.executeTrade clientId dto rawIdempotencyKey).Wp isolation R obligations
      (fun m ℓ' r => ∃ q first, m = .outside q ∧
        ℓ ++ [.sql (.selectTradeByKey clientId (trim rawIdempotencyKey)) first] <+: ℓ' ∧
        ExecuteTrade R clientId dto.quoteId (trim rawIdempotencyKey) p first q ℓ' r)
      (.outside p) ℓ := by
  unfold TradingService.executeTrade
  generalize trim rawIdempotencyKey = key
  refine wp_query trivial (fun q hq found ws hx => ?_) fun q hq e he =>
    ⟨q, _, rfl, List.prefix_refl _, .lookupFailed hq he⟩
  obtain ⟨rfl, rfl⟩ := exec_selectTradeByKey.mp hx
  cases hfound : q.data.tradeByKey? clientId key with
  | some row =>
    exact Prog.wp_done.mpr ⟨q, _, rfl, List.prefix_refl _, .replay hq hfound⟩
  | none =>
    suffices h : Prog.Wp isolation R obligations (fun m ℓ' r => ∃ q', m = .outside q' ∧
        ExecuteTrade R clientId dto.quoteId key p (.ok none) q' ℓ' r) (.outside q)
        (ℓ ++ [.sql (.selectTradeByKey clientId key) (.ok none)]) _ from
      h.grows.mono fun m ℓ' r ⟨hℓ', q', hm, hq'⟩ => ⟨q', _, hm, hℓ', hq'⟩
    refine Prog.wp_bind.mpr (Prog.wp_attempt.mpr (wp_transaction_within
      (fun q _ ℓ => executeWithinTransaction_wp (R.env_refl _)) ?_ ?_ ?_))
    · rintro q row ws ⟨quote, tradeId, allowed, hws, -⟩
      exact ⟨_, allowed, hws⟩
    · rintro q' row ws e ℓ hq' ⟨quote, tradeId, allowed, hws, rfl, spelled, owned⟩ env
      rw [hws]
      have hquote : ((Effect.trade quote tradeId key q'.env.now).apply q'.data).quote? quote.id =
          some { quote with status := .EXECUTED } := by
        rw [Effect.quote?_trade, allowed.1, Option.map_some, if_pos rfl]
      refine wp_del (fun q₁ later => ⟨dto.quoteId, { quote with status := .EXECUTED }, rfl, spelled,
        (hR.later later.data).quote? hquote rfl, rfl⟩) fun q₁ q₂ r later deleted => ?_
      exact wp_ok ⟨q₂, rfl, .filled (hq.trans hq') allowed spelled owned env later deleted
        ⟨r, List.getLast?_concat⟩⟩
    · -- the error of a failed transaction is thrown again: it is never taken for a violation
      intro q' ℓ x hq'
      have hno : ∀ constraint, TradingService.isUniqueViolation x constraint = false := fun _ => rfl
      simp only [Prog.Then, hno, Bool.false_eq_true, if_false, Prog.bind_eq, Prog.pure_eq,
        Prog.bind_ok]
      exact wp_fail ⟨q', rfl, .failed (hq.trans hq')⟩

/-! ## Money -/

/-- Reading the balances promises nothing but to end outside transactions. -/
theorem getBalances_wp {clientId : Uuid} :
    (BalancesService.getBalances clientId).Wp isolation R obligations
      (fun m _ _ => ∃ q, m = .outside q) (.outside p) ℓ := by
  unfold BalancesService.getBalances
  refine wp_query trivial (fun q _ rows ws hx => ?_) fun q _ _ _ => ⟨q, rfl⟩
  exact wp_ok ⟨_, rfl⟩

/-- The body of a deposit's transaction, a part of `createDeposit` that is named here to be
verified by itself. -/
def depositBody (clientId : Uuid) (currency : String) (amountMinor : Int) (depositId : Uuid) :
    App Unit := do
  let lock ← LedgerService.lockBalanceRows clientId [currency]
  LedgerService.credit lock ⟨clientId, currency, amountMinor, .DEPOSIT, "DEPOSIT", depositId⟩

/-- The writes of a deposit's transaction amount to the effect of a deposit on the data that were
committed when it ran. -/
theorem depositBody_wp {clientId depositId : Uuid} {currency : String} {amountMinor : Int}
    {e : Surroundings} {st : Timestamp} (he : R.env p.env e) :
    (depositBody clientId currency amountMinor depositId).Wp isolation R obligations
      (Within R p st fun _ ws _ =>
        p.data.after ws = (Effect.deposit clientId currency amountMinor depositId).apply p.data)
      (.inside ⟨p.data, e⟩ st [] []) ℓ := by
  have hunique : LedgerService.uniqueCurrencies [currency] = [currency] := by
    simp [LedgerService.uniqueCurrencies, List.eraseDups_cons]
  refine within_bind (lockBalanceRows_wp (hunique ▸ .deposit clientId currency) he) ?_
  rintro lock e ws L ℓ he ⟨rfl, view, rfl⟩
  rw [hunique] at view ⊢
  refine within_mono (credit_wp ⟨clientId, currency, amountMinor, .DEPOSIT, "DEPOSIT", depositId⟩
    (assertCovers_ok (List.mem_singleton_self currency)) ?_ he view) fun _ _ _ h => h.1
  exact List.mem_append_right _ (List.mem_map_of_mem (by simp))

/-- The transaction of a deposit of more than nothing commits what it is obliged to, which needs
the amount to be positive. -/
theorem deposit_wp {clientId depositId : Uuid} {currency : String} {amountMinor : Int}
    (hpos : 0 < amountMinor) :
    (Prog.transaction (depositBody clientId currency amountMinor depositId)).Wp
      isolation R obligations (fun m _ _ => ∃ q, m = .outside q) (.outside p) ℓ :=
  wp_transaction_within (P := fun q _ ws => q.data.after ws =
      (Effect.deposit clientId currency amountMinor depositId).apply q.data)
    (fun _ _ _ => depositBody_wp (R.env_refl _))
    (fun _ _ _ hws => ⟨.deposit clientId currency amountMinor depositId, hpos, hws⟩)
    (fun _ _ _ _ _ _ _ _ => ⟨_, rfl⟩) fun q _ _ _ => ⟨q, rfl⟩

/-- `createDeposit` keeps its obligations; its effect is the one that it was obliged to at the
commit. -/
theorem createDeposit_wp {clientId : Uuid} {dto : CreateDepositDto} :
    (BalancesService.createDeposit clientId dto).Wp isolation R obligations
      (fun m _ _ => ∃ q, m = .outside q) (.outside p) ℓ := by
  unfold BalancesService.createDeposit
  cases toMinorUnits (.text dto.amount) with
  | error e => exact wp_fail ⟨p, rfl⟩
  | ok amountMinor =>
    simp only [Prog.bind_eq, Prog.pure_eq, Prog.bind_ok]
    split
    · exact wp_fail ⟨p, rfl⟩
    next hpos =>
    refine wp_request (x := .uuidv4) (a := fun χ _ => χ.uuid) trivial (fun _ _ => rfl)
      (fun q χ _ => ?_) fun q _ _ => ⟨q, rfl⟩
    refine Prog.wp_bind.mpr ((deposit_wp (Int.not_le.mp hpos)).mono ?_)
    rintro m ℓ r ⟨q, rfl⟩
    cases r with
    | error e => exact ⟨q, rfl⟩
    | ok u => exact getBalances_wp

/-! ## The seed -/

/-- What the transaction of a seed run holds once the client is in: the client is new to the
committed data, and besides the lock of its name there are only locks of its own rows. -/
structure Seeding (db : Database) (client : ClientRow) (L : List Resource) : Prop where
  fresh : db.client? client.id = none
  name : .clientName Seed.DEMO_CLIENT_NAME ∈ L
  locks : ∀ r ∈ L, r = .clientName Seed.DEMO_CLIENT_NAME ∨ r = .clientId client.id ∨
    ∃ currency, r = .balance client.id currency

/-- One fund: its amount is read, its balance is inserted and an entry is made for it, which comes
to posting the entry, since the client had no balance. -/
theorem fund_wp {client : ClientRow} {currency amount : String} {e : Surroundings} {st : Timestamp}
    {ws : List Write} {L : List Resource} (seeding : Seeding p.data client L) (he : R.env p.env e) :
    (Seed.fund client.id currency amount).Wp isolation R obligations
      (Within R p st fun _ ws' L => ∃ n, toMinorUnits (.text amount) = .ok n ∧
        Seeding p.data client L ∧
        p.data.after ws' = (p.data.after ws).postEntry (client.seedEntry (currency, n)))
      (.inside ⟨p.data, e⟩ st ws L) ℓ := by
  unfold Seed.fund
  cases hn : toMinorUnits (.text amount) with
  | error x => exact within_fail he
  | ok n =>
    refine within_query (.fund seeding.fresh seeding.name seeding.locks) he (fun r w hx _ => ?_)
      fun _ _ _ hr => (hr trivial).elim
    obtain ⟨-, hb, -, rfl⟩ := exec_insertBalance.mp hx
    refine within_query (f := fun u => .done (.ok u)) (.held trivial fun r hr => nomatch hr) he
      (fun r w hx' _ => ?_) fun _ _ _ hr => (hr trivial).elim
    obtain ⟨-, -, rfl⟩ := exec_insertLedgerEntry.mp hx'
    have hneeds : needs (.insertBalance client.id currency n) (p.data.after ws) =
        [.balance client.id currency] := by
      simp [needs, hb]
    refine within_pure he ⟨n, rfl, ⟨seeding.fresh, ?_, ?_⟩, ?_⟩
    · exact List.mem_append_left _ (List.mem_append_left _ seeding.name)
    · intro r hr
      rw [hneeds] at hr
      rcases List.mem_append.mp hr with hr | hr
      · rcases List.mem_append.mp hr with hr | hr
        · exact seeding.locks r hr
        · exact .inr (.inr ⟨_, List.mem_singleton.mp hr⟩)
      · cases hr
    · have hb : (p.data.after ws).balance? (client.seedEntry (currency, n)).clientId
          (client.seedEntry (currency, n)).currency = none := hb
      rw [Database.after_append, Database.after_append, Database.postEntry, hb]
      rfl

/-- The client is funded in one currency after the other: `pre` are those done, with `funds` posted,
`post` those to come. -/
theorem funding_wp {client : ClientRow} {e : Surroundings} {st : Timestamp} {ws : List Write}
    {L : List Resource} {pre post : List (String × String)} {funds : List (String × Int)}
    (split : Seed.funding = pre ++ post)
    (amounts : List.Forall₂ (fun f g => f.1 = g.1 ∧ toMinorUnits (.text f.2) = .ok g.2) pre funds)
    (seeding : Seeding p.data client L) (he : R.env p.env e)
    (view : p.data.after ws =
      ((Write.client client).apply p.data).postEntries (funds.map client.seedEntry)) :
    Prog.Wp isolation R obligations (Within R p st fun _ ws _ => ∃ funds,
      (Effect.seed client funds).Allowed p.data ∧
        p.data.after ws = (Effect.seed client funds).apply p.data)
      (.inside ⟨p.data, e⟩ st ws L) ℓ
      (post.forM fun f => Seed.fund client.id f.1 f.2) := by
  induction post generalizing pre funds ws L ℓ e with
  | nil =>
    obtain rfl : Seed.funding = pre := by simpa using split
    exact within_pure he ⟨funds, ⟨seeding.fresh, amounts⟩, view⟩
  | cons f post ih =>
    refine within_bind (fund_wp seeding he) ?_
    rintro - e ws' L ℓ he ⟨n, hn, seeding, view'⟩
    refine ih (by simpa using split)
      (List.rel_append amounts (.cons (b := (f.1, n)) ⟨rfl, hn⟩ .nil)) seeding he ?_
    rw [view', view, List.map_append, List.map_singleton, Database.postEntries_concat]

/-- The body of the seed run's transaction: the client is inserted unless there is one of its name,
and funded if it was inserted. -/
def seedBody : App (Option ClientRow) := do
  let id : Uuid ← App.request .genRandomUuid
  let inserted : Option ClientRow ← App.query (.insertClientIfAbsent id Seed.DEMO_CLIENT_NAME)
  match inserted with
  | none => return none
  | some inserted =>
    Seed.funding.forM fun (currency, amount) => Seed.fund inserted.id currency amount
    return some inserted

/-- What a seed run may do: nothing, or make a client with its funds. -/
def Effect.Seeds (e : Effect) : Prop := e = .nothing ∨ ∃ client funds, e = .seed client funds

/-- The writes of the seed run's transaction amount to nothing, where the demo client is there, or
to the effect of a seed run. -/
theorem seedBody_wp {e : Surroundings} {st : Timestamp} (he : R.env p.env e) :
    seedBody.Wp isolation R obligations (Within R p st fun _ ws _ => ∃ e : Effect,
      e.Allowed p.data ∧ p.data.after ws = e.apply p.data ∧ e.Seeds)
      (.inside ⟨p.data, e⟩ st [] []) ℓ := by
  refine within_request (x := .genRandomUuid) (a := fun χ _ => χ.uuid) (fun _ => trivial)
    (fun _ _ => rfl) he fun χ e he => ?_
  refine within_query (.insertClient χ.uuid) he (fun inserted w hx _ => ?_)
    fun _ _ _ hr => (hr trivial).elim
  obtain ⟨-, rfl, rfl⟩ | ⟨hname, hid, rfl, rfl⟩ := exec_insertClientIfAbsent.mp hx
  · exact within_pure he ⟨.nothing, trivial, rfl, .inl rfl⟩
  · have hneeds : needs (.insertClientIfAbsent χ.uuid Seed.DEMO_CLIENT_NAME) (p.data.after []) =
        [.clientName Seed.DEMO_CLIENT_NAME, .clientId χ.uuid] := by
      simp [needs, hname, hid]
    rw [hneeds]
    refine within_bind (funding_wp (show Seed.funding = [] ++ Seed.funding from rfl) .nil
      ⟨hid, by simp, ?_⟩ he rfl) ?_
    · simp
    · rintro - e ws L ℓ he ⟨funds, allowed, hws⟩
      exact within_pure he ⟨_, allowed, hws, .inr ⟨_, _, rfl⟩⟩

/-- A seed run ends outside transactions; what it commits is `seedBody`'s. -/
theorem seed_wp : Seed.main.Wp isolation R obligations (fun m _ _ => ∃ q, m = .outside q)
    (.outside p) ℓ :=
  wp_transaction_within (P := fun q _ ws =>
      ∃ e : Effect, e.Allowed q.data ∧ q.data.after ws = e.apply q.data ∧ e.Seeds)
    (fun _ _ _ => seedBody_wp (R.env_refl _)) (fun _ _ _ ⟨e, he, hws, _⟩ => ⟨e, he, hws⟩)
    (fun _ _ _ _ _ _ _ _ => ⟨_, rfl⟩) fun q _ _ _ => ⟨q, rfl⟩

/-! ## The system -/

/-- The value of a call, as its response: the last part of `program` for each of the calls. It
performs no act, so nothing has to be said of others there. -/
theorem wp_response {x : App α} {f : α → Response}
    {Q : Mode backend → History → Except JsError Response → Prop} {m : Mode backend}
    (hx : x.Wp isolation R obligations (fun m ℓ r => Q m ℓ (r.map f)) m ℓ) :
    (x.bind fun a => .done (.ok (f a))).Wp isolation R obligations Q m ℓ := by
  refine Prog.wp_bind.mpr (hx.mono fun m ℓ r h => ?_)
  cases r with
  | error e => exact h
  | ok a => exact wp_ok (R := R) h

/-- What `getQuoteById` returns is an answer of the kind that the system promises: the row that was
loaded, shown at the time that was read. -/
theorem GetQuoteById.answer {clientId : Uuid} {id : String} {q : Seen backend}
    {r : Except JsError QuoteResponse} (h : GetQuoteById R clientId id p q ℓ r) :
    r = .error .connectionError ∨ QuoteAnswer clientId id ℓ (r.map .quote) := by
  cases h with
  | lost _ => exact .inl rfl
  | unloaded load =>
    generalize hr : Except.error _ = r at load
    cases load with
    | @hit _ _ cached _ _ event =>
      cases hd : deserializeQuote cached with
      | error e => rw [hd] at hr; cases hr; exact .inr (.corrupt event hd)
      | ok d => rw [hd] at hr; cases hr
    | read | absent => cases hr
    | failed _ _ event => cases hr; exact .inr (.failed event)
    | lost => cases hr; exact .inl rfl
  | @foreign _ _ row e load owned =>
    have : QuoteAnswer clientId id ℓ _ := .loaded 0 load.loaded
    rw [owned] at this
    exact .inr this
  | response load owned _ log =>
    have : QuoteAnswer clientId id ℓ _ := .loaded q.env.dateNow (load.loaded.of_prefix log)
    rw [owned] at this
    exact .inr this

/-- What `executeTrade` returns is an answer of the kind that the system promises, given what its
lookup found. -/
theorem ExecuteTrade.answer (hR : Tolerant R) {clientId : Uuid} {quoteId key : String}
    {first : Except JsError (Option (TradeRow Date))} {q : Seen backend}
    {r : Except JsError TradeResult} (h : ExecuteTrade R clientId quoteId key p first q ℓ r)
    (hfirst : ℓ.head? = some (.sql (.selectTradeByKey clientId key) first)) :
    r = .error .connectionError ∨ TradeAnswer clientId quoteId key q.data ℓ (r.map .trade) := by
  cases h with
  | lookupFailed _ errs =>
    obtain ⟨χ, hx⟩ | ⟨-, rfl⟩ := errs
    · cases hx
    · exact .inl rfl
  | replay _ found => exact .inr (.replay found hfirst)
  | failed _ => exact .inr (.failed hfirst)
  | @filled q₀ e q' _ _ quote tradeId _ allowed spelled owned _ later deleted last =>
    have found : ((Effect.trade quote tradeId key q₀.env.now).apply q₀.data).tradeByKey?
        clientId key = some (quote.trade tradeId key q₀.env.now) := by
      have hnone := allowed.2.2.2.2.1
      rw [owned] at hnone
      have htrades : ((Effect.trade quote tradeId key q₀.env.now).apply q₀.data).trades =
          q₀.data.trades ++ [quote.trade tradeId key q₀.env.now] := by
        simp [Effect.apply, Write.apply]
      rw [Database.tradeByKey?] at hnone
      rw [Database.tradeByKey?, htrades, List.find?_append, hnone]
      simp [QuoteRow.trade, QuoteRow.tradeValues, TradeValues.row, owned]
    have := (hR.later later.data).tradeByKey? found
    have found' : q.data.tradeByKey? clientId key = some (quote.trade tradeId key q₀.env.now) := by
      rcases deleted with rfl | ⟨rfl, -⟩ <;> exact this
    exact .inr (.filled found' spelled hfirst last)

/-- Every call meets its obligations and answers as it may. The calls are verified one by one
above; here they are put together under the answers of the system. -/
theorem program_wp (c : Call) (hp : rely.inv p.data) (he : rely.envInv p.env) :
    (program c).Wp isolation rely obligations (Ends (answers c)) (.outside p) [] := by
  have hquiet : History.Quiet [] := fun _ _ _ _ h => nomatch h
  cases c with
  | seed => exact wp_response (seed_wp.mono fun m ℓ r ⟨q, hm⟩ => ⟨q, hm, .inr trivial⟩)
  | getBalances clientId =>
    exact wp_response (getBalances_wp.mono fun m ℓ r ⟨q, hm⟩ => ⟨q, hm, .inr trivial⟩)
  | createDeposit clientId dto =>
    exact wp_response (createDeposit_wp.mono fun m ℓ r ⟨q, hm⟩ => ⟨q, hm, .inr trivial⟩)
  | getPrice symbol =>
    exact wp_response ((getPrice_unobtrusive rely_tolerant symbol p [] hp he).mono
      fun m ℓ r ⟨q, hm, _⟩ => ⟨q, hm, .inr trivial⟩)
  | createQuote clientId dto =>
    exact wp_response ((createQuote_wp rely_tolerant hquiet hp he).mono
      fun m ℓ r ⟨q, hm, _⟩ => ⟨q, hm, .inr trivial⟩)
  | getQuoteById clientId id =>
    refine wp_response ((getQuoteById_wp hquiet).mono fun m ℓ r ⟨q, hm, h⟩ => ⟨q, hm, ?_⟩)
    exact h.answer.imp_left fun h => congrArg (Except.map Response.quote) h
  | executeTrade clientId dto key =>
    refine wp_response ((executeTrade_wp rely_tolerant).mono
      fun m ℓ r ⟨q, first, hm, hℓ, h⟩ => ⟨q, hm, ?_⟩)
    obtain ⟨ℓ', rfl⟩ := hℓ
    exact (h.answer rely_tolerant rfl).imp_left fun h => congrArg (Except.map Response.trade) h

/-- **The system is verified.** Every call meets its obligations at each of its acts, under the
assumption that the others do, and what it ends with is an answer of the kind it may give; the
library's soundness theorem makes invariants of every run of this. -/
theorem verified : Verified isolation rely program (fun _ _ => obligations) fun _ => answers where
  guarantees _ _ := guarantees
  fails _ := trivial
  tick χ e _ := tick_now χ e
  crash _ _ _ _ := .inl rfl
  program _ c _ hp he := program_wp c hp he

end MiniOpenFX
