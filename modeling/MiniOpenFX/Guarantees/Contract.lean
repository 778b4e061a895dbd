import MiniOpenFX.Api.Server
import MiniOpenFX.Guarantees.Refusals
import MiniOpenFX.Guarantees.Upstream

/-!
# What the API promises

Whatever requests are under way on the server, and whatever their calls do: every reply is one that
its route promises (`replies_promised`). An error has a status of the route's own list, and an
internal error does not say what went wrong; 401 is for requests without the key of any client that
the guard has found, and the guard finds all clients there were when the request came in; an
answer, which is of the route's kind, is for those with the key of a client. Each call serves one
request, on behalf of the client whose key the request has.
-/

namespace MiniOpenFX

open Js Transactional

/-! ## Replies -/

/-- The statuses of a route's errors. Each list has only what the route can really answer with, so
the promise is as sharp as the code. -/
def Route.errorStatuses : Route → List Nat
  | .health => [503]
  | .getPrice _ | .createQuote _ => [400, 401, 500, 502, 504]
  | .getQuote _ => [400, 401, 404, 500]
  | .createTrade .. => [400, 401, 404, 409, 410, 422, 500]
  | .getTradeHistory _ | .createDeposit _ => [400, 401, 500]
  | .getBalances => [401, 500]

/-- The answers of a route. -/
inductive Route.Answers : Route → ApiAnswer → Prop
  | health (h) : Answers .health (.health h)
  | price (query price) : Answers (.getPrice query) (.price price)
  | quoteMade (body quote) : Answers (.createQuote body) (.quote quote)
  | quoteShown (id quote) : Answers (.getQuote id) (.quote quote)
  | trade (body key result) : Answers (.createTrade body key) (.trade result)
  | trades (query page) : Answers (.getTradeHistory query) (.trades page)
  | balances (rows) : Answers .getBalances (.balances rows)
  | deposited (body rows) : Answers (.createDeposit body) (.balances rows)

/-- The status under which the filter answers what a service throws. -/
def JsError.status : JsError → Nat
  | .badRequestException _ => 400
  | .notFoundException _ => 404
  | .conflictException _ => 409
  | .goneException _ => 410
  | .unprocessableEntityException _ => 422
  | .badGatewayException _ => 502
  | .gatewayTimeoutException _ => 504
  | _ => 500

/-- The filter answers an error of the services with the status of its class. -/
theorem statusOf_service (e : JsError) : AllExceptionsFilter.statusOf (.service e) = e.status := by
  cases e <;> rfl

/-- What a request with the outcome is promised, given the clients there were when it came in and
those there are: the clients that have been `known` to the guard are between the two. -/
inductive Promised (k : Keys) (before clients : List ClientRow) (r : ApiRequest) :
    Except Thrown ApiAnswer → Prop
  | error {e : Thrown} (status : AllExceptionsFilter.statusOf e ∈ r.route.errorStatuses)
      (masked : AllExceptionsFilter.statusOf e = 500 →
        AllExceptionsFilter.extractMessage e 500 = "Internal server error")
      (turnedAway : AllExceptionsFilter.statusOf e = 401 → ∃ known, before <+: known ∧
        known <+: clients ∧
          ∀ client ∈ known, ¬ ApiKeyAuthGuard.HasKey k r.authorization client.id) :
      Promised k before clients r (.error e)
  | ok {answer : ApiAnswer} (kind : r.route.Answers answer) (allowed : r.route.isPublic = false →
        ∃ client ∈ clients, ApiKeyAuthGuard.HasKey k r.authorization client.id) :
      Promised k before clients r (.ok answer)

/-- Whatever went wrong inside, the client is not told what: the text of a database error or of a
bug stays on the server. -/
theorem extractMessage_of_internal {e : Thrown} (h : AllExceptionsFilter.statusOf e = 500) :
    AllExceptionsFilter.extractMessage e 500 = "Internal server error" := by
  cases e with
  | service e => cases e <;> first | rfl | cases h
  | _ => cases h

section
variable [DecimalJs]

omit [DecimalJs] in
/-- A fault, of the connection or of Postgres, is an internal error. -/
theorem JsError.Fault.status {e : JsError} (h : e.Fault) : e.status = 500 := by
  rcases h with rfl | ⟨cause, rfl⟩ <;> rfl

/-! ## The errors of the calls -/

omit [DecimalJs] in
/-- A call fails with the statuses of its service: wrapping the result as a response adds no error.
-/
theorem errors_of_yields {α : Type} {x : App α} {f : α → Response} {statuses : List Nat}
    (h : x.Yields (.free backend) (fun _ r => ∀ e, r = .error e → e.status ∈ statuses) []) :
    (x.bind fun a => .done (.ok (f a))).Yields (.free backend)
      (fun _ r => ∀ e, r = .error e → e.status ∈ statuses) [] :=
  yields_errors (Q := fun _ e => e.status ∈ statuses) h

omit [DecimalJs] in
/-- Errors of pricing are bad requests, bad gateways or gateway timeouts. -/
theorem Refused.status {e : JsError} (h : Refused e) :
    e.status = 400 ∨ e.status = 502 ∨ e.status = 504 := by
  cases h with
  | badRequest => exact .inl rfl
  | badGateway => exact .inr (.inl rfl)
  | gatewayTimeout => exact .inr (.inr rfl)

omit [DecimalJs] in
/-- The statuses that `getPrice` can fail with. This and the lemmas below list them for one service
after the other, by going through its program. -/
theorem getPrice_statuses (symbol : String) :
    (PricingService.getPrice symbol).Yields (.free backend)
      (fun _ r => ∀ e, r = .error e → e.status ∈ [400, 401, 500, 502, 504]) [] := by
  refine (getPrice_yields (fun _ => trivial) (fun _ _ => trivial) trivial trivial
    fun _ _ => trivial).mono ?_
  rintro _ r ⟨ℓ, -, hℓ⟩ e rfl
  rcases hℓ.error e rfl with ⟨h, -⟩ | rfl
  · rcases h.status with h | h | h <;> simp [h]
  · simp [JsError.status]

/-- The same for `createQuote`, which adds refusals of the amount to those of the prices, and the
faults of its one statement. -/
theorem createQuote_statuses (clientId : Uuid) (dto : CreateQuoteDto) :
    (QuotingService.createQuote clientId dto).Yields (.free backend)
      (fun _ r => ∀ e, r = .error e → e.status ∈ [400, 401, 500, 502, 504]) [] := by
  refine (createQuote_yields clientId dto (fun _ => trivial) (fun _ _ => trivial) trivial trivial
    trivial trivial (fun _ _ _ => trivial) (fun _ _ => trivial) fun _ _ _ _ => trivial).mono ?_
  rintro ℓ r hr e rfl
  cases hr with
  | lost | small | undated => simp [JsError.status]
  | refused h => rcases h.status with h | h | h <;> simp [h]
  | unpriced _ _ he =>
    obtain ⟨message, rfl⟩ := computeQuoteAmount_error he
    simp [JsError.status]
  | rejected _ _ _ _ _ _ _ hpossible => simp [(fault_of_possible hpossible).status]

omit [DecimalJs] in
/-- A cached quote that cannot be read back is an internal error. -/
theorem deserializeQuote_status {cached : CachedQuote} {e : JsError}
    (h : deserializeQuote cached = .error e) : e.status = 500 := by
  have hdate : ∀ {text e}, newDate text = .error e → e.status = 500 := by
    intro text e h
    unfold newDate at h
    split at h <;> cases h
    rfl
  unfold deserializeQuote at h
  split at h
  · cases hexpires : newDate cached.expiresAt with
    | error x =>
      rw [hexpires] at h
      cases h
      exact hdate hexpires
    | ok expiresAt =>
      cases hcreated : newDate cached.createdAt with
      | error x =>
        rw [hexpires, hcreated] at h
        cases h
        exact hdate hcreated
      | ok createdAt =>
        rw [hexpires, hcreated] at h
        cases h
  all_goals
    cases h
    rfl

omit [DecimalJs] in
/-- Loading a quote fails only by an internal error; that there is none is no failure here. -/
theorem loadQuote_status (id : String) : (QuotingService.loadQuote id).Yields (.free backend)
    (fun _ r => ∀ e, r = .error e → e.status = 500) [] := by
  unfold QuotingService.loadQuote
  refine yields_failSoft fun got => ?_
  dsimp only
  split
  · next cached _ =>
    cases hd : deserializeQuote cached with
    | error x =>
      rintro _ ⟨⟩
      exact deserializeQuote_status hd
    | ok row => exact fun _ h => by cases h
  · refine Prog.yields_query (fun row _ => ?_) fun e he _ h => ?_
    swap
    · cases h
      exact (fault_of_possible he).status
    cases row with
    | none => exact fun _ h => by cases h
    | some row =>
      refine Prog.yields_request trivial (fun now _ => ?_) fun e he _ h => ?_
      swap
      · cases h
        rw [broken_of_possible he fun _ _ => ⟨_, rfl⟩]
        rfl
      split
      · exact yields_failSoft fun r _ h => by cases h
      · exact fun _ h => by cases h

/-- The statuses that `getQuoteById` can fail with: a quote that is not the client's is not found.
-/
theorem getQuoteById_statuses (clientId : Uuid) (id : String) :
    (QuotingService.getQuoteById clientId id).Yields (.free backend)
      (fun _ r => ∀ e, r = .error e → e.status ∈ [400, 401, 404, 500]) [] := by
  refine Prog.yields_bind.mpr ((loadQuote_status id).mono fun ℓ r hr => ?_)
  cases r with
  | error x =>
    rintro _ ⟨⟩
    simp [hr x rfl]
  | ok row =>
    change Prog.Yields _ _ _ (Prog.bind (App.ofExcept (assertOwnedByClient _ _ _ _)) _)
    cases howned : assertOwnedByClient QuoteRow.clientId row clientId
        s!"Quote \"{id}\" not found" with
    | error x =>
      obtain ⟨rfl, -⟩ := assertOwnedByClient_error howned
      rintro _ ⟨⟩
      simp [JsError.status]
    | ok quote =>
      refine Prog.yields_request trivial (fun now _ => ?_) fun e he _ h => ?_
      · exact fun _ h => by cases h
      · cases h
        rw [broken_of_possible he fun _ _ => ⟨_, rfl⟩]
        simp [JsError.status]

/-- The statuses that `executeTrade` can fail with, those of the checks on the quote and on the
balance among them. -/
theorem executeTrade_statuses (clientId : Uuid) (dto : CreateTradeDto) (rawKey : String) :
    (TradingService.executeTrade clientId dto rawKey).Yields (.free backend)
      (fun _ r => ∀ e, r = .error e → e.status ∈ [400, 401, 404, 409, 410, 422, 500]) [] := by
  refine (executeTrade_refuses clientId dto rawKey).mono fun ℓ r hr e he => ?_
  cases hr e he with
  | fault h => simp [h.status]
  | reused | executed | unknown | expired | insufficient => simp [JsError.status]

/-! ## The calls of the routes -/

/-- What may serve a guarded route, on behalf of the client. Which texts the DTO has is left open,
since the validation may have changed them. -/
inductive Route.Serves (clientId : Uuid) : Route → Work → Prop
  | getPrice (query symbol) : Serves clientId (.getPrice query) (.call (.getPrice symbol))
  | createQuote (body dto) : Serves clientId (.createQuote body) (.call (.createQuote clientId dto))
  | getQuote (id) : Serves clientId (.getQuote id) (.call (.getQuoteById clientId id))
  | createTrade (body key dto rawKey) :
      Serves clientId (.createTrade body key) (.call (.executeTrade clientId dto rawKey))
  | getTradeHistory (query dto) :
      Serves clientId (.getTradeHistory query) (.history clientId dto)
  | getBalances : Serves clientId .getBalances (.call (.getBalances clientId))
  | createDeposit (body dto) :
      Serves clientId (.createDeposit body) (.call (.createDeposit clientId dto))

section
omit [DecimalJs]
variable {route : Route} {clientId : Uuid}

/-- What comes of the query or body. -/
theorem validated_ok {α : Type} {dto : Validated α} {f : α → Except Thrown Work} {work : Work}
    (h : (Route.validated dto).bind f = .ok work) : ∃ a, f a = .ok work := by
  cases dto with
  | error messages => cases h
  | ok a => exact ⟨a, h⟩

/-- A route that validates its input refuses it as a bad request, or fails as it does on valid
input. -/
theorem validated_error {α : Type} {dto : Validated α} {f : α → Except Thrown Work} {e : Thrown}
    (h : (Route.validated dto).bind f = .error e) :
    AllExceptionsFilter.statusOf e = 400 ∨ ∃ a, f a = .error e := by
  cases dto with
  | error messages => cases h; exact .inl rfl
  | ok a => exact .inr ⟨a, h⟩

/-- What a guarded route does for a client serves the client who has been let in. No route takes
the client from the request's body. -/
theorem Route.handle_ok (guarded : route.isPublic = false) {work : Work}
    (h : route.handle clientId = .ok work) : route.Serves clientId work := by
  cases route with
  | health => cases guarded
  | getPrice query =>
    obtain ⟨query, h⟩ := validated_ok h
    cases h
    exact .getPrice _ _
  | createQuote body =>
    obtain ⟨dto, h⟩ := validated_ok h
    cases h
    exact .createQuote _ _
  | getQuote id =>
    change (if isUuidText id = true then _ else _) = _ at h
    by_cases hid : isUuidText id = true
    · rw [if_pos hid] at h
      cases h
      exact .getQuote id
    · rw [if_neg hid] at h
      cases h
  | createTrade body idempotencyKey =>
    obtain ⟨dto, h⟩ := validated_ok h
    cases idempotencyKey with
    | none => cases h
    | some key =>
      change (if trim key = "" then _ else _) = _ at h
      by_cases hkey : trim key = ""
      · rw [if_pos hkey] at h
        cases h
      · rw [if_neg hkey] at h
        cases h
        exact .createTrade _ _ _ _
  | getTradeHistory query =>
    obtain ⟨query, h⟩ := validated_ok h
    cases h
    exact .getTradeHistory _ _
  | getBalances => cases h; exact .getBalances
  | createDeposit body =>
    obtain ⟨dto, h⟩ := validated_ok h
    cases h
    exact .createDeposit _ _

/-- A controller refuses a request with 400. The statuses of the services come up only when a call
has started. -/
theorem Route.handle_error {e : Thrown} (h : route.handle clientId = .error e) :
    AllExceptionsFilter.statusOf e = 400 := by
  cases route with
  | health | getBalances => cases h
  | getPrice query | createQuote body | getTradeHistory query | createDeposit body =>
    rcases validated_error h with h | ⟨a, h⟩
    · exact h
    · cases h
  | getQuote id =>
    change (if isUuidText id = true then _ else _) = _ at h
    by_cases hid : isUuidText id = true
    · rw [if_pos hid] at h
      cases h
    · rw [if_neg hid] at h
      cases h
      rfl
  | createTrade body idempotencyKey =>
    rcases validated_error h with h | ⟨dto, h⟩
    · exact h
    · cases idempotencyKey with
      | none => cases h; rfl
      | some key =>
        change (if trim key = "" then _ else _) = _ at h
        by_cases hkey : trim key = ""
        · rw [if_pos hkey] at h
          cases h
          rfl
        · rw [if_neg hkey] at h
          cases h

/-- Where a controller refuses requests, 400 is a status of the route. -/
theorem Route.badRequest_mem {e : Thrown} (h : route.handle clientId = .error e) :
    400 ∈ route.errorStatuses := by
  cases route with
  | health | getBalances => cases h
  | _ => simp [Route.errorStatuses]

/-- Every guarded route can turn a request away, and can fail: 401 and 500 are among its statuses.
-/
theorem Route.guarded_mem (guarded : route.isPublic = false) :
    401 ∈ route.errorStatuses ∧ 500 ∈ route.errorStatuses := by
  cases route with
  | health => cases guarded
  | _ => simp [Route.errorStatuses]

end

/-- The errors of a call are those of the route that it serves. One case for each service, each
from what the service is known to fail with. -/
theorem Route.Serves.statuses {route : Route} {clientId : Uuid} {c : Call}
    (h : route.Serves clientId (.call c)) : (program c).Yields (.free backend)
      (fun _ r => ∀ e, r = .error e → e.status ∈ route.errorStatuses) [] := by
  cases h with
  | getPrice query symbol => exact errors_of_yields (getPrice_statuses symbol)
  | createQuote body dto => exact errors_of_yields (createQuote_statuses clientId dto)
  | getQuote id => exact errors_of_yields (getQuoteById_statuses clientId id)
  | createTrade body key dto rawKey =>
    exact errors_of_yields (executeTrade_statuses clientId dto rawKey)
  | getBalances =>
    refine errors_of_yields (yields_of_faults (getBalances_faults clientId) (fun _ e he => ?_) [])
    simp [he.status, Route.errorStatuses]
  | createDeposit body dto =>
    refine errors_of_yields ((createDeposit_errors clientId dto).mono fun _ r hr e he => ?_)
    rcases hr e he with h | ⟨rfl, -⟩ | ⟨rfl, -⟩
    · simp [h.status, Route.errorStatuses]
    · simp [JsError.status, Route.errorStatuses]
    · simp [JsError.status, Route.errorStatuses]

/-- The answer of a call is one of the route that it serves, so a client can read it as the type it
expects. -/
theorem Route.Serves.answers {route : Route} {clientId : Uuid} {c : Call}
    (h : route.Serves clientId (.call c)) : (program c).Yields (.free backend)
      (fun _ r => ∀ response, r = .ok response → ∀ answer, response.answer? = some answer →
        route.Answers answer) [] := by
  have hkind : ∀ {α : Type} {x : App α} {f : α → Response},
      (∀ a answer, (f a).answer? = some answer → route.Answers answer) →
      (x.bind fun a => .done (.ok (f a))).Yields (.free backend) (fun _ r => ∀ response,
        r = .ok response → ∀ answer, response.answer? = some answer → route.Answers answer) [] := by
    intro α x f hf
    refine (Prog.yields_returns x f []).mono fun _ r hr response h => ?_
    obtain ⟨a, rfl⟩ := hr response h
    exact hf a
  cases h with
  | getPrice query symbol => exact hkind fun _ _ h => by cases h; exact .price _ _
  | createQuote body dto => exact hkind fun _ _ h => by cases h; exact .quoteMade _ _
  | getQuote id => exact hkind fun _ _ h => by cases h; exact .quoteShown _ _
  | createTrade body key dto rawKey => exact hkind fun _ _ h => by cases h; exact .trade _ _ _
  | getBalances => exact hkind fun _ _ h => by cases h; exact .balances _
  | createDeposit body dto => exact hkind fun _ _ h => by cases h; exact .deposited _ _

/-! ## The guard -/

section
omit [DecimalJs]
variable {k : Keys} {before known clients clients' : List ClientRow} {r : ApiRequest}

/-- A guarded request is handled on behalf of a client whose key it has. The guard comes before the
controller, so there is no other way to a service. -/
theorem ApiRequest.handle_ok (guarded : r.route.isPublic = false) {work : Work}
    (h : r.handle k known = .ok work) : ∃ client ∈ known,
      ApiKeyAuthGuard.HasKey k r.authorization client.id ∧ r.route.Serves client.id work := by
  rw [ApiRequest.handle, if_neg (by simp [guarded])] at h
  cases hkey : ApiKeyAuthGuard.canActivate k known r.authorization with
  | error e => rw [hkey] at h; cases h
  | ok clientId =>
    rw [hkey] at h
    obtain ⟨has, client, hclient, rfl⟩ := ApiKeyAuthGuard.canActivate_ok k hkey
    exact ⟨client, hclient, has, Route.handle_ok guarded h⟩

/-- A public request is never refused. -/
theorem ApiRequest.handle_public (open' : r.route.isPublic = true) :
    r.handle k known = .ok .health := if_pos open'

/-- Whoever the guard turns away has no client's key: it compares the key of the request with the
hash of each client it has read. -/
theorem canActivate_error {authorization : Option String} {e : Thrown}
    (h : ApiKeyAuthGuard.canActivate k known authorization = .error e) :
    AllExceptionsFilter.statusOf e = 401 ∧
      ∀ client ∈ known, ¬ ApiKeyAuthGuard.HasKey k authorization client.id := by
  unfold ApiKeyAuthGuard.canActivate at h
  cases hkey : ApiKeyAuthGuard.apiKey? authorization with
  | none =>
    rw [hkey] at h
    cases h
    exact ⟨rfl, fun _ _ ⟨_, h, _⟩ => by cases hkey.symm.trans h⟩
  | some apiKey =>
    rw [hkey] at h
    dsimp only at h
    cases hfind : known.find? fun client => k.compare apiKey (k.apiKeyHash client.id) with
    | some client => rw [hfind] at h; cases h
    | none =>
      rw [hfind] at h
      cases h
      refine ⟨rfl, fun client hclient ⟨_, h, hcompare⟩ => ?_⟩
      cases hkey.symm.trans h
      exact List.find?_eq_none.mp hfind client hclient hcompare

/-- A reply keeps its promise when clients are added. The clients of the moment before the request
stay the ones that a refusal is about. -/
theorem Promised.mono {outcome : Except Thrown ApiAnswer} (h : Promised k before clients r outcome)
    (hgrown : clients <+: clients') : Promised k before clients' r outcome := by
  cases h with
  | error status masked turnedAway =>
    exact .error status masked fun h401 => (turnedAway h401).imp fun _ h =>
      ⟨h.1, h.2.1.trans hgrown, h.2.2⟩
  | ok kind allowed =>
    exact .ok kind fun guarded => (allowed guarded).imp fun _ h => ⟨hgrown.subset h.1, h.2⟩

/-- What the guard and the controllers refuse a request with, if the guard finds all clients there
were when it came in. -/
theorem promised_refused {e : Thrown} (hbefore : before <+: clients)
    (h : r.handle k clients = .error e) : Promised k before clients r (.error e) := by
  cases hpublic : r.route.isPublic with
  | true => rw [ApiRequest.handle_public hpublic] at h; cases h
  | false =>
    rw [ApiRequest.handle, if_neg (by simp [hpublic])] at h
    cases hkey : ApiKeyAuthGuard.canActivate k clients r.authorization with
    | error e' =>
      rw [hkey] at h
      cases h
      obtain ⟨h401, hnone⟩ := canActivate_error hkey
      refine .error (h401 ▸ (Route.guarded_mem hpublic).1) (fun h500 => ?_)
        fun _ => ⟨clients, hbefore, List.prefix_refl _, hnone⟩
      rw [h401] at h500
      cases h500
    | ok clientId =>
      rw [hkey] at h
      have h400 := Route.handle_error h
      refine .error (h400 ▸ Route.badRequest_mem h) (fun h500 => ?_) fun h401 => ?_
      · rw [h400] at h500
        cases h500
      · rw [h400] at h401
        cases h401

/-- No service turns anybody away; only the guard does. So a reply with status 401 is about the key
and about nothing else. -/
theorem JsError.status_ne (e : JsError) : e.status ≠ 401 := by
  cases e <;> simp [JsError.status]

/-- What a service throws, under a status of the route. It is never 401, so the clause for those
turned away is not concerned. -/
theorem promised_thrown {e : JsError} (h : e.status ∈ r.route.errorStatuses) :
    Promised k before clients r (.error (.service e)) := by
  refine .error (statusOf_service e ▸ h) extractMessage_of_internal fun h401 => ?_
  rw [statusOf_service] at h401
  exact absurd h401 e.status_ne

end

/-! ## Outcomes -/

section
variable {k : Keys} {before known clients : List ClientRow} {e : Surroundings} {s : Sys}
  {r : ApiRequest}

omit [DecimalJs] in
/-- Only a guarded request is served by something else than a check of health, so who is served has
shown a key. -/
theorem guarded_of_handle {work : Work} (h : r.handle k known = .ok work) (hwork : work ≠ .health) :
    r.route.isPublic = false := by
  cases hpublic : r.route.isPublic with
  | true =>
    rw [ApiRequest.handle_public hpublic] at h
    exact absurd (Except.ok.inj h).symm hwork
  | false => rfl

/-- What a call ends with is promised: an error by the statuses of its route, an answer by the key
of the request and the type of the route. -/
theorem promised_answer (hs : State.Reaches program (Sys.start clients e) s)
    (hknown : known <+: s.data.clients) {t : Thread backend Call Response} (ht : t ∈ s.threads)
    (handled : r.handle k known = .ok (.call t.call)) {result : Except JsError Response}
    (finished : t.result? = some result) {outcome : Except Thrown ApiAnswer}
    (houtcome : outcomeOf result = some outcome) :
    Promised k before s.data.clients r outcome := by
  have guarded := guarded_of_handle handled fun h => by cases h
  obtain ⟨client, hclient, has, hserves⟩ := ApiRequest.handle_ok guarded handled
  cases result with
  | error x =>
    cases houtcome
    refine promised_thrown ?_
    rcases ended_of_yields hs ht rfl finished hserves.statuses with h | h
    · rw [Except.error.inj h]
      exact (Route.guarded_mem guarded).2
    · exact h x rfl
  | ok response =>
    obtain ⟨answer, hanswer, rfl⟩ := Option.map_eq_some_iff.mp houtcome
    refine .ok ?_ fun _ => ⟨client, hknown.subset hclient, has⟩
    rcases ended_of_yields hs ht rfl finished hserves.answers with h | h
    · cases h
    · exact h response rfl answer hanswer

variable [JsEngine]

/-- A read of the history fails with 400 for its cursor, and otherwise with 500, whatever its one
statement fails with. -/
theorem getTradeHistory_status {clientId : Uuid} {query : GetTradesQueryDto}
    {fails : Act sig → Bool}
    {τ : Nat → Turn backend} {db : Database} {e : Surroundings} {x : JsError}
    (h : ((TradesService.getTradeHistory clientId query).run fails τ ⟨db, e, none⟩).1 = .error x) :
    x.status = 400 ∨ x.status = 500 := by
  cases hcursor : TradesService.cursorOf query.cursor with
  | error x' =>
    rw [TradesService.getTradeHistory_of_error hcursor] at h
    cases h
    refine .inl ?_
    cases hraw : query.cursor with
    | none => rw [hraw] at hcursor; cases hcursor
    | some raw =>
      rw [hraw, TradesService.cursorOf] at hcursor
      by_cases hempty : raw = ""
      · rw [if_pos hempty] at hcursor
        cases hcursor
      · rw [if_neg hempty] at hcursor
        cases hdecoded : decodeCursor raw with
        | ok cursor => rw [hdecoded] at hcursor; cases hcursor
        | error x' =>
          rw [hdecoded, decodeCursor_eq_error hdecoded] at hcursor
          cases hcursor
          rfl
  | ok cursor =>
    rw [TradesService.getTradeHistory_of_cursor hcursor, App.query, Prog.query, Prog.bind_sql,
      Prog.run] at h
    refine .inr ?_
    by_cases hfails : ((τ 0).fails && fails (.sql (.selectTrades clientId
        (cursor.map fun cursor => (cursor.createdAt, cursor.id)) (query.limit + 1)))) = true
    · rw [if_pos hfails] at h
      cases h
      rfl
    · rw [if_neg hfails] at h
      split at h
      · cases h
      · next hx =>
        cases h
        have hx : exec ((τ 0).env e).now db (.selectTrades clientId
          (cursor.map fun cursor => (cursor.createdAt, cursor.id)) (query.limit + 1)) =
            .error x := hx
        obtain ⟨cause, rfl⟩ := exec_error hx
        rfl

/-- What a read of the history ends with is promised. It is not a call of the system, as it writes
nothing, and is treated on its own. -/
theorem promised_history (hknown : known <+: clients) {clientId : Uuid} {query : GetTradesQueryDto}
    (handled : r.handle k known = .ok (.history clientId query)) (fails : Act sig → Bool)
    (τ : Nat → Turn backend) (db : Database) (e : Surroundings) :
    Promised k before clients r (historyOutcome
      ((TradesService.getTradeHistory clientId query).run fails τ ⟨db, e, none⟩).1) := by
  have guarded := guarded_of_handle handled fun h => by cases h
  obtain ⟨client, hclient, has, hserves⟩ := ApiRequest.handle_ok guarded handled
  generalize hroute : r.route = route at hserves
  cases hserves with
  | getTradeHistory raw dto =>
    cases hrun : ((TradesService.getTradeHistory client.id query).run fails τ ⟨db, e, none⟩).1 with
    | error x =>
      refine promised_thrown ?_
      rw [hroute]
      rcases getTradeHistory_status hrun with h | h <;> simp [h, Route.errorStatuses]
    | ok page => exact .ok (hroute ▸ .trades raw page) fun _ => ⟨client, hknown.subset hclient, has⟩

omit [DecimalJs] [JsEngine] in
/-- The health check answers, or is unavailable. -/
theorem HealthController.check_cases (selectOne : Except JsError Unit)
    (ping : Except JsError String) :
    (∃ message, HealthController.check selectOne ping =
        .error (.serviceUnavailableException message)) ∨
      ∃ h, HealthController.check selectOne ping = .ok (.health h) := by
  unfold HealthController.check
  dsimp only
  split_ifs
  · exact .inl ⟨_, rfl⟩
  · exact .inr ⟨_, rfl⟩

omit [DecimalJs] [JsEngine] in
/-- What a check of health ends with. -/
theorem promised_check (handled : r.handle k known = .ok .health) (selectOne : Except JsError Unit)
    (ping : Except JsError String) :
    Promised k before clients r (HealthController.check selectOne ping) := by
  have hpublic : r.route.isPublic = true := by
    cases hpublic : r.route.isPublic with
    | true => rfl
    | false =>
      obtain ⟨client, -, -, hserves⟩ := ApiRequest.handle_ok hpublic handled
      generalize r.route = route at hserves
      cases hserves
  have hroute : r.route = .health := by
    generalize r.route = route at hpublic
    cases route with
    | health => rfl
    | _ => cases hpublic
  rcases HealthController.check_cases selectOne ping with ⟨message, h⟩ | ⟨h, hcheck⟩
  · rw [h]
    have h503 : AllExceptionsFilter.statusOf (.serviceUnavailableException message) = 503 := rfl
    refine .error ?_ extractMessage_of_internal fun h => ?_
    · rw [h503, hroute]
      exact List.mem_singleton_self 503
    · rw [h503] at h
      cases h
  · rw [hcheck]
    exact .ok (hroute ▸ .health h) fun guarded => by rw [hpublic] at guarded; cases guarded

end

/-! ## Exchanges -/

/-- What is known of a request: the clients that were there when it came in still are, what serves
it was handled among them, its thread serves its route, and its reply is promised. -/
structure Exchange.Sound (k : Keys) (s : Sys) (x : Exchange) : Prop where
  arrived : x.before <+: s.data.clients
  handled : ∀ work, x.work = some work →
    ∃ known, known <+: s.data.clients ∧ x.request.handle k known = .ok work
  /-- the thread is that of its call -/
  serving : ∀ j, x.thread = some j → ∃ c t, x.work = some (.call c) ∧ s.threads[j]? = some t ∧
    t.call = c
  promised : ∀ outcome, x.outcome = some outcome →
    Promised k x.before s.data.clients x.request outcome
  finished : ∀ j, x.thread = some j → x.outcome.isSome →
    ∀ t : Thread backend Call Response, s.threads[j]? = some t → ∃ r, t.prog = .done r

/-- What is known of the server: its system is reached, every exchange is sound, and no two
exchanges share a thread. -/
structure Server.Sound (k : Keys) (clients : List ClientRow) (e : Surroundings) (sv : Server) :
    Prop where
  reached : State.Reaches program (Sys.start clients e) sv.sys
  exchanges : ∀ (i : Nat) (x : Exchange), sv.exchanges[i]? = some x → x.Sound k sv.sys
  /-- no two requests are served by one call -/
  apart : ∀ (i j : Nat) (x y : Exchange) n, sv.exchanges[i]? = some x → sv.exchanges[j]? = some y →
    x.thread = some n → y.thread = some n → i = j
  /-- every call serves a request -/
  owned : ∀ (n : Nat) (t : Thread backend Call Response), sv.sys.threads[n]? = some t →
    t.call ≠ .seed →
    ∃ i : Nat, ∃ x : Exchange, sv.exchanges[i]? = some x ∧ x.thread = some n

section
variable {k : Keys} {clients : List ClientRow} {e : Surroundings} {sv sv' : Server} {s s' : Sys}
  {x x' : Exchange}

/-- A step of the system keeps what is known of a request: clients are only added, so whoever was
among them is so still. -/
theorem Exchange.Sound.step (h : x.Sound k s)
    (hs : State.Reaches program (Sys.start clients e) s) {l : Label backend Call}
    (hst : s.step program l = some s') : x.Sound k s' := by
  have hgrown := (grows_of_step hs hst).clients
  refine ⟨h.arrived.trans hgrown, fun work hwork => ?_, fun j hj => ?_,
    fun o ho => (h.promised o ho).mono hgrown, fun j hj ho t ht => ?_⟩
  · obtain ⟨known, hknown, hhandled⟩ := h.handled work hwork
    exact ⟨known, hknown.trans hgrown, hhandled⟩
  · obtain ⟨c, t, hwork, ht, hcall⟩ := h.serving j hj
    obtain ⟨t', ht', hcall', -⟩ := State.step_thread hst ht
    exact ⟨c, t', hwork, ht', hcall'.trans hcall⟩
  · obtain ⟨c, t₀, -, ht₀, -⟩ := h.serving j hj
    obtain ⟨t', ht', -, hdone⟩ := State.step_finished hst ht₀ (h.finished j hj ho t₀ ht₀)
    cases ht.symm.trans ht'
    exact hdone

omit [DecimalJs] in
/-- An exchange of a list in which one is replaced. -/
theorem getElem?_of_set {l : List Exchange} {i j : Nat} (h : (l.set i x')[j]? = some x) :
    j = i ∧ x = x' ∨ j ≠ i ∧ l[j]? = some x := by
  by_cases hij : i = j
  · subst hij
    have hlt : i < l.length := by
      have := (List.getElem?_eq_some_iff.mp h).1
      rwa [List.length_set] at this
    rw [List.getElem?_set_self hlt] at h
    exact .inl ⟨rfl, (Option.some.inj h).symm⟩
  · rw [List.getElem?_set_ne hij] at h
    exact .inr ⟨fun h => hij h.symm, h⟩

/-- A request goes on with the thread that it has. Only this exchange changes, so only it has to be
shown sound. -/
theorem Server.Sound.put (h : sv.Sound k clients e) {i : Nat} (old : sv.exchanges[i]? = some x)
    (thread : x'.thread = x.thread) (sound : x'.Sound k sv.sys) :
    (sv.put i x').Sound k clients e := by
  have hlt : i < sv.exchanges.length := (List.getElem?_eq_some_iff.mp old).1
  -- every exchange has the thread of the old one in its place
  have hthread : ∀ {j : Nat} {y : Exchange}, (sv.put i x').exchanges[j]? = some y →
      ∃ y', sv.exchanges[j]? = some y' ∧ y.thread = y'.thread := by
    intro j y hy
    rcases getElem?_of_set hy with ⟨rfl, rfl⟩ | ⟨-, hy⟩
    · exact ⟨x, old, thread⟩
    · exact ⟨y, hy, rfl⟩
  refine ⟨h.reached, fun j y hy => ?_, fun j j' y z n hy hz hyn hzn => ?_, fun n t ht hseed => ?_⟩
  · rcases getElem?_of_set hy with ⟨rfl, rfl⟩ | ⟨-, hy⟩
    · exact sound
    · exact h.exchanges j y hy
  · obtain ⟨y', hy', hyt⟩ := hthread hy
    obtain ⟨z', hz', hzt⟩ := hthread hz
    exact h.apart j j' y' z' n hy' hz' (hyt ▸ hyn) (hzt ▸ hzn)
  · obtain ⟨j, y, hy, hyn⟩ := h.owned n t ht hseed
    by_cases hji : j = i
    · subst hji
      cases old.symm.trans hy
      exact ⟨j, x', List.getElem?_set_self hlt, thread.trans hyn⟩
    · exact ⟨j, y, (List.getElem?_set_ne fun h => hji h.symm).trans hy, hyn⟩

/-- A server with no exchange is sound, whatever clients there are. -/
theorem Server.sound_start : (Server.start (Sys.start clients e)).Sound k clients e where
  reached := State.Reaches.refl _
  exchanges _ _ h := by cases h
  apart _ _ _ _ _ h := by cases h
  owned _ _ h := by cases h

/-- A step of the system keeps what is known. A call that starts without a request can only be the
seed. -/
theorem Server.Sound.system (h : sv.Sound k clients e) {l : Label backend Call}
    (hst : sv.sys.step program l = some s) (inner : ∀ c, l = .spawn c → c = .seed) :
    Server.Sound k clients e { sv with sys := s } where
  reached := h.reached.tail hst
  exchanges i x hx := (h.exchanges i x hx).step h.reached hst
  apart := h.apart
  owned n t ht hseed := by
    rcases State.step_origin hst ht with ⟨t₀, ht₀, hcall⟩ | ⟨c, rfl, -, rfl⟩
    · exact h.owned n t₀ ht₀ fun h => hseed (hcall.trans h)
    · exact absurd (inner c rfl) hseed

/-- A request that comes in finds the clients that there are, and has had nothing done for it yet.
-/
theorem Server.Sound.receive (h : sv.Sound k clients e) (request : ApiRequest) :
    Server.Sound k clients e
      { sv with exchanges := sv.exchanges ++ [.arrived request sv.sys.data.clients] } := by
  have hold : ∀ {j : Nat} {y : Exchange},
      (sv.exchanges ++ [Exchange.arrived request sv.sys.data.clients])[j]? = some y →
        sv.exchanges[j]? = some y ∨ y = .arrived request sv.sys.data.clients := by
    intro j y hy
    by_cases hlt : j < sv.exchanges.length
    · exact .inl (List.getElem?_append_left hlt ▸ hy)
    · rw [List.getElem?_append_right (by omega)] at hy
      exact .inr (List.mem_singleton.mp (List.mem_of_getElem? hy))
  have hserved : ∀ {j : Nat} {y : Exchange} {n : Nat},
      (sv.exchanges ++ [Exchange.arrived request sv.sys.data.clients])[j]? = some y →
        y.thread = some n → sv.exchanges[j]? = some y := by
    intro j y n hy hn
    rcases hold hy with hy | rfl
    · exact hy
    · cases hn
  refine ⟨h.reached, fun j y hy => ?_, fun i j y z n hy hz hyn hzn => ?_, fun n t ht hseed => ?_⟩
  · rcases hold hy with hy | rfl
    · exact h.exchanges j y hy
    · exact ⟨List.prefix_refl _, fun _ h => (by cases h), fun _ h => (by cases h),
        fun _ h => (by cases h), fun _ h => (by cases h)⟩
  · exact h.apart i j y z n (hserved hy hyn) (hserved hz hzn) hyn hzn
  · obtain ⟨j, y, hy, hyn⟩ := h.owned n t ht hseed
    exact ⟨j, y, (List.getElem?_append_left (List.getElem?_eq_some_iff.mp hy).1).trans hy, hyn⟩

/-- A call starts for a request that has none. The thread is new, so no other request has it. -/
theorem Server.Sound.start (h : sv.Sound k clients e) {i : Nat} {request : ApiRequest}
    {before : List ClientRow} {c : Call}
    (old : sv.exchanges[i]? = some ⟨request, before, some (.call c), none, none⟩)
    (spawned : sv.sys.step program (.spawn c) = some s) :
    Server.Sound k clients e ⟨s, sv.exchanges.set i
      ⟨request, before, some (.call c), some sv.sys.threads.length, none⟩⟩ := by
  have hlt : i < sv.exchanges.length := (List.getElem?_eq_some_iff.mp old).1
  have hnew : s.threads[sv.sys.threads.length]? = some (.start program c) := by
    cases spawned
    exact List.getElem?_concat_length
  -- no other request has the new thread
  have hfresh : ∀ {j : Nat} {y : Exchange} {n : Nat}, sv.exchanges[j]? = some y →
      y.thread = some n → n < sv.sys.threads.length := by
    intro j y n hy hn
    obtain ⟨-, t, -, ht, -⟩ := (h.exchanges j y hy).serving n hn
    exact (List.getElem?_eq_some_iff.mp ht).1
  refine ⟨h.reached.tail spawned, fun j y hy => ?_, fun j j' y z n hy hz hyn hzn => ?_,
    fun n t ht hseed => ?_⟩
  · rcases getElem?_of_set hy with ⟨-, rfl⟩ | ⟨-, hy⟩
    · have hx := (h.exchanges i _ old).step h.reached spawned
      exact ⟨hx.arrived, hx.handled, fun _ hj => ⟨c, _, rfl, Option.some.inj hj ▸ hnew, rfl⟩,
        fun _ ho => (by cases ho), fun _ _ ho => (by cases ho)⟩
    · exact (h.exchanges j y hy).step h.reached spawned
  · rcases getElem?_of_set hy with ⟨rfl, rfl⟩ | ⟨-, hy'⟩ <;>
      rcases getElem?_of_set hz with ⟨rfl, rfl⟩ | ⟨-, hz'⟩
    · rfl
    · cases hyn
      exact absurd (hfresh hz' hzn) (Nat.lt_irrefl _)
    · cases hzn
      exact absurd (hfresh hy' hyn) (Nat.lt_irrefl _)
    · exact h.apart j j' y z n hy' hz' hyn hzn
  · rcases State.step_origin spawned ht with ⟨t₀, ht₀, hcall⟩ | ⟨-, -, rfl, -⟩
    · obtain ⟨j, y, hy, hyn⟩ := h.owned n t₀ ht₀ fun h => hseed (hcall.trans h)
      have hji : i ≠ j := by
        rintro rfl
        cases old.symm.trans hy
        cases hyn
      exact ⟨j, y, (List.getElem?_set_ne hji).trans hy, hyn⟩
    · exact ⟨i, _, List.getElem?_set_self hlt, rfl⟩

variable [JsEngine]

/-- Every step of the server keeps it sound: those of the system by what calls promise, and those
of an exchange by `Exchange.Sound.step`. -/
theorem Server.Sound.step (h : sv.Sound k clients e) (hst : sv.Step k sv') :
    sv'.Sound k clients e := by
  cases hst with
  | system hst inner => exact h.system hst inner
  | receive request => exact h.receive request
  | @refuse i request before x old handled =>
    have harrived := (h.exchanges i _ old).arrived
    refine h.put old rfl ⟨harrived, fun _ h => (by cases h), fun _ h => (by cases h),
      fun o ho => ?_, fun _ h => (by cases h)⟩
    cases ho
    exact promised_refused harrived handled
  | @guardFails i request before apiKey x old guarded hkey failed =>
    refine h.put old rfl ⟨(h.exchanges i _ old).arrived, fun _ h => (by cases h),
      fun _ h => (by cases h), fun o ho => ?_, fun _ h => (by cases h)⟩
    cases ho
    refine promised_thrown ?_
    rw [JsError.Fault.status failed]
    exact (Route.guarded_mem guarded).2
  | @accept i request before work old handled =>
    refine h.put old rfl ⟨(h.exchanges i _ old).arrived, fun w hw => ?_, fun _ h => (by cases h),
      fun _ h => (by cases h), fun _ h => (by cases h)⟩
    cases hw
    exact ⟨_, List.prefix_refl _, handled⟩
  | start old spawned => exact h.start old spawned
  | @answer i j request before c t r outcome old ht hr houtcome =>
    have hx := h.exchanges i _ old
    refine h.put old rfl ⟨hx.arrived, hx.handled, hx.serving, fun o ho => ?_,
      fun j' hj _ t' ht' => ?_⟩
    · cases ho
      obtain ⟨known, hknown, handled⟩ := hx.handled _ rfl
      obtain ⟨c', t', hwork, ht', hcall⟩ := hx.serving j rfl
      cases ht.symm.trans ht'
      cases hwork
      rw [← hcall] at handled
      exact promised_answer h.reached hknown (List.mem_of_getElem? ht) handled hr houtcome
    · cases hj
      cases ht.symm.trans ht'
      exact ⟨r, State.prog_of_result hr⟩
  | @check i request before selectOne ping old =>
    have hx := h.exchanges i _ old
    refine h.put old rfl ⟨hx.arrived, hx.handled, hx.serving, fun o ho => ?_,
      fun _ h => (by cases h)⟩
    cases ho
    obtain ⟨known, -, handled⟩ := hx.handled _ rfl
    exact promised_check handled selectOne ping
  | @history i request before clientId query fails τ old =>
    have hx := h.exchanges i _ old
    refine h.put old rfl ⟨hx.arrived, hx.handled, hx.serving, fun o ho => ?_,
      fun _ h => (by cases h)⟩
    cases ho
    obtain ⟨known, hknown, handled⟩ := hx.handled _ rfl
    exact promised_history hknown handled fails τ _ _

/-- What is known of the server in every run, by induction on its steps. The promises about replies
and about keys are read off from it. -/
theorem Server.sound_of_reaches (h : Server.Reaches k (.start (Sys.start clients e)) sv) :
    sv.Sound k clients e := by
  induction h with
  | refl => exact Server.sound_start
  | tail _ hst ih => exact ih.step hst

omit [JsEngine] in
/-- Every call serves one request, on behalf of a client whose key the request has. With this, what
is known of calls becomes something about requests and keys. -/
theorem Server.Sound.served (h : sv.Sound k clients e) {n : Nat} {t : Thread backend Call Response}
    (ht : sv.sys.threads[n]? = some t) (hseed : t.call ≠ .seed) :
    ∃ i : Nat, ∃ x : Exchange, sv.exchanges[i]? = some x ∧ x.thread = some n ∧
      (∃ client ∈ sv.sys.data.clients,
        ApiKeyAuthGuard.HasKey k x.request.authorization client.id ∧
          x.request.route.Serves client.id (.call t.call)) ∧
      ∀ (j : Nat) (y : Exchange), sv.exchanges[j]? = some y → y.thread = some n → j = i := by
  obtain ⟨i, x, hx, hn⟩ := h.owned n t ht hseed
  refine ⟨i, x, hx, hn, ?_, fun j y hy hyn => h.apart j i y x n hy hx hyn hn⟩
  obtain ⟨c, t', hwork, ht', hcall⟩ := (h.exchanges i x hx).serving n hn
  cases ht.symm.trans ht'
  obtain ⟨known, hknown, handled⟩ := (h.exchanges i x hx).handled _ hwork
  obtain ⟨client, hclient, has, hserves⟩ := ApiRequest.handle_ok
    (guarded_of_handle handled fun h => by cases h) handled
  exact ⟨client, hknown.subset hclient, has, hcall ▸ hserves⟩

/-- **What the API promises.** In every run of the server, with any requests under way: every reply
is one that its route promises; every call serves one request, on behalf of a client whose key the
request has; and no two requests are served by one call. -/
theorem replies_promised (h : Server.Reaches k (.start (Sys.start clients e)) sv) :
    (∀ x ∈ sv.exchanges, ∀ outcome, x.outcome = some outcome →
      x.before <+: sv.sys.data.clients ∧
        Promised k x.before sv.sys.data.clients x.request outcome) ∧
    (∀ n (t : Thread backend Call Response), sv.sys.threads[n]? = some t → t.call ≠ .seed →
      ∃ i, ∃ x, sv.exchanges[i]? = some x ∧ x.thread = some n ∧
        (∃ client ∈ sv.sys.data.clients,
          ApiKeyAuthGuard.HasKey k x.request.authorization client.id ∧
            x.request.route.Serves client.id (.call t.call)) ∧
        ∀ (j : Nat) (y : Exchange), sv.exchanges[j]? = some y → y.thread = some n → j = i) := by
  have hsound := Server.sound_of_reaches h
  refine ⟨fun x hx o ho => ?_, fun n t ht hseed => hsound.served ht hseed⟩
  obtain ⟨i, hi⟩ := List.getElem?_of_mem hx
  exact ⟨(hsound.exchanges i x hi).arrived, (hsound.exchanges i x hi).promised o ho⟩

/-- A run of the system's own, in which no client's call comes in, is one of the server: no
exchange changes meanwhile. -/
theorem Server.reaches_system {ls : List (Label backend Call)}
    (h : s.exec program ls = some s') (inner : ∀ l ∈ ls, ∀ c, l = .spawn c → c = .seed)
    (xs : List Exchange) : Server.Reaches k ⟨s, xs⟩ ⟨s', xs⟩ := by
  induction ls generalizing s with
  | nil => cases h; exact .refl
  | cons l ls ih =>
    obtain ⟨s₁, h₁, h₂⟩ := Option.bind_eq_some_iff.mp h
    exact .head (.system h₁ (inner l (.head _))) (ih h₂ fun l hl => inner l (.tail _ hl))

end

end

section
open scoped Reference

namespace Sample

/-- Alice's key is "secret". -/
def keys : Keys := ⟨fun _ => "hash", fun apiKey hash => apiKey = "secret" && hash = "hash"⟩

/-- Alice deposits. -/
def depositRequest : ApiRequest := ⟨some "Bearer secret", .createDeposit (.ok ⟨"USDT", "1000"⟩)⟩

/-- The server after the reply. -/
def deposited : Server := ⟨after deposits, [⟨depositRequest, clients,
  some (.call (.createDeposit alice ⟨"USDT", "1000"⟩)), some 0,
  some (.ok (.balances [⟨"USDT", "1000"⟩]))⟩]⟩

/-- The acts of a call bring no further call in. -/
theorem not_spawn_of_acts {i n : Nat} {id : Uuid} {l : Label backend Call} (hl : l ∈ acts i n id)
    (c : Call) (h : l = .spawn c) : c = .seed := by
  rw [List.eq_of_mem_replicate hl] at h
  cases h

/-- Alice's deposit is a run of the server: her request arrives, is let through and starts its
call, and the call's outcome is answered. -/
theorem deposited_reached :
    Server.Reaches keys (.start (Sys.start clients surroundings)) deposited := by
  have hspawned : (Sys.start clients surroundings).step program
      (.spawn (.createDeposit alice ⟨"USDT", "1000"⟩)) =
        some (after [.spawn (.createDeposit alice ⟨"USDT", "1000"⟩)]) :=
    @step_after [] _ (by decide +kernel)
  have haccepted : Server.Reaches keys (.start (Sys.start clients surroundings))
      ⟨Sys.start clients surroundings, [⟨depositRequest, clients,
        some (.call (.createDeposit alice ⟨"USDT", "1000"⟩)), none, none⟩]⟩ :=
    .tail (.single (.receive depositRequest)) (.accept (i := 0) rfl rfl)
  refine .tail (.trans (.tail haccepted (.start (i := 0) rfl hspawned))
    (Server.reaches_system (exec_after (acts 0 8 depositId) (by decide +kernel))
      (fun l hl => not_spawn_of_acts hl) _)) ?_
  exact .answer (i := 0) rfl (getElem?_thread (by decide +kernel))
    (show (thread (after deposits) 0).result? = some (.ok (.balances [⟨"USDT", "1000"⟩])) from
      by decide +kernel) rfl

end Sample

/-- The reply to Alice's deposit. -/
theorem replies_promised_deposited :
    Sample.clients <+: (Sample.after Sample.deposits).data.clients ∧
      Promised Sample.keys Sample.clients (Sample.after Sample.deposits).data.clients
        Sample.depositRequest (.ok (.balances [⟨"USDT", "1000"⟩])) :=
  (replies_promised Sample.deposited_reached).1 _ (List.mem_singleton_self _) _ rfl

end

end MiniOpenFX
