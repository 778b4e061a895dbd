import MiniOpenFX.Api.Controllers
import MiniOpenFX.Transactional.Serial

/-!
# The server

The API on the running system (`Server.Step`). A request comes in; the guard reads the clients and
the controllers make of it a call, a page of the history or a check of health; the call runs among
all the others, and its outcome is answered. Any number of requests are under way at once, and the
seed script may run at any time.
-/

namespace MiniOpenFX

open Js Transactional

/-- A request, and how far it has come. -/
structure Exchange where
  request : ApiRequest
  /-- the clients there were when it came in -/
  before : List ClientRow
  /-- what the guard and the controllers have made of it -/
  work : Option Work
  /-- the thread of its call -/
  thread : Option Nat
  outcome : Option (Except Thrown ApiAnswer)

/-- A request that has just come in. -/
def Exchange.arrived (request : ApiRequest) (before : List ClientRow) : Exchange :=
  ⟨request, before, none, none, none⟩

/-- The outcome of a call, as its controller passes it on. -/
def outcomeOf : Except JsError Response → Option (Except Thrown ApiAnswer)
  | .error e => some (.error (.service e))
  | .ok response => response.answer?.map .ok

/-- The outcome of a read of the history. -/
def historyOutcome : Except JsError TradeHistoryPage → Except Thrown ApiAnswer
  | .error e => .error (.service e)
  | .ok page => .ok (.trades page)

section
variable [DecimalJs]

/-- The running system and every request so far. -/
structure Server where
  sys : Sys
  exchanges : List Exchange

namespace Server

/-- No request has come in yet. -/
def start (sys : Sys) : Server := ⟨sys, []⟩

/-- The exchange, replaced. -/
def put (sv : Server) (i : Nat) (x : Exchange) : Server :=
  { sv with exchanges := sv.exchanges.set i x }

variable [JsEngine]

/-- What can happen next. -/
inductive Step (k : Keys) (sv : Server) : Server → Prop where
  | system {l : Label backend Call} {s : Sys} (h : sv.sys.step program l = some s)
      (inner : ∀ c, l = .spawn c → c = .seed) : Step k sv { sv with sys := s }
  | receive (request : ApiRequest) :
      Step k sv
        { sv with exchanges := sv.exchanges ++ [.arrived request sv.sys.data.clients] }
  /-- the guard reads the clients, and it or a controller refuses -/
  | refuse {i : Nat} {request : ApiRequest} {before : List ClientRow} {e : Thrown}
      (h : sv.exchanges[i]? = some (.arrived request before))
      (handled : request.handle k sv.sys.data.clients = .error e) :
      Step k sv (sv.put i ⟨request, before, none, none, some (.error e)⟩)
  /-- the guard cannot read the clients -/
  | guardFails {i : Nat} {request : ApiRequest} {before : List ClientRow} {apiKey : String}
      {e : JsError} (h : sv.exchanges[i]? = some (.arrived request before))
      (guarded : request.route.isPublic = false)
      (hkey : ApiKeyAuthGuard.apiKey? request.authorization = some apiKey)
      (failed : e = .connectionError ∨ ∃ cause, e = .drizzleQueryError cause) :
      Step k sv (sv.put i ⟨request, before, none, none, some (.error (.service e))⟩)
  | accept {i : Nat} {request : ApiRequest} {before : List ClientRow} {work : Work}
      (h : sv.exchanges[i]? = some (.arrived request before))
      (handled : request.handle k sv.sys.data.clients = .ok work) :
      Step k sv (sv.put i ⟨request, before, some work, none, none⟩)
  | start {i : Nat} {request : ApiRequest} {before : List ClientRow} {c : Call} {s : Sys}
      (h : sv.exchanges[i]? = some ⟨request, before, some (.call c), none, none⟩)
      (spawned : sv.sys.step program (.spawn c) = some s) :
      Step k sv ⟨s, sv.exchanges.set i
        ⟨request, before, some (.call c), some sv.sys.threads.length, none⟩⟩
  | answer {i j : Nat} {request : ApiRequest} {before : List ClientRow} {c : Call}
      {t : Thread backend Call Response} {r : Except JsError Response}
      {outcome : Except Thrown ApiAnswer}
      (h : sv.exchanges[i]? = some ⟨request, before, some (.call c), some j, none⟩)
      (ht : sv.sys.threads[j]? = some t) (hr : t.result? = some r)
      (houtcome : outcomeOf r = some outcome) :
      Step k sv (sv.put i ⟨request, before, some (.call c), some j, some outcome⟩)
  | check {i : Nat} {request : ApiRequest} {before : List ClientRow}
      (selectOne : Except JsError Unit) (ping : Except JsError String)
      (h : sv.exchanges[i]? = some ⟨request, before, some .health, none, none⟩) :
      Step k sv (sv.put i
        ⟨request, before, some .health, none, some (HealthController.check selectOne ping)⟩)
  | history {i : Nat} {request : ApiRequest} {before : List ClientRow} {clientId : Uuid}
      {query : GetTradesQueryDto} (fails : Act sig → Bool) (τ : Nat → Turn backend)
      (h : sv.exchanges[i]? =
        some ⟨request, before, some (.history clientId query), none, none⟩) :
      Step k sv (sv.put i ⟨request, before, some (.history clientId query), none,
        some (historyOutcome ((TradesService.getTradeHistory clientId query).run fails τ
          ⟨sv.sys.data, sv.sys.env, none⟩).1)⟩)

/-- `sv'` can follow `sv`. -/
def Reaches (k : Keys) : Server → Server → Prop := Relation.ReflTransGen (Step k)

end Server

end

end MiniOpenFX
