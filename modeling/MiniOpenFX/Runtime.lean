import MiniOpenFX.Transactional.Machine
import MiniOpenFX.Js.Json
import MiniOpenFX.Db.Statements
import MiniOpenFX.Quoting.QuoteMapper

/-!
# What the services run on

`App` is a service's program: statements for Postgres (`Stmt`) and requests to everything else
(`Ext`): the clock, fresh ids, Redis, Binance. `backend` says how each is answered. The clock only
moves forward, cache entries disappear when their time is over or at any moment (`Tick`), and what
Binance answers, which ids are drawn and which of two concurrent failures comes first is up to the
surroundings (`Choice`).
-/

namespace MiniOpenFX

open Js Transactional

/-- A price as the API answers with it; it binds nobody. -/
structure IndicativePrice where
  symbol : String
  bid : String
  ask : String
  timestamp : Int
  source : String
  deriving DecidableEq

/-- The two currencies of a symbol. -/
structure SymbolBreakdown where
  baseCurrency : String
  quoteCurrency : String
  deriving DecidableEq

/-- A JSON value in Redis, by what the services store: `JSON.parse` gives back the value that
`JSON.stringify` wrote. -/
inductive CacheValue where
  | quote (q : CachedQuote)
  | price (p : IndicativePrice)
  | breakdown (b : SymbolBreakdown)
  deriving DecidableEq

/-- What a `fetch` ends with: a status and a body that may not be JSON, the abort of the request's
time limit, or a network failure. -/
inductive FetchOutcome where
  | response (status : Nat) (body : Option Json)
  | aborted
  | failed

/-- The requests to everything but Postgres. -/
inductive Ext where
  | dateNow
  | uuidv4
  /-- the column default `gen_random_uuid()` of the row inserted next -/
  | genRandomUuid
  | priceCacheTtlMs
  | redisGet (key : String)
  | redisSet (key : String) (value : CacheValue) (ttlMs : Int)
  | redisDel (key : String)
  | fetch (endpoint symbol : String)
  /-- which of two concurrent promises that both reject does so first -/
  | firstRejects

/-- What a request is answered with. -/
abbrev ExtRes : Ext → Type
  | .dateNow => Int
  | .uuidv4 | .genRandomUuid => Uuid
  | .priceCacheTtlMs => Nat
  | .redisGet _ => Option CacheValue
  | .redisSet .. | .redisDel _ => Unit
  | .fetch .. => FetchOutcome
  | .firstRejects => Bool

/-- What the services can ask: statements and requests. -/
abbrev sig : Sig := ⟨Stmt, Ext, StmtRes, ExtRes⟩

/-- A service's program. -/
abbrev App (α : Type) := Prog sig JsError α

/-- A cache entry and the moment, in microseconds, from which it is gone. -/
structure CacheEntry where
  value : CacheValue
  expiresAt : Int

/-- Everything but Postgres: the clock, Redis and the configuration. -/
structure Surroundings where
  now : Timestamp
  cache : String → Option CacheEntry
  priceCacheTtlMs : Nat

namespace Surroundings

/-- `Date.now()`. -/
def dateNow (e : Surroundings) : Int := e.now.micros / 1000

/-- The value under a key. -/
def get (e : Surroundings) (key : String) : Option CacheValue :=
  match e.cache key with
  | none => none
  | some entry => if e.now.micros < entry.expiresAt then some entry.value else none

/-- Replace what is under a key. -/
def put (e : Surroundings) (key : String) (entry : Option CacheEntry) : Surroundings :=
  { e with cache := fun k => if k = key then entry else e.cache k }

end Surroundings

/-- What happens on its own: time passes, an entry is evicted. -/
inductive Tick where
  | elapse (micros : Nat)
  | evict (key : String)

/-- What the surroundings choose. -/
structure Choice where
  uuid : Uuid
  fetched : FetchOutcome
  first : Bool
  tick : Tick

/-- The clock after some microseconds; it stops at the end of the year 9999. -/
def Timestamp.advance (t : Timestamp) (micros : Nat) : Timestamp :=
  if h : t.micros + micros < 253402300800000000 then
    ⟨t.micros + micros, by have := t.lower; omega, h⟩
  else t

/-- What the choice lets happen on its own: time passes, or an entry is evicted. -/
def tick (χ : Choice) (e : Surroundings) : Surroundings :=
  match χ.tick with
  | .elapse micros => { e with now := e.now.advance micros }
  | .evict key => e.put key none

/-- What a request is answered with, and what it leaves behind. Only Redis refuses something, a
time to live that is not positive; an answer that gets lost is a step of its own
(`Label.interrupt`). -/
def answer (x : Ext) (χ : Choice) (e : Surroundings) :
    Except JsError (ExtRes x) × Surroundings :=
  match x with
  | .dateNow => (.ok e.dateNow, e)
  | .uuidv4 | .genRandomUuid => (.ok χ.uuid, e)
  | .priceCacheTtlMs => (.ok e.priceCacheTtlMs, e)
  | .redisGet key => (.ok (e.get key), e)
  | .redisSet key value ttlMs =>
    if ttlMs ≤ 0 then (.error (.error "ERR invalid expire time in 'set' command"), e)
    else (.ok (), e.put key (some ⟨value, e.now.micros + ttlMs * 1000⟩))
  | .redisDel key => (.ok (), e.put key none)
  | .fetch .. => (.ok χ.fetched, e)
  | .firstRejects => (.ok χ.first, e)

/-- Postgres and the surroundings. -/
abbrev backend : Backend sig JsError where
  Data := Database
  Write := Write
  Resource := Resource
  Env := Surroundings
  Choice := Choice
  Stamp := Timestamp
  decResource := inferInstance
  apply := Write.apply
  touches := Write.touches
  needs := needs
  exec s _ now db := exec now db s
  stamp e := e.now
  answer := answer
  tick := tick
  broken := .connectionError

namespace App

variable {α β : Type}

/-- A computation that may throw. -/
def ofExcept (r : Except JsError α) : App α := .done r

/-- Run a statement. -/
def query (s : Stmt) : App (StmtRes s) := Prog.query (S := sig) s

/-- Make a request to the surroundings. -/
def request (x : Ext) : App (ExtRes x) := Prog.request (S := sig) x

/-- `Date.now()`. -/
def dateNow : App Int := request .dateNow

/-- `uuidv4()`. -/
def uuidv4 : App Uuid := request .uuidv4

/-- `Promise.all` of two promises: the first rejection is thrown. -/
def promiseAll (p : App α) (q : App β) : App (α × β) := do
  match ← p.attempt, ← q.attempt with
  | .ok a, .ok b => return (a, b)
  | .error e, .ok _ => Prog.fail e
  | .ok _, .error e => Prog.fail e
  | .error e, .error e' =>
    let first : Bool ← request .firstRejects
    if first then Prog.fail e else Prog.fail e'

end App

/-! ## Redis -/

namespace RedisService

variable {α : Type}

/-- A failing command is logged and answered with the fallback. -/
def failSoft (command : App α) (fallback : α) : App α := do
  match ← command.attempt with
  | .ok a => return a
  | .error _ => return fallback

/-- Read from the cache; a failing Redis is a miss. -/
def getJson (key : String) : App (Option CacheValue) := failSoft (App.request (.redisGet key)) none

/-- Write to the cache; a failing Redis loses the value. -/
def setJson (key : String) (value : CacheValue) (ttlMs : Int) : App Unit :=
  failSoft (App.request (.redisSet key value ttlMs)) ()

/-- Delete from the cache; a failing Redis leaves the value there until its time is over. -/
def del (key : String) : App Unit := failSoft (App.request (.redisDel key)) ()

end RedisService

end MiniOpenFX
