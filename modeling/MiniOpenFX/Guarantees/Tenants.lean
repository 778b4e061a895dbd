import MiniOpenFX.Guarantees.TwinRuns
import MiniOpenFX.Guarantees.Growth

/-!
# Tenants

What a client is told, and what becomes of its rows, depends on nothing of other clients. Two
systems that agree on everything of a client's (`AgreeOn`) serve any requests of the client, one
after the other, with the same replies, and leave the same rows of the client (`tenant_isolation`):
a quote that another client has in one of them, and that does not exist in the other, makes no
difference. Calls of other clients, in any interleaving, leave the client's rows alone
(`others_leave_rows`).
-/

namespace MiniOpenFX

open Js Transactional

/-! ## Bob's quote -/

namespace Sample

open scoped Reference

/-- A second client. -/
def bob : Uuid := ⟨"b0bb0bb0-b0bb-4b0b-8b0b-b0bb0bb0bb0b", by decide, by decide⟩

/-- Bob's call makes a quote, as thread 1, while Redis does not store anything. -/
def bobQuotes : List (Label backend Call) :=
  .spawn (.createQuote bob ⟨"BTC", "USDT", .BUY, "0.01"⟩) :: acts 1 1 smallQuoteId ++
    [asks 1 exchangeInfo, .interrupt 1] ++ acts 1 1 smallQuoteId ++ [asks 1 bookTicker] ++
    acts 1 2 smallQuoteId ++ [.interrupt 1] ++ acts 1 3 smallQuoteId ++ [.interrupt 1] ++
    acts 1 1 smallQuoteId

/-- A system of Alice and Bob. -/
def twoTenants : Sys :=
  ((Sys.start [⟨alice, "Alice"⟩, ⟨bob, "Bob"⟩] surroundings).exec program
    (deposits ++ bobQuotes)).getD (Sys.start [] surroundings)

/-- Bob's quote is a run of the system of Alice and Bob. -/
theorem twoTenants_reached : State.Reaches program
    (Sys.start [⟨alice, "Alice"⟩, ⟨bob, "Bob"⟩] surroundings) twoTenants := by
  have hrun : ((Sys.start [⟨alice, "Alice"⟩, ⟨bob, "Bob"⟩] surroundings).exec program
      (deposits ++ bobQuotes)).isSome := by decide +kernel
  obtain ⟨s, hs⟩ := Option.isSome_iff_exists.mp hrun
  exact .of_exec (by rw [twoTenants, hs, Option.getD_some])

/-- Nothing but these keys has been written. -/
def setsOnly (keys : List String) (ℓ : History) : Bool := ℓ.all fun
  | .ext (.redisSet key _ _) _ => keys.contains key
  | _ => true

/-- The cache is empty if the keys written are: whatever is in the cache some call has put there.
-/
theorem cache_eq_none {clients : List ClientRow} {s : Sys}
    (h : State.Reaches program (Sys.start clients surroundings) s) (keys : List String)
    (hsets : s.threads.all fun t => setsOnly keys t.log) (hkeys : keys.all fun key =>
      (s.env.cache key).isNone) (key : String) : s.env.cache key = none := by
  cases hentry : s.env.cache key with
  | none => rfl
  | some entry =>
    obtain ⟨t, ht, ttlMs, r, hm⟩ := set_of_cache (fun _ => rfl) h hentry
    have hkey := List.all_eq_true.mp (List.all_eq_true.mp hsets t ht) _ hm
    have hnone := List.all_eq_true.mp hkeys key (by simpa using hkey)
    rw [hentry] at hnone
    cases hnone

end Sample

section
variable [DecimalJs] [JsEngine]

/-! ## A client's session -/

/-- The requests of a client. -/
inductive Operation where
  | createDeposit (dto : CreateDepositDto)
  | createQuote (dto : CreateQuoteDto)
  | getQuoteById (id : String)
  | executeTrade (dto : CreateTradeDto) (rawIdempotencyKey : String)
  | getBalances
  | getTradeHistory (query : GetTradesQueryDto)

/-- What a request is answered with. -/
inductive Reply where
  | response (response : Response)
  | history (page : TradeHistoryPage)
  deriving DecidableEq

/-- The program that serves a request. -/
def Operation.program (clientId : Uuid) : Operation → App Reply
  | .createDeposit dto => do
    return .response (.balances (← BalancesService.createDeposit clientId dto))
  | .createQuote dto => do return .response (.quote (← QuotingService.createQuote clientId dto))
  | .getQuoteById id => do return .response (.quote (← QuotingService.getQuoteById clientId id))
  | .executeTrade dto key => do
    return .response (.trade (← TradingService.executeTrade clientId dto key))
  | .getBalances => do return .response (.balances (← BalancesService.getBalances clientId))
  | .getTradeHistory query => do return .history (← TradesService.getTradeHistory clientId query)

/-- Serve one request with nobody else at work: the reply, and what it leaves. -/
def Operation.serve (clientId : Uuid) (p : Seen backend) (op : Operation) (τ : Nat → Turn backend) :
    Except JsError Reply × Seen backend :=
  let (r, w) := (op.program clientId).runCalm τ ⟨p.data, p.env, none⟩
  (r, w.seen)

/-- Serve the requests of a client one after the other, each with the surroundings its turns bring,
and collect the replies. -/
def session (clientId : Uuid) :
    Seen backend → List (Operation × (Nat → Turn backend)) →
      List (Except JsError Reply) × Seen backend
  | p, [] => ([], p)
  | p, (op, τ) :: ops =>
    let (r, p) := op.serve clientId p τ
    let (rs, p) := session clientId p ops
    (r :: rs, p)

namespace Sample

/-- Alice asks for Bob's quote, tries to execute it, deposits and looks at her balances. -/
def aliceAsks : List (Operation × (Nat → Turn backend)) :=
  [(.getQuoteById smallQuoteId.text, serves tradeId),
    (.executeTrade ⟨smallQuoteId.text⟩ "key", serves tradeId),
    (.createDeposit ⟨"BTC", "2"⟩, serves tradeId), (.getBalances, serves tradeId)]

end Sample

/-! ## Two of them -/

/-- Another client has a quote of this id in one of the two. In the other the id may be free; the
client must not notice. -/
def ForeignIn (c : Uuid) (p p' : Seen backend) (u : Uuid) : Prop :=
  p.data.HasForeign c u ∨ p'.data.HasForeign c u

/-- The systems have the same of a client: its rows, the clock, and the cache but for the quotes of
others. -/
structure AgreeOn (c : Uuid) (p p' : Seen backend) : Prop where
  rows : SameRows c p.data p'.data
  now : p.env.now = p'.env.now
  ttl : p.env.priceCacheTtlMs = p'.env.priceCacheTtlMs
  cache : ∀ key, (∀ id u, key = quoteCacheKey id → Uuid.ofText? id = some u →
    ¬ ForeignIn c p p' u) →
    p.env.cache key = p'.env.cache key

/-- New ids are in use in neither system, and a read of a quote of others takes no time: there, only
one of the systems may have to go to Postgres. -/
def Fair (c : Uuid) : Seen backend → Seen backend → List (Operation × (Nat → Turn backend)) → Prop
  | _, _, [] => True
  | p, p', (op, τ) :: ops =>
    (∀ n, Unused p.data p'.data (τ n).choice.uuid) ∧
    (∀ id u, op = .getQuoteById id → Uuid.ofText? id = some u → ForeignIn c p p' u →
      ∀ n, (τ (n + 1)).moves = []) ∧
    Fair c (op.serve c p τ).2 (op.serve c p' τ).2 ops

/-- Systems between two requests: the same rows of the client, sound tables, and surroundings that
differ in cached quotes of others only. -/
structure Matched (c : Uuid) (F : Uuid → Prop) (p p' : Seen backend) : Prop where
  data : Twinned c F p.data p'.data
  env : Alike c F p.env p'.env

section
variable {c : Uuid} {F : Uuid → Prop} {p p' : Seen backend}

/-- A request that `Twin` walks through: with nothing failing, the two runs answer alike and leave
matched systems. -/
theorem Matched.serve_of_twin (h : Matched c F p p') {op : Operation} {τ : Nat → Turn backend}
    (unused : ∀ n, Unused p.data p'.data (τ n).choice.uuid)
    (htwin : (op.program c).Twin (fun χ : Choice => Unused p.data p'.data χ.uuid) (Alike c F)
      (fun _ u => Parted c F u) (Twins.outside (B := backend) p.data p'.data)) :
    (op.serve c p τ).1 = (op.serve c p' τ).1 ∧
      Matched c F (op.serve c p τ).2 (op.serve c p' τ).2 := by
  have hstart : (Twins.outside (B := backend) p.data p'.data).Are (Alike c F)
      ⟨p.data, p.env, none⟩ ⟨p'.data, p'.env, none⟩ := ⟨rfl, rfl, rfl, rfl, h.env⟩
  obtain ⟨u, hr, ⟨hu, htwin⟩, hw⟩ := htwin.run (fun he => he.now) hstart unused (fun _ => rfl)
    fun n e e' he => he.env rfl
  have hseen : ∀ {w : World backend}, w.tx.map Tx.stamp = u.stamp → w.data = w.view := by
    intro w hstamp
    rw [hu, Option.map_eq_none_iff] at hstamp
    rw [World.view, hstamp]
  have hview := Prod.mk.inj hw.view
  have hdata : (op.serve c p τ).2.data = u.view.1 := (hseen hw.stamp).trans hview.1.symm
  have hdata' : (op.serve c p' τ).2.data = u.view.2 := (hseen hw.stamp').trans hview.2.symm
  exact ⟨hr, hdata ▸ hdata' ▸ htwin, hw.env⟩

/-- Two matched systems serve a request alike, and are matched afterwards. The one request `Twin`
does not walk through is a read of a foreign quote, which both refuse. -/
theorem Matched.serve (h : Matched c F p p') {op : Operation} {τ : Nat → Turn backend}
    (unused : ∀ n, Unused p.data p'.data (τ n).choice.uuid)
    (still : ∀ id u, op = .getQuoteById id → Uuid.ofText? id = some u → ForeignIn c p p' u →
      ∀ n, (τ (n + 1)).moves = []) :
    (op.serve c p τ).1 = (op.serve c p' τ).1 ∧
      Matched c F (op.serve c p τ).2 (op.serve c p' τ).2 := by
  have hA : ∀ χ : Choice, Unused p.data p'.data χ.uuid → Unused p.data p'.data χ.uuid := fun _ => id
  have hreply : ∀ {α : Type} {x : App α} {f : α → Reply}, x.Twin
      (fun χ : Choice => Unused p.data p'.data χ.uuid) (Alike c F) (fun _ u => Parted c F u)
      (Twins.outside (B := backend) p.data p'.data) →
      (x.bind fun a => .done (.ok (f a))).Twin (fun χ : Choice => Unused p.data p'.data χ.uuid)
        (Alike c F)
        (fun _ u => Parted c F u) (Twins.outside (B := backend) p.data p'.data) :=
    fun hx => hx.bind (fun _ _ hu => hu) fun _ _ hu => hu
  cases op with
  | createDeposit dto => exact h.serve_of_twin unused (hreply (createDeposit_twin h.data dto))
  | createQuote dto => exact h.serve_of_twin unused (hreply (createQuote_twin h.data hA dto))
  | executeTrade dto key =>
      exact h.serve_of_twin unused (hreply (executeTrade_twin h.data hA dto key))
  | getBalances => exact h.serve_of_twin unused (hreply (getBalances_twin h.data))
  | getTradeHistory query =>
      exact h.serve_of_twin unused (hreply (getTradeHistory_twin h.data query))
  | getQuoteById id =>
    by_cases hid : ∀ u, Uuid.ofText? id = some u → ¬ F u
    · exact h.serve_of_twin unused (hreply (getQuoteById_twin h.data hid))
    · push Not at hid
      obtain ⟨u, hid, hu⟩ := hid
      have hmoves := still id u rfl hid ((h.data.foreign u).mp hu)
      have hstill : ∀ n e, (τ (n + 1)).env e = e := fun n e => by rw [Turn.env, hmoves]; rfl
      have henv := h.env.env (t := τ 0) rfl
      obtain ⟨e₁, hrun, he⟩ := runCalm_getQuoteById_foreign hid (d := p.data) (e := p.env)
        (fun q hq => h.data.not_owned hu hq)
        (fun value hv => henv.foreign id u value hid hu (.inl hv)) hstill
      obtain ⟨e₂, hrun', he'⟩ := runCalm_getQuoteById_foreign hid (d := p'.data) (e := p'.env)
        (fun q hq => h.data.symm.not_owned hu hq)
        (fun value hv => henv.foreign id u value hid hu (.inr hv)) hstill
      have hserve : ∀ {d : Database} {e e₁ : Surroundings},
        (QuotingService.getQuoteById c id).runCalm
          τ ⟨d, e, none⟩ = (.error (.notFoundException s!"Quote \"{id}\" not found"),
            ⟨d, e₁, none⟩) →
          (Operation.getQuoteById id).serve c ⟨d, e⟩ τ =
            (.error (.notFoundException s!"Quote \"{id}\" not found"), ⟨d, e₁⟩) := by
        intro d e e₁ hrun
        have hmap := Prog.run_map (F := fun _ => false) (fun r => Reply.response (.quote r))
          (QuotingService.getQuoteById c id) τ ⟨d, e, none⟩
        rw [show Prog.run _ _ _ _ = _ from hrun] at hmap
        exact congrArg (fun r => (r.1, r.2.seen)) hmap
      rw [hserve hrun, hserve hrun']
      refine ⟨rfl, h.data, ?_⟩
      have hleft : Alike c F e₁ ((τ 0).env p'.env) := by
        rcases he with rfl | ⟨entry, hentry, rfl⟩
        · exact henv
        · exact henv.putForeign hid hu hentry
      rcases he' with rfl | ⟨entry, hentry, rfl⟩
      · exact hleft
      · exact (hleft.symm.putForeign hid hu hentry).symm

/-- Two matched systems serve a client alike. By induction on the requests, with `Matched.serve`
for each. -/
theorem Matched.session {ops : List (Operation × (Nat → Turn backend))} (h : Matched c F p p')
    (fair : Fair c p p' ops) : (session c p ops).1 = (MiniOpenFX.session c p' ops).1 ∧
      Matched c F (MiniOpenFX.session c p ops).2 (MiniOpenFX.session c p' ops).2 := by
  induction ops generalizing p p' with
  | nil => exact ⟨rfl, h⟩
  | cons op ops ih =>
    obtain ⟨unused, still, fair⟩ := fair
    obtain ⟨hreply, h⟩ := h.serve unused still
    obtain ⟨hreplies, h⟩ := ih h fair
    exact ⟨congrArg₂ List.cons hreply hreplies, h⟩

omit [JsEngine] in
/-- Two reachable states that agree on a client's rows are matched: their tables keep the
invariants, and their caches have only copies of quotes. -/
theorem matched_of_reaches {clients clients' : List ClientRow} {e e' : Surroundings} {s s' : Sys}
    (hcache : ∀ key, e.cache key = none) (hcache' : ∀ key, e'.cache key = none)
    (h : State.Reaches program (Sys.start clients e) s)
    (h' : State.Reaches program (Sys.start clients' e') s') (agree : AgreeOn c s.seen s'.seen) :
    Matched c (ForeignIn c s.seen s'.seen) s.seen s'.seen := by
  have hdata : Twinned c (ForeignIn c s.seen s'.seen) s.data s'.data :=
    ⟨agree.rows, (records_of_reaches h).linked, (records_of_reaches h').linked, fun _ => Iff.rfl⟩
  have hcopy : ∀ {p : Seen backend} {id u value}, Copies p → Uuid.ofText? id = some u →
      (∀ q, p.data.quote? u = some q → q.clientId ≠ c) → p.env.get (quoteCacheKey id) = some value →
        value.Foreign c := by
    intro p id u value hp hid hforeign hget
    rw [Surroundings.get] at hget
    split at hget
    · cases hget
    · next entry hentry =>
      obtain ⟨row, hvalue, spelled, q, hq, hcopy⟩ := hp id entry hentry
      obtain rfl := Option.some.inj (hid.symm.trans spelled)
      refine ⟨row, (Option.some.inj (Option.ite_none_right_eq_some.mp hget).2).symm.trans hvalue,
        ?_⟩
      rcases hcopy with rfl | rfl <;> exact hforeign q hq
  refine ⟨hdata, agree.now, agree.ttl, agree.cache, fun id u value hid hu hv => ?_⟩
  rcases hv with hv | hv
  · exact hcopy (copies_of_reaches hcache h).1 hid (fun q hq => hdata.not_owned hu hq) hv
  · exact hcopy (copies_of_reaches hcache' h').1 hid (fun q hq => hdata.symm.not_owned hu hq) hv

/-- **A client's session tells nothing of others.** Two reachable states, of any two systems that
started with empty caches, that agree on everything of a client's, serve any requests of the client
with the same replies, and leave the same rows of the client. The requests are made one after the
other and nothing fails while they are served; `Fair` has the ids that are drawn be new in both
systems, and the clock stand still while a quote of another client is looked up. -/
theorem tenant_isolation {clients clients' : List ClientRow} {e e' : Surroundings} {s s' : Sys}
    (hcache : ∀ key, e.cache key = none) (hcache' : ∀ key, e'.cache key = none)
    (h : State.Reaches program (Sys.start clients e) s)
    (h' : State.Reaches program (Sys.start clients' e') s') (agree : AgreeOn c s.seen s'.seen)
    {ops : List (Operation × (Nat → Turn backend))} (fair : Fair c s.seen s'.seen ops) :
    (MiniOpenFX.session c s.seen ops).1 = (MiniOpenFX.session c s'.seen ops).1 ∧
      SameRows c (MiniOpenFX.session c s.seen ops).2.data
        (MiniOpenFX.session c s'.seen ops).2.data := by
  obtain ⟨hreplies, hmatched⟩ := (matched_of_reaches hcache hcache' h h' agree).session fair
  exact ⟨hreplies, hmatched.data.rows⟩

end

end

section
open scoped Reference

/-- Alice, where Bob has a quote and where nobody has one: she asks for it, tries to execute it,
deposits and looks at her balances. -/
theorem tenant_isolation_aliceAsks :
    (session Sample.alice (Sample.after Sample.deposits).seen Sample.aliceAsks).1 =
        (session Sample.alice Sample.twoTenants.seen Sample.aliceAsks).1 ∧
      SameRows Sample.alice
        (session Sample.alice (Sample.after Sample.deposits).seen Sample.aliceAsks).2.data
        (session Sample.alice Sample.twoTenants.seen Sample.aliceAsks).2.data := by
  have hreached : State.Reaches program (Sys.start Sample.clients Sample.surroundings)
      (Sample.after Sample.deposits) := Sample.reached (by decide +kernel)
  have hempty := Sample.cache_eq_none hreached [] (by decide +kernel) (by decide +kernel)
  have hempty' := Sample.cache_eq_none Sample.twoTenants_reached
    ["symbol:BTCUSDT", "price:BTCUSDT", "quote:" ++ Sample.smallQuoteId.text] (by decide +kernel)
    (by decide +kernel)
  refine tenant_isolation (fun _ => rfl) (fun _ => rfl) hreached Sample.twoTenants_reached
    ⟨⟨by decide +kernel, by decide +kernel, by decide +kernel, by decide +kernel,
      by decide +kernel⟩,
      by decide +kernel, by decide +kernel, fun key _ => (hempty key).trans (hempty' key).symm⟩ ?_
  have hstill : ∀ n, (Sample.serves Sample.tradeId (n + 1)).moves = [] := fun _ => rfl
  refine ⟨fun n => ?_, fun _ _ _ _ _ => hstill, fun n => ?_, fun _ _ _ _ _ => hstill, fun n => ?_,
    fun _ _ _ _ _ => hstill, fun n => ?_, fun _ _ _ _ _ => hstill, trivial⟩
  all_goals
    change Unused _ _ Sample.tradeId
    decide +kernel

end

/-! ## Calls of others -/

section
variable [DecimalJs]

/-- The client the call is of. -/
def Call.client? : Call → Option Uuid
  | .seed | .getPrice _ => none
  | .getBalances c | .createDeposit c _ | .createQuote c _ | .getQuoteById c _
  | .executeTrade c _ _ => some c

section
variable {c : Uuid} {d : Database}

omit [DecimalJs]

/-- A new row that is not the client's is not among the client's rows. -/
theorem filter_concat_of_not {ρ : Type} {p : ρ → Bool} (l : List ρ) {a : ρ} (h : p a = false) :
    (l ++ [a]).filter p = l.filter p := by simp [List.filter_append, h]

/-- A change of other rows. -/
theorem filter_map_of_not {ρ : Type} {p : ρ → Bool} {f : ρ → ρ} {l : List ρ}
    (hp : ∀ a ∈ l, p (f a) = p a) (hf : ∀ a ∈ l, p a → f a = a) :
    (l.map f).filter p = l.filter p := by
  induction l with
  | nil => rfl
  | cons a l ih =>
    have ih := ih (fun b hb => hp b (.tail _ hb)) fun b hb => hf b (.tail _ hb)
    rw [List.map_cons, List.filter_cons, List.filter_cons, hp a (.head _), ih]
    split
    · next h => rw [hf a (.head _) h]
    · rfl

/-- Tables have the same rows of a client as themselves. -/
theorem SameRows.refl (c : Uuid) (d : Database) : SameRows c d d := ⟨rfl, rfl, rfl, rfl, rfl⟩

/-- Having the same rows of a client goes on from one database to the next. -/
theorem SameRows.trans {d' d'' : Database} (h : SameRows c d d') (h' : SameRows c d' d'') :
    SameRows c d d'' :=
  ⟨h.clients.trans h'.clients, h.balances.trans h'.balances,
    h.ledgerEntries.trans h'.ledgerEntries, h.quotes.trans h'.quotes, h.trades.trans h'.trades⟩

/-- A balance of another client is none of the client's. -/
theorem SameRows.ensureBalance {other : Uuid} (h : other ≠ c) (currency : String) :
    SameRows c d (d.ensureBalance other currency) := by
  unfold Database.ensureBalance
  split
  · exact { refl c d with balances := (filter_concat_of_not _ (by simpa using h)).symm }
  · exact .refl c d

/-- Balances of another client are none of the client's. -/
theorem SameRows.ensureBalances {other : Uuid} (h : other ≠ c) (currencies : List String) :
    SameRows c d (d.ensureBalances other currencies) :=
  Database.ensureBalances_keeps d other currencies (P := SameRows c d) (.refl c d)
    fun _ currency hd => hd.trans (.ensureBalance h currency)

/-- An entry of another client is none of the client's, and moves none of its balances. -/
theorem SameRows.postEntry {entry : LedgerEntryRow} (h : entry.clientId ≠ c) :
    SameRows c d (d.postEntry entry) := by
  have hledger : d.ledgerEntries.filter (·.clientId = c) =
      (d.ledgerEntries ++ [entry]).filter (·.clientId = c) :=
    (filter_concat_of_not _ (by simpa using h)).symm
  unfold Database.postEntry
  split
  · exact ⟨rfl, (filter_concat_of_not _ (by simpa using h)).symm, hledger, rfl, rfl⟩
  · refine ⟨rfl, (filter_map_of_not (fun b _ => ?_) fun b _ hb => ?_).symm, hledger, rfl, rfl⟩
    · split <;> rfl
    · have hb : b.clientId = c := by simpa using hb
      exact if_neg fun hk : b.clientId = entry.clientId ∧ _ => h (hk.1.symm.trans hb)

/-- Entries of other clients are none of the client's, and move none of its balances. -/
theorem SameRows.postEntries {entries : List LedgerEntryRow} (h : ∀ x ∈ entries, x.clientId ≠ c) :
    SameRows c d (d.postEntries entries) :=
  Database.postEntries_keeps d entries (P := SameRows c d) (.refl c d)
    fun _ x hx hd => hd.trans (.postEntry (h x hx))

theorem SameRows.trade {t : TradeRow Timestamp} (h : t.clientId ≠ c) :
    SameRows c d ((Write.trade t).apply d) :=
  { refl c d with trades := (filter_concat_of_not _ (by simpa using h)).symm }

/-- Marking a quote of another client changes none of the client's. -/
theorem SameRows.executed {id : Uuid} (h : ∀ q ∈ d.quotes, q.id = id → q.clientId ≠ c) :
    SameRows c d ((Write.executed id).apply d) := by
  refine { refl c d with quotes := (filter_map_of_not (fun q _ => ?_) fun q hq hqc => ?_).symm }
  · split <;> rfl
  · exact if_neg fun hid => h q hq hid (by simpa using hqc)

end

section
variable {c : Uuid} {d : Database}

/-- What a call of another client brings about leaves the client's rows alone. By cases on the
effect; a trade is of a quote of the one who calls. -/
theorem SameRows.effect {call : Call} {e : Effect} (hd : Records d) (he : e.Allowed d)
    (hc : (d.client? c).isSome) (hby : e.MadeBy call) (hother : call.client? ≠ some c) :
    SameRows c d (e.apply d) := by
  cases e with
  | nothing => exact .refl c d
  | quote row =>
    obtain hby | ⟨row', dto, hrow, rfl⟩ := hby
    · exact hby.elim
    cases hrow
    have hne : row.clientId ≠ c := fun h => hother (congrArg some h)
    exact { refl c d with quotes := (filter_concat_of_not _ (by simpa using hne)).symm }
  | deposit clientId currency amountMinor depositId =>
    obtain ⟨dto, rfl, -⟩ | ⟨_, _, hrow, -⟩ := hby
    · have hne : clientId ≠ c := fun h => hother (congrArg some h)
      exact (SameRows.ensureBalance hne currency).trans (.postEntry hne)
    · cases hrow
  | seed client funds =>
    have hne : client.id ≠ c := fun h => by
      rw [← h, he.1] at hc
      cases hc
    have hclient : SameRows c d ((Write.client client).apply d) :=
      { SameRows.refl c d with clients := (filter_concat_of_not _ (by simpa using hne)).symm }
    refine hclient.trans (.postEntries fun x hx => ?_)
    obtain ⟨fund, -, rfl⟩ := List.mem_map.mp hx
    exact hne
  | trade q tradeId key createdAt =>
    obtain ⟨dto, rawKey, rfl, -⟩ | ⟨_, _, hrow, -⟩ := hby
    · have hne : q.clientId ≠ c := fun h => hother (congrArg some h)
      have hdebit : (q.debitEntry tradeId).clientId ≠ c := hne
      have hcredit : (q.creditEntry tradeId).clientId ≠ c := hne
      have htrade : (q.trade tradeId key createdAt).clientId ≠ c := hne
      refine ((((SameRows.ensureBalances hne q.currencies).trans (.postEntry hdebit)).trans
        (.postEntry hcredit)).trans (.trade htrade)).trans (.executed fun x hx hid => ?_)
      have hx : x ∈ d.quotes := by simpa [Write.apply] using hx
      obtain rfl : x = q := Option.some.inj ((hd.quote? hx).symm.trans (hid ▸ he.1))
      exact hne
    · cases hrow

/-- A step in which no call of the client acts leaves its rows alone: the step's effect is made by
a call of somebody else, or by a seed run. -/
theorem SameRows.step {clients : List ClientRow} {e : Surroundings} {s s' : Sys}
    {l : Label backend Call} (h : State.Reaches program (Sys.start clients e) s)
    (hc : (s.data.client? c).isSome) (hst : s.step program l = some s')
    (hothers : ∀ i χ t, l = .run i χ → s.threads[i]? = some t → t.call.client? ≠ some c) :
    SameRows c s.data s'.data := by
  obtain ⟨eff, he, hdata, rfl | ⟨i, χ, t, rfl, hi, hby⟩⟩ :=
    effect_of_step (isolated_of_reaches h) hst
  · rw [hdata]
    exact .refl c _
  · rw [hdata]
    exact .effect (records_of_reaches h) he hc hby (hothers i χ t rfl hi)

/-- A step in which no call of the client acts. -/
def OthersStep (c : Uuid) (s s' : Sys) : Prop :=
  ∃ l, s.step program l = some s' ∧
    ∀ i χ t, l = .run i χ → s.threads[i]? = some t → t.call.client? ≠ some c

/-- **Calls of others leave a client's rows alone.** Whatever calls of other clients, and seed runs,
do from a reachable state on, in any interleaving, the client's rows are the same afterwards. -/
theorem others_leave_rows {clients : List ClientRow} {e : Surroundings} {s s' : Sys}
    (h : State.Reaches program (Sys.start clients e) s) (hc : (s.data.client? c).isSome)
    (hrun : Relation.ReflTransGen (OthersStep c) s s') : SameRows c s.data s'.data := by
  suffices State.Reaches program (Sys.start clients e) s' ∧ SameRows c s.data s'.data from this.2
  induction hrun with
  | refl => exact ⟨h, .refl c _⟩
  | @tail u u' _ hstep ih =>
    obtain ⟨hu, hrows⟩ := ih
    obtain ⟨l, hst, hothers⟩ := hstep
    exact ⟨hu.tail hst, hrows.trans (.step hu (hrows.client? ▸ hc) hst hothers)⟩

end

end

section
open scoped Reference

namespace Sample

/-- Thread 1 is a seed run. -/
def seeds : List (Label backend Call) := .spawn .seed :: acts 1 8 bob

/-- Steps in which no call of Alice acts. -/
def withoutAlice (s : Sys) : List (Label backend Call) → Bool
  | [] => true
  | l :: ls => (match l with
      | .run i _ => s.threads[i]?.all fun t => t.call.client? ≠ some alice
      | _ => true) &&
    match s.step program l with
    | none => false
    | some s' => withoutAlice s' ls

/-- A run in which no call of Alice acts consists of steps of others. -/
theorem othersSteps {s : Sys} {ls : List (Label backend Call)} (h : withoutAlice s ls) :
    ∃ s', s.exec program ls = some s' ∧ Relation.ReflTransGen (OthersStep alice) s s' := by
  induction ls generalizing s with
  | nil => exact ⟨s, rfl, .refl⟩
  | cons l ls ih =>
    simp only [withoutAlice, Bool.and_eq_true] at h
    obtain ⟨hl, h⟩ := h
    cases hst : s.step program l with
    | none => simp [hst] at h
    | some s₁ =>
      simp only [hst] at h
      obtain ⟨s', hexec, hrun⟩ := ih h
      refine ⟨s', by rw [State.exec, hst]; exact hexec, .head ⟨l, hst, ?_⟩ hrun⟩
      rintro i χ t rfl hi
      simpa [hi] using hl

end Sample

/-- Bob's client is made after Alice's deposit. -/
theorem others_leave_rows_seeds : SameRows Sample.alice (Sample.after Sample.deposits).data
    (Sample.after (Sample.deposits ++ Sample.seeds)).data := by
  have hothers : Sample.withoutAlice
    (Sample.after Sample.deposits) Sample.seeds := by decide +kernel
  obtain ⟨s', hexec, hrun⟩ := Sample.othersSteps hothers
  obtain rfl : s' = Sample.after (Sample.deposits ++ Sample.seeds) :=
    Option.some.inj (hexec.symm.trans (Sample.exec_after _ (by decide +kernel)))
  exact others_leave_rows (Sample.reached (by decide +kernel)) (by decide +kernel) hrun

end

end MiniOpenFX
