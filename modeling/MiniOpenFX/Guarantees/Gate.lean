import MiniOpenFX.Guarantees.Contract
import MiniOpenFX.Guarantees.Tenants

/-!
# Keys guard the rows

Nothing that comes in without a client's key changes the client's rows (`rows_need_key`): from any
state of the server on, in any run, if every request that has the key had been answered before, the
rows are the same afterwards, whatever the other requests are.
-/

namespace MiniOpenFX

open Js Transactional

section
variable [DecimalJs]

/-! ## Requests go on -/

/-- How an exchange goes on: once it is answered it does not change, and its request never does. -/
structure Exchange.Later (x x' : Exchange) : Prop where
  request : x'.request = x.request
  answered : x.outcome.isSome → x' = x

namespace Exchange.Later

variable {x x' x'' : Exchange}

omit [DecimalJs]

theorem refl (x : Exchange) : x.Later x := ⟨rfl, fun _ => rfl⟩

/-- What happens to an exchange may happen in two parts. -/
theorem trans (h : x.Later x') (h' : x'.Later x'') : x.Later x'' where
  request := h'.request.trans h.request
  answered ho := by
    obtain rfl := h.answered ho
    exact h'.answered ho

end Exchange.Later

section
variable [JsEngine] {k : Keys} {clients : List ClientRow} {e : Surroundings} {sv sv' : Server}

/-- A step of the server leaves every exchange at its place, with its request and, if it has an
outcome, with that. -/
theorem Server.Step.later (h : sv.Step k sv') {i : Nat} {x : Exchange}
    (hx : sv.exchanges[i]? = some x) : ∃ x', sv'.exchanges[i]? = some x' ∧ x.Later x' := by
  have hlt : i < sv.exchanges.length := (List.getElem?_eq_some_iff.mp hx).1
  have hput : ∀ {j : Nat} {y y' : Exchange}, sv.exchanges[j]? = some y → y.Later y' →
      ∃ x', (sv.exchanges.set j y')[i]? = some x' ∧ x.Later x' := by
    intro j y y' hy hlater
    by_cases hji : j = i
    · subst hji
      cases hx.symm.trans hy
      exact ⟨y', List.getElem?_set_self hlt, hlater⟩
    · exact ⟨x, (List.getElem?_set_ne hji).trans hx, .refl x⟩
  cases h with
  | system => exact ⟨x, hx, .refl x⟩
  | receive request => exact ⟨x, (List.getElem?_append_left hlt).trans hx, .refl x⟩
  | refuse old | guardFails old | accept old | start old | answer old | check _ _ old
  | history _ _ old => exact hput old ⟨rfl, fun h => by cases h⟩

/-- A run of the server leaves every exchange at its place, with its request and, if it has an
outcome, with that. -/
theorem Server.Reaches.later (h : Server.Reaches k sv sv') {i : Nat} {x : Exchange}
    (hx : sv.exchanges[i]? = some x) : ∃ x', sv'.exchanges[i]? = some x' ∧ x.Later x' := by
  induction h with
  | refl => exact ⟨x, hx, .refl x⟩
  | tail _ hst ih =>
    obtain ⟨x', hx', hlater⟩ := ih
    obtain ⟨x'', hx'', hlater'⟩ := hst.later hx'
    exact ⟨x'', hx'', hlater.trans hlater'⟩

omit [DecimalJs] [JsEngine] in
/-- A call serves a route for its own client. -/
theorem Route.Serves.client? {route : Route} {clientId c : Uuid} {call : Call}
    (h : route.Serves clientId (.call call)) (hclient : call.client? = some c) : clientId = c := by
  cases h <;> cases hclient <;> rfl

/-- Every request with the key of the client had been answered before, so all that is under way
comes without it. -/
def Server.Unkeyed (k : Keys) (c : Uuid) (sv sv' : Server) : Prop :=
  ∀ (i : Nat) (x : Exchange), sv'.exchanges[i]? = some x →
    ApiKeyAuthGuard.HasKey k x.request.authorization c →
      ∃ y, sv.exchanges[i]? = some y ∧ y.outcome.isSome

/-- Then no call of the client acts: a call acts for a request that is not answered yet, and that
has the key of its client. -/
theorem Server.Unkeyed.othersAct {u : Server} {c : Uuid} (h : sv.Unkeyed k c u)
    (hu : u.Sound k clients e) (hlater : Server.Reaches k sv u) {l : Label backend Call} {s : Sys}
    (hst : u.sys.step program l = some s) (n : Nat) (χ : Choice)
    (t : Thread backend Call Response) (hl : l = .run n χ) (ht : u.sys.threads[n]? = some t) :
    t.call.client? ≠ some c := by
  intro hclient
  subst hl
  obtain ⟨i, x, hx, hn, ⟨client, -, has, hserves⟩, -⟩ :=
    hu.served ht fun h => by rw [h] at hclient; cases hclient
  obtain rfl := hserves.client? hclient
  obtain ⟨y, hy, hanswered⟩ := h i x hx has
  obtain ⟨x', hx', hsame⟩ := hlater.later hy
  cases hx.symm.trans hx'
  obtain rfl := hsame.answered hanswered
  -- the call has ended
  obtain ⟨r, hdone⟩ := (hu.exchanges i _ hx).finished n hn hanswered t ht
  obtain ⟨t', p, ev, w, ht', hact, -⟩ := State.step_run hst
  cases ht.symm.trans ht'
  rw [hdone] at hact
  cases hact

/-- **Keys guard the rows.** Whatever requests come in from a state of the server on, and however
their calls interleave, fail and crash: if all those with the client's key had been answered before,
the client's rows are the same afterwards. -/
theorem rows_need_key (h₀ : Server.Reaches k (.start (Sys.start clients e)) sv)
    (h : Server.Reaches k sv sv') {c : Uuid} (hc : (sv.sys.data.client? c).isSome)
    (unkeyed : sv.Unkeyed k c sv') : SameRows c sv.sys.data sv'.sys.data := by
  induction h with
  | refl => exact .refl c _
  | @tail u u' hu hst ih =>
    have hbefore : sv.Unkeyed k c u := fun i x hx has => by
      obtain ⟨x', hx', hlater⟩ := hst.later hx
      exact unkeyed i x' hx' (hlater.request ▸ has)
    have hrows := ih hbefore
    have hsound := Server.sound_of_reaches (h₀.trans hu)
    have hc' : (u.sys.data.client? c).isSome := hrows.client? ▸ hc
    cases hst with
    | system hst inner =>
      exact hrows.trans (.step hsound.reached hc' hst (hbefore.othersAct hsound hu hst))
    | start old spawned =>
      exact hrows.trans (.step hsound.reached hc' spawned fun _ _ _ h => by cases h)
    | receive | refuse | guardFails | accept | answer | check | history => exact hrows

end

end

section
open scoped Reference

namespace Sample

/-- Someone who has no key asks for balances. -/
def intrusion : ApiRequest := ⟨some "Bearer guess", .getBalances⟩

/-- The server after Alice's deposit, a seed run and the intrusion. -/
def intruded : Server := ⟨after (deposits ++ seeds), deposited.exchanges ++ [⟨intrusion,
  (after (deposits ++ seeds)).data.clients, none, none,
  some (.error (.unauthorizedException "Invalid API key"))⟩]⟩

/-- The intruder's request is turned away, whoever the clients are. -/
theorem intrusion_refused (rows : List ClientRow) :
    intrusion.handle keys rows = .error (.unauthorizedException "Invalid API key") := by
  have hfind : (rows.find? fun client => keys.compare "guess" (keys.apiKeyHash client.id)) = none :=
    List.find?_eq_none.mpr fun _ _ h => by cases h
  have hkey : ApiKeyAuthGuard.apiKey? intrusion.authorization = some "guess" := rfl
  rw [ApiRequest.handle, if_neg (by decide), ApiKeyAuthGuard.canActivate, hkey]
  dsimp only
  rw [hfind]
  rfl

/-- The intrusion is a run of the server, after Alice's deposit. -/
theorem intruded_reached : Server.Reaches keys deposited intruded := by
  have hseeds : Server.Reaches keys deposited
      ⟨after (deposits ++ seeds), deposited.exchanges⟩ := by
    refine Server.reaches_system (exec_after seeds (by decide +kernel)) (fun l hl c h => ?_) _
    rcases List.mem_cons.mp hl with rfl | hl
    · cases h
      rfl
    · exact not_spawn_of_acts hl c h
  exact .tail (.tail hseeds (.receive intrusion)) (.refuse (i := 1) rfl (intrusion_refused _))

/-- No request with Alice's key is under way during the intrusion. -/
theorem unkeyed_intruded : deposited.Unkeyed keys alice intruded := by
  rintro (_ | _ | i) x hx has
  · exact ⟨_, rfl, rfl⟩
  · cases hx
    obtain ⟨apiKey, hkey, hcompare⟩ := has
    cases hkey.symm.trans (show _ = some "guess" from rfl)
    cases hcompare
  · cases hx

end Sample

/-- Alice's rows after the seed run and the intrusion. -/
theorem rows_need_key_intruded : SameRows Sample.alice (Sample.after Sample.deposits).data
    (Sample.after (Sample.deposits ++ Sample.seeds)).data :=
  rows_need_key Sample.deposited_reached Sample.intruded_reached (by decide +kernel)
    Sample.unkeyed_intruded

end

end MiniOpenFX
