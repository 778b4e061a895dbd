import MiniOpenFX.Guarantees.Pagination
import MiniOpenFX.Guarantees.Growth
import MiniOpenFX.Web.TradeHistoryPage

/-!
# The trade history screen on the running system

A client has the history screen open, clicks, closes it and opens it again, while any calls go on;
requests and responses are on their way for any time, and may be lost (`HistoryWorld.Step`). The
buttons of the component are locked while a response is awaited, so the list shown is always that of
one walk (`HistoryWorld.Sound`): the client's trades, strictly descending and none twice, complete
since the first page was read but for the gaps of the cursors (`history_screen`).
-/

namespace MiniOpenFX

open Js Transactional

/-! ## The world around the component -/

/-- The response replaces the list shown. -/
def HistoryOrigin.resets : HistoryOrigin → Bool
  | .mount _ => true
  | .load reset => reset

/-- The component takes the response. Of a mount that has been undone it does not: React mounts a
component twice in strict mode, and the first answer is then ignored. -/
def HistoryOrigin.live : HistoryOrigin → Bool
  | .mount ignore => !ignore
  | .load _ => true

section
variable [DecimalJs]

/-- A response on its way to the component. -/
inductive HistoryAnswer where
  | failed (err : ClientError)
  /-- a page, and how it was fetched -/
  | served (f : Fetch) (page : TradeHistoryPage)

/-- What the client's code makes of the answer once it has gone through JSON. -/
def HistoryAnswer.outcome : HistoryAnswer → Except ClientError TradeHistoryPage
  | .failed err => .error err
  | .served _ page => .ok page

/-- The tables the list was begun with, once the response has arrived: those of the fetch if the
response replaces the list, and the same as before otherwise. -/
def HistoryAnswer.since (r : HistoryRequest) (since : Database) : HistoryAnswer → Database
  | .failed _ => since
  | .served f _ => if r.origin.live && r.origin.resets then f.db else since

/-- The running system and the history screen of a client, with the component's requests on their
way there and back. -/
structure HistoryWorld where
  sys : Sys
  page : HistoryPage
  sent : List HistoryRequest
  answered : List (HistoryRequest × HistoryAnswer)
  /-- the tables that the first page of the list shown was read from -/
  since : Database

namespace HistoryWorld

/-- The component is mounted. -/
def opened (sys : Sys) (strict : Bool) : HistoryWorld :=
  ⟨sys, {}, HistoryPage.mount strict, [], Database.empty⟩

/-- A button is clicked. -/
def click (w : HistoryWorld) (reset : Bool) : HistoryWorld :=
  { w with page := (w.page.load reset).1, sent := w.sent ++ [(w.page.load reset).2] }

/-- A response arrives. -/
def receive (w : HistoryWorld) (r : HistoryRequest) (a : HistoryAnswer)
    (rest : List (HistoryRequest × HistoryAnswer)) : HistoryWorld :=
  { w with
    page := w.page.receive r a.outcome
    answered := rest
    since := a.since r w.since }

/-- The requests that are out. -/
def requests (w : HistoryWorld) : List HistoryRequest := w.sent ++ w.answered.map Prod.fst

variable [JsEngine]

/-- What can happen next. A component that is closed takes its requests with it. -/
inductive Step (clientId : Uuid) : HistoryWorld → HistoryWorld → Prop where
  | system {w : HistoryWorld} {l : Label backend Call} {s : Sys}
      (h : w.sys.step program l = some s) : Step clientId w { w with sys := s }
  | refresh {w : HistoryWorld} (h : w.page.canRefresh) : Step clientId w (w.click true)
  | loadMore {w : HistoryWorld} (h : w.page.canLoadMore) : Step clientId w (w.click false)
  | reopen (w : HistoryWorld) (strict : Bool) : Step clientId w (opened w.sys strict)
  | serve {w : HistoryWorld} {r : HistoryRequest} {L M : List HistoryRequest} {f : Fetch}
      {page : TradeHistoryPage} (hsent : w.sent = L ++ r :: M) (hdb : f.db = w.sys.data)
      (hlimit : f.limit = r.limit) (h : f.answer clientId r.cursor = .ok page) :
      Step clientId w
        { w with sent := L ++ M, answered := (r, .served f page) :: w.answered }
  | fail {w : HistoryWorld} {r : HistoryRequest} {L M : List HistoryRequest}
      (err : ClientError) (hsent : w.sent = L ++ r :: M) : Step clientId w
        { w with sent := L ++ M, answered := (r, .failed err) :: w.answered }
  | arrive {w : HistoryWorld} {r : HistoryRequest} {a : HistoryAnswer}
      {L M : List (HistoryRequest × HistoryAnswer)} (h : w.answered = L ++ (r, a) :: M) :
      Step clientId w (w.receive r a (L ++ M))

/-- `w'` can follow `w`. -/
def Reaches (clientId : Uuid) : HistoryWorld → HistoryWorld → Prop :=
  Relation.ReflTransGen (Step clientId)

/-! ## The invariant -/

/-- The list shown is empty, or that of a walk which began with the tables `since`. Its cursor is
where that walk has come to. -/
inductive Shown (clientId : Uuid) (db since : Database) :
    List TradeResponse → Option String → Prop where
  | empty (begun : since = Database.empty) : Shown clientId db since [] none
  | walk {fs : List Fetch} {pages : List TradeHistoryPage} {cursor : Option String}
      (walk : Walk clientId none fs pages cursor)
      (begun : fs.head?.map Fetch.db = some since)
      (fetched : ∀ f ∈ fs, f.limit = 20 ∧ since.trades <+: f.db.trades ∧
        f.db.trades <+: db.trades) :
      Shown clientId db since (pages.flatMap TradeHistoryPage.trades) cursor

/-- What is known of the requests that are out, and of the list shown: at most one response is
awaited, the buttons are locked while it is, and the list is that of a walk. -/
structure Sound (clientId : Uuid) (w : HistoryWorld) : Prop where
  /-- the component awaits one response, while the buttons are locked, and none otherwise -/
  alone : w.requests.countP (fun r => r.origin.live) = if w.page.loading then 1 else 0
  limits : ∀ r ∈ w.requests, r.limit = 20
  first : ∀ r ∈ w.requests, r.origin.resets → r.cursor = none
  next : ∀ r ∈ w.requests, r.origin.resets = false → r.cursor = w.page.cursor ∧ r.cursor.isSome
  past : w.since.trades <+: w.sys.data.trades
  /-- what is on its way was served since the list shown, unless it replaces it -/
  served : ∀ r f page, (r, HistoryAnswer.served f page) ∈ w.answered →
    f.limit = 20 ∧ f.answer clientId r.cursor = .ok page ∧ f.db.trades <+: w.sys.data.trades ∧
      (r.origin.resets = false → w.since.trades <+: f.db.trades)
  shown : Shown clientId w.sys.data w.since w.page.trades w.page.cursor

/-! ## What a response makes of the component -/

omit [DecimalJs] [JsEngine] in
/-- A request for the next page, which does not begin the list anew, comes from a screen that is
open. -/
theorem live_of_next {o : HistoryOrigin} (h : o.resets = false) : o.live = true := by
  cases o with
  | mount ignore => cases h
  | load reset => rfl

section
omit [DecimalJs] [JsEngine]
variable (p : HistoryPage) {r : HistoryRequest}

/-- What arrives for a screen that has been closed changes nothing. -/
theorem receive_ignored (h : r.origin.live = false) (o : Except ClientError TradeHistoryPage) :
    p.receive r o = p := by
  unfold HistoryPage.receive
  cases horigin : r.origin with
  | mount ignore =>
    rw [horigin] at h
    cases ignore with
    | true => cases o <;> rfl
    | false => cases h
  | load reset => rw [horigin] at h; cases h

/-- After an error the list stays; the buttons are free. -/
theorem receive_error (h : r.origin.live = true) (err : ClientError) :
    p.receive r (.error err) =
      { p with error := some err, loading := false, hasLoaded := true } := by
  unfold HistoryPage.receive
  cases horigin : r.origin with
  | mount ignore =>
    rw [horigin] at h
    cases ignore with
    | true => cases h
    | false => rfl
  | load reset => rfl

/-- A page replaces the list or goes on with it; the buttons are free. What is shown of a page does
not depend on when it arrives. -/
theorem receive_ok (h : r.origin.live = true) (page : TradeHistoryPage) :
    p.receive r (.ok page) = { p with
      trades := if r.origin.resets then page.trades else p.trades ++ page.trades
      cursor := page.nextCursor, loading := false, hasLoaded := true } := by
  unfold HistoryPage.receive
  cases horigin : r.origin with
  | mount ignore =>
    rw [horigin] at h
    cases ignore with
    | true => cases h
    | false => rfl
  | load reset => cases reset <;> rfl

end

/-! ## Steps keep the invariant -/

section
variable {clientId : Uuid} {w : HistoryWorld}

/-- The component that is mounted awaits its first page, with the buttons locked. In strict mode a
second request is out, whose response will be ignored. -/
theorem sound_opened (sys : Sys) (strict : Bool) : Sound clientId (opened sys strict) := by
  have hmem : ∀ r ∈ (opened sys strict).requests,
      r.limit = 20 ∧ r.cursor = none ∧ r.origin.resets = true := by
    intro r hr
    cases strict with
    | true =>
      rcases List.mem_cons.mp hr with rfl | hr
      · exact ⟨rfl, rfl, rfl⟩
      · rw [List.mem_singleton.mp hr]
        exact ⟨rfl, rfl, rfl⟩
    | false =>
      rw [List.mem_singleton.mp hr]
      exact ⟨rfl, rfl, rfl⟩
  refine ⟨by cases strict <;> rfl, fun r hr => (hmem r hr).1, fun r hr _ => (hmem r hr).2.1,
    fun r hr h => ?_, List.nil_prefix, fun r f page h => ?_, .empty rfl⟩
  · rw [(hmem r hr).2.2] at h
    cases h
  · cases h

/-- The tables go on. -/
theorem Sound.system (h : Sound clientId w) {s : Sys}
    (hgrows : w.sys.data.trades <+: s.data.trades) :
    Sound clientId { w with sys := s } where
  alone := h.alone
  limits := h.limits
  first := h.first
  next := h.next
  past := h.past.trans hgrows
  served r f page hr := by
    obtain ⟨hlimit, hanswer, hpast, hsince⟩ := h.served r f page hr
    exact ⟨hlimit, hanswer, hpast.trans hgrows, hsince⟩
  shown := by
    have hshown := h.shown
    dsimp only
    generalize w.page.trades = trades, w.page.cursor = cursor at hshown ⊢
    cases hshown with
    | empty hbegun => exact .empty hbegun
    | walk hwalk hbegun hfs =>
      exact .walk hwalk hbegun fun f hf =>
        ⟨(hfs f hf).1, (hfs f hf).2.1, (hfs f hf).2.2.trans hgrows⟩

/-- While the buttons are free nothing is awaited, and a click awaits one response. So two pages
can never arrive in the wrong order. -/
theorem Sound.click (h : Sound clientId w) (hfree : w.page.loading = false) {reset : Bool}
    (hcursor : reset = false → w.page.cursor.isSome) : Sound clientId (w.click reset) := by
  have hperm : (w.click reset).requests.Perm ((w.page.load reset).2 :: w.requests) := by
    unfold requests HistoryWorld.click
    rw [List.append_assoc]
    exact List.perm_middle
  have hnone : ∀ r ∈ w.requests, r.origin.resets = true := by
    intro r hr
    have halone := h.alone
    rw [hfree, if_neg (by decide), List.countP_eq_zero] at halone
    cases hresets : r.origin.resets with
    | true => rfl
    | false => exact absurd (live_of_next hresets) (halone r hr)
  refine ⟨?_, fun r hr => ?_, fun r hr hresets => ?_, fun r hr hresets => ?_, h.past, h.served,
    h.shown⟩
  · have halone := h.alone
    rw [hfree] at halone
    rw [hperm.countP_eq, List.countP_cons, halone]
    rfl
  · rcases List.mem_cons.mp (hperm.mem_iff.mp hr) with rfl | hr
    · rfl
    · exact h.limits r hr
  · rcases List.mem_cons.mp (hperm.mem_iff.mp hr) with rfl | hr
    · exact if_pos hresets
    · exact h.first r hr hresets
  · rcases List.mem_cons.mp (hperm.mem_iff.mp hr) with rfl | hr
    · have hreset : reset = false := hresets
      subst hreset
      exact ⟨rfl, hcursor rfl⟩
    · rw [hnone r hr] at hresets
      cases hresets

omit [DecimalJs] [JsEngine] in
/-- A request that is answered is still out. -/
theorem requests_answered {r : HistoryRequest} {l₁ l₂ : List HistoryRequest}
    (hsent : w.sent = l₁ ++ r :: l₂) (a : HistoryAnswer) :
    ({ w with sent := l₁ ++ l₂, answered := (r, a) :: w.answered } : HistoryWorld).requests.Perm
      w.requests := by
  unfold requests
  rw [hsent, List.map_cons, List.append_assoc, List.append_assoc, List.cons_append]
  exact List.perm_middle.append_left l₁

/-- What answers a request was served from the tables as they are. They can go on while the
response travels; the walk remembers which they were. -/
theorem Sound.answer (h : Sound clientId w) {r : HistoryRequest} {l₁ l₂ : List HistoryRequest}
    (hsent : w.sent = l₁ ++ r :: l₂) {a : HistoryAnswer}
    (ha : ∀ f page, a = .served f page → f.db = w.sys.data ∧ f.limit = r.limit ∧
      f.answer clientId r.cursor = .ok page) :
    Sound clientId { w with sent := l₁ ++ l₂, answered := (r, a) :: w.answered } := by
  have hperm := requests_answered hsent a
  refine ⟨hperm.countP_eq _ ▸ h.alone, fun r hr => h.limits r (hperm.mem_iff.mp hr),
    fun r hr => h.first r (hperm.mem_iff.mp hr), fun r hr => h.next r (hperm.mem_iff.mp hr), h.past,
    fun r' f page hr => ?_, h.shown⟩
  rcases List.mem_cons.mp hr with heq | hr
  · cases heq
    obtain ⟨hdb, hlimit, hanswer⟩ := ha f page rfl
    have hout : r ∈ w.requests :=
      List.mem_append_left _ (hsent ▸ List.mem_append_right _ (.head _))
    rw [hdb]
    exact ⟨hlimit.trans (h.limits r hout), hanswer, List.prefix_refl _, fun _ => h.past⟩
  · exact h.served r' f page hr

/-- A walk goes on by the page below its cursor, whatever tables the fetch finds. -/
theorem walk_concat {cursor e : Option String} {fs : List Fetch} {pages : List TradeHistoryPage}
    (h : Walk clientId cursor fs pages e) {f : Fetch} {page : TradeHistoryPage} (he : e.isSome)
    (answer : f.answer clientId e = .ok page) :
    Walk clientId cursor (fs ++ [f]) (pages ++ [page]) page.nextCursor := by
  induction h with
  | last answer' =>
    obtain ⟨next, hnext⟩ := Option.isSome_iff_exists.mp he
    exact .more answer' hnext (.last (hnext ▸ answer))
  | more answer' hnext _ ih => exact .more answer' hnext (ih he answer)

omit [DecimalJs] [JsEngine] in
/-- A response that arrives leaves the other requests out. -/
theorem requests_received {r : HistoryRequest} {a : HistoryAnswer}
    {l₁ l₂ : List (HistoryRequest × HistoryAnswer)} (hanswered : w.answered = l₁ ++ (r, a) :: l₂) :
    w.requests.Perm (r :: (w.receive r a (l₁ ++ l₂)).requests) := by
  have hmap : (w.answered.map Prod.fst).Perm (r :: (l₁ ++ l₂).map Prod.fst) :=
    hanswered ▸ List.perm_middle.map Prod.fst
  exact (hmap.append_left w.sent).trans List.perm_middle

/-- Where a response that the component takes is out, no other is. The others that are out belong
to a mount that has been undone. -/
theorem Sound.awaited (h : Sound clientId w) {r : HistoryRequest} {rest : List HistoryRequest}
    (hperm : w.requests.Perm (r :: rest)) (hlive : r.origin.live = true) :
    ∀ r' ∈ rest, r'.origin.live = false := by
  have halone := h.alone
  rw [hperm.countP_eq, List.countP_cons, if_pos hlive] at halone
  have hzero : rest.countP (fun r => r.origin.live) = 0 := by
    split at halone <;> omega
  intro r' hr'
  simpa using List.countP_eq_zero.mp hzero r' hr'

/-- The page below the cursor goes on with the list: it is one more page of the same walk. -/
theorem Shown.more {db since : Database} {trades : List TradeResponse} {cursor : Option String}
    (h : Shown clientId db since trades cursor) (hsome : cursor.isSome) {f : Fetch}
    {page : TradeHistoryPage} (answer : f.answer clientId cursor = .ok page)
    (fetched : f.limit = 20 ∧ since.trades <+: f.db.trades ∧ f.db.trades <+: db.trades) :
    Shown clientId db since (trades ++ page.trades) page.nextCursor := by
  cases h with
  | empty => cases hsome
  | @walk fs pages _ hwalk hbegun hfs =>
    have htrades : pages.flatMap TradeHistoryPage.trades ++ page.trades =
        (pages ++ [page]).flatMap TradeHistoryPage.trades := by
      rw [List.flatMap_append, List.flatMap_singleton]
    rw [htrades]
    refine .walk (walk_concat hwalk hsome answer) ?_ fun f' hf' => ?_
    · cases fs with
      | nil => cases hbegun
      | cons f₀ fs => exact hbegun
    · rcases List.mem_append.mp hf' with hf' | hf'
      · exact hfs f' hf'
      · rw [List.mem_singleton.mp hf']
        exact fetched

section
variable {r : HistoryRequest} {a : HistoryAnswer} {l₁ l₂ : List (HistoryRequest × HistoryAnswer)}

omit [DecimalJs] [JsEngine] in
theorem mem_answered (hanswered : w.answered = l₁ ++ (r, a) :: l₂)
    {x : HistoryRequest × HistoryAnswer} (hx : x ∈ l₁ ++ l₂) : x ∈ w.answered :=
  hanswered ▸ List.perm_middle.mem_iff.mpr (.tail _ hx)

/-- A response that is ignored changes nothing. -/
theorem Sound.ignore (h : Sound clientId w) (hanswered : w.answered = l₁ ++ (r, a) :: l₂)
    (hlive : r.origin.live = false) : Sound clientId (w.receive r a (l₁ ++ l₂)) := by
  have hperm := requests_received hanswered
  have hrequests : ∀ r' ∈ (w.receive r a (l₁ ++ l₂)).requests, r' ∈ w.requests :=
    fun r' hr' => hperm.mem_iff.mpr (.tail r hr')
  have hpage : (w.receive r a (l₁ ++ l₂)).page = w.page := receive_ignored w.page hlive _
  have hsince : (w.receive r a (l₁ ++ l₂)).since = w.since := by
    cases a with
    | failed err => rfl
    | served f page => exact if_neg (by simp [hlive])
  refine ⟨?_, fun r' hr' => h.limits r' (hrequests r' hr'),
    fun r' hr' => h.first r' (hrequests r' hr'), fun r' hr' => ?_, ?_, fun r' f page hr' => ?_, ?_⟩
  · rw [hpage, ← h.alone, hperm.countP_eq, List.countP_cons, hlive]
    rfl
  · rw [hpage]
    exact h.next r' (hrequests r' hr')
  · rw [hsince]
    exact h.past
  · rw [hsince]
    exact h.served r' f page (mem_answered hanswered hr')
  · rw [hsince, hpage]
    exact h.shown

/-- With nothing awaited any more, only the list that is shown is left to look at. -/
theorem Sound.idle (h : Sound clientId w) (hanswered : w.answered = l₁ ++ (r, a) :: l₂)
    (hlive : r.origin.live = true) {p : HistoryPage} {since : Database} (hfree : p.loading = false)
    (hpast : since.trades <+: w.sys.data.trades)
    (hshown : Shown clientId w.sys.data since p.trades p.cursor) :
    Sound clientId ⟨w.sys, p, w.sent, l₁ ++ l₂, since⟩ := by
  have hperm : w.requests.Perm
      (r :: (⟨w.sys, p, w.sent, l₁ ++ l₂, since⟩ : HistoryWorld).requests) :=
    requests_received hanswered
  have hrequests : ∀ r' ∈ (⟨w.sys, p, w.sent, l₁ ++ l₂, since⟩ : HistoryWorld).requests,
      r' ∈ w.requests := fun r' hr' => hperm.mem_iff.mpr (.tail r hr')
  have hidle := h.awaited hperm hlive
  have hresets : ∀ r' ∈ (⟨w.sys, p, w.sent, l₁ ++ l₂, since⟩ : HistoryWorld).requests,
      r'.origin.resets ≠ false := fun r' hr' hr =>
    absurd ((live_of_next hr).symm.trans (hidle r' hr')) (by decide)
  refine ⟨?_, fun r' hr' => h.limits r' (hrequests r' hr'),
    fun r' hr' => h.first r' (hrequests r' hr'), fun r' hr' hr => absurd hr (hresets r' hr'), hpast,
    fun r' f page hr' => ?_, hshown⟩
  · rw [hfree, if_neg (by decide), List.countP_eq_zero]
    exact fun r' hr' => Bool.eq_false_iff.mp (hidle r' hr')
  · obtain ⟨hlimit, hanswer, hpast, -⟩ := h.served r' f page (mem_answered hanswered hr')
    refine ⟨hlimit, hanswer, hpast, fun hr => absurd hr (hresets r' ?_)⟩
    exact List.mem_append_right _ (List.mem_map_of_mem (f := Prod.fst) hr')

/-- A response that is taken frees the buttons; the list is still of one walk. By cases: an error
leaves the list, a page begins it anew or goes on with it. -/
theorem Sound.take (h : Sound clientId w) (hanswered : w.answered = l₁ ++ (r, a) :: l₂)
    (hlive : r.origin.live = true) : Sound clientId (w.receive r a (l₁ ++ l₂)) := by
  have hmem : (r, a) ∈ w.answered := hanswered ▸ List.mem_append_right _ (.head _)
  have hout : r ∈ w.requests := (requests_received hanswered).mem_iff.mpr (.head _)
  cases a with
  | failed err =>
    unfold HistoryWorld.receive
    rw [HistoryAnswer.outcome, receive_error w.page hlive err]
    exact h.idle hanswered hlive rfl h.past h.shown
  | served f page =>
    obtain ⟨hlimit, hanswer, hpast, hsince⟩ := h.served r f page hmem
    unfold HistoryWorld.receive
    rw [HistoryAnswer.outcome, receive_ok w.page hlive page, HistoryAnswer.since, hlive]
    cases hresets : r.origin.resets with
    | true =>
      rw [h.first r hout hresets] at hanswer
      have hshown : Shown clientId w.sys.data f.db ([page].flatMap TradeHistoryPage.trades)
          page.nextCursor := by
        refine .walk (.last hanswer) rfl fun f' hf' => ?_
        rw [List.mem_singleton.mp hf']
        exact ⟨hlimit, List.prefix_refl _, hpast⟩
      rw [List.flatMap_singleton] at hshown
      exact h.idle hanswered hlive rfl hpast hshown
    | false =>
      obtain ⟨hcursor, hsome⟩ := h.next r hout hresets
      rw [hcursor] at hanswer hsome
      refine h.idle hanswered hlive rfl h.past ?_
      exact h.shown.more hsome hanswer ⟨hlimit, hsince hresets, hpast⟩

end

end

/-! ## What is shown -/

variable {clientId : Uuid} {clients : List ClientRow} {e : Surroundings}

omit [JsEngine] in
/-- A step of the system adds trades behind those there are. -/
theorem trades_of_step {s s' : Sys} {l : Label backend Call}
    (h : State.Reaches program (Sys.start clients e) s) (hst : s.step program l = some s') :
    s.data.trades <+: s'.data.trades := by
  obtain ⟨eff, he, hdata, -⟩ := effect_of_step (isolated_of_reaches h) hst
  exact hdata ▸ ((records_of_reaches h).grows he).trades

/-- **One step** keeps the screen sound, whether the system moves, a request is sent or served, or
a response arrives. -/
theorem Sound.step {w w' : HistoryWorld} (h : Sound clientId w)
    (hsys : State.Reaches program (Sys.start clients e) w.sys) (hstep : Step clientId w w') :
    Sound clientId w' ∧ State.Reaches program (Sys.start clients e) w'.sys := by
  cases hstep with
  | system hst => exact ⟨h.system (trades_of_step hsys hst), hsys.tail hst⟩
  | refresh hfree =>
    refine ⟨h.click ?_ fun hr => ?_, hsys⟩
    · simpa [HistoryPage.canRefresh] using hfree
    · cases hr
  | loadMore hmore =>
    obtain ⟨hcursor, hfree⟩ := Bool.and_eq_true_iff.mp hmore
    refine ⟨h.click ?_ fun _ => ?_, hsys⟩
    · simpa using hfree
    · cases hc : w.page.cursor with
      | none =>
        rw [hc] at hcursor
        cases hcursor
      | some c => rfl
  | reopen strict => exact ⟨sound_opened w.sys strict, hsys⟩
  | serve hsent hdb hlimit hanswer =>
    refine ⟨h.answer hsent fun f page heq => ?_, hsys⟩
    cases heq
    exact ⟨hdb, hlimit, hanswer⟩
  | fail err hsent => exact ⟨h.answer hsent fun f page heq => (by cases heq), hsys⟩
  | @arrive r a l₁ l₂ hanswered =>
    cases hlive : r.origin.live with
    | false => exact ⟨h.ignore hanswered hlive, hsys⟩
    | true => exact ⟨h.take hanswered hlive, hsys⟩

/-- The screen stays sound however things go on, by induction on the steps of screen and system
together. -/
theorem sound_of_reaches {s : Sys} (hs : State.Reaches program (Sys.start clients e) s)
    {strict : Bool} {w : HistoryWorld} (h : Reaches clientId (opened s strict) w) :
    Sound clientId w ∧ State.Reaches program (Sys.start clients e) w.sys := by
  induction h with
  | refl => exact ⟨sound_opened s strict, hs⟩
  | tail _ hstep ih => exact ih.1.step ih.2 hstep

omit [DecimalJs] [JsEngine] in
/-- Cursors differ only where cuts do. -/
theorem cursor_of_cut {l l' : TradeRow Timestamp} (h : l.cut = l'.cut) : l.cursor = l'.cursor := by
  obtain ⟨hmicros, hid⟩ := Prod.mk.inj (toLex_inj.mp h)
  have hms : l.createdAt.micros / 1000 = l'.createdAt.micros / 1000 := by omega
  have hdate : l.createdAt.toDate = l'.createdAt.toDate := by
    unfold Timestamp.toDate
    simp only [hms]
  rw [TradeRow.cursor, TradeRow.cursor, hdate, hid]

/-- What the screen says about the client's trades: `rows` are listed, newest first, each once, and
of what is missing it is said why. -/
structure Shows (clientId : Uuid) (w : HistoryWorld) (rows : List (TradeRow Timestamp)) : Prop where
  listed : w.page.trades = rows.map TradeRow.response
  /-- newest first, and none twice -/
  descending : Keyset.Descending TradeRow.keyset rows
  stored : ∀ t ∈ rows, t ∈ w.sys.data.trades ∧ t.clientId = clientId
  past : w.since.trades <+: w.sys.data.trades
  cursor : ∀ c, w.page.cursor = some c → ∃ l, rows.getLast? = some l ∧ c = l.cursor
  /-- what there was when the list was begun is listed, shares its millisecond with a trade that is
  listed above it, or is still to be loaded -/
  complete : ∀ t ∈ w.since.trades, t.clientId = clientId → t ∈ rows ∨
    (∃ l ∈ rows, l.cut ≤ t.keyset ∧ t.keyset < l.keyset) ∨
    ∃ l, rows.getLast? = some l ∧ w.page.cursor = some l.cursor ∧ t.keyset < l.cut

/-- The list of a walk is what its pages return, and so what is known of walks
(`history_descending`) is known of the screen. -/
theorem shows_of_shown {w : HistoryWorld} (hids : w.sys.data.TradeIdsDistinct)
    (hpast : w.since.trades <+: w.sys.data.trades)
    (h : Shown clientId w.sys.data w.since w.page.trades w.page.cursor) :
    ∃ rows, Shows clientId w rows := by
  generalize htrades : w.page.trades = trades, hcursor : w.page.cursor = cursor at h
  cases h with
  | empty hbegun =>
    refine ⟨[], htrades, List.Pairwise.nil, fun t ht => (by cases ht), hpast, fun c hc => ?_,
      fun t ht => ?_⟩
    · cases hcursor.symm.trans hc
    · rw [hbegun] at ht
      cases ht
  | @walk fs pages cursor hwalk hbegun hfs =>
    have hfids : ∀ f ∈ fs, f.db.TradeIdsDistinct := fun f hf =>
      hids.sublist ((hfs f hf).2.2.sublist.map TradeRow.id)
    have hlimit : ∀ f ∈ fs, 1 ≤ f.limit := fun f hf => (hfs f hf).1 ▸ by decide
    obtain ⟨rows, last, hk, he, hpages⟩ := hwalk.keyset hfids hlimit rfl
    have hd : ∀ s ∈ fs.map fun f => f.source clientId,
        Keyset.Descending TradeRow.keyset s.rows := by
      intro s hs
      obtain ⟨f, hf, rfl⟩ := List.mem_map.mp hs
      exact Database.tradesBelow_descending (hfids f hf)
    have hlast : ∀ k, last.map TradeRow.cut = some k →
        ∃ l, rows.flatten.getLast? = some l ∧ k = l.cut ∧ cursor = some l.cursor := by
      intro k hlk
      obtain ⟨l, hl, rfl⟩ := hk.last_row hlk
      obtain ⟨l', rfl, hcut⟩ := Option.map_eq_some_iff.mp hlk
      exact ⟨l, hl, rfl, by rw [he, Option.map_some, cursor_of_cut hcut]⟩
    refine ⟨rows.flatten, htrades.trans hpages.trades, hk.descending hd TradeRow.cut_le,
      fun t ht => ?_, hpast, fun c hc => ?_, fun t ht hown => ?_⟩
    · obtain ⟨f, hf, hst, hown⟩ := hpages.stored t ht
      exact ⟨(hfs f hf).2.2.subset hst, hown⟩
    · rw [hcursor, he] at hc
      obtain ⟨l', rfl, rfl⟩ := Option.map_eq_some_iff.mp hc
      obtain ⟨l, hl, -, hlc⟩ := hlast _ rfl
      exact ⟨l, hl, Option.some.inj (he.symm.trans hlc)⟩
    · have hthere : ∀ s ∈ fs.map fun f => f.source clientId, 1 ≤ s.limit ∧ t ∈ s.rows := by
        intro s hs
        obtain ⟨f, hf, rfl⟩ := List.mem_map.mp hs
        refine ⟨hlimit f hf, Database.mem_tradesBelow.mpr ⟨(hfs f hf).2.1.subset ht, hown, ?_⟩⟩
        exact fun k hk => by cases hk
      rcases hk.covers hd (fun s hs => (hthere s hs).1) (fun s hs => (hthere s hs).2)
        (fun k hk => by cases hk) with hin | hgap | ⟨k, hlk, hlt⟩
      · exact .inl hin
      · exact .inr (.inl hgap)
      · obtain ⟨l, hl, rfl, hlc⟩ := hlast k hlk
        exact .inr (.inr ⟨l, hl, hcursor.trans hlc, hlt⟩)

/-- **The history screen on the running system.** Whatever calls are in progress, however requests
and responses are delayed or lost, and whatever is clicked whenever a button can be: the list shown
is that of the client's own stored trades, strictly descending, and complete since it was begun but
for the gaps the cursors leave, as far as it has been loaded. -/
theorem history_screen {s : Sys} (hs : State.Reaches program (Sys.start clients e) s)
    {strict : Bool} {w : HistoryWorld} (h : Reaches clientId (opened s strict) w) :
    ∃ rows, Shows clientId w rows := by
  obtain ⟨hsound, hsys⟩ := sound_of_reaches hs h
  exact shows_of_shown (records_of_reaches hsys).tradeIds hsound.past hsound.shown

end HistoryWorld

end

section
open scoped Reference

namespace Sample

/-- The first request of the screen. -/
def firstPage : HistoryRequest := ⟨.mount false, 20, none⟩

/-- Alone with the tables after Alice's trade. -/
def fetchTraded : Fetch :=
    ⟨traded.data, surroundings, fun _ => ⟨[], choice quoteId .failed, false⟩, 20⟩

/-- What the server answers a request for a page with, in the tables as they are. -/
def historyAnswer : HistoryAnswer := .served fetchTraded (fetchTraded.pageBelow alice none)

/-- Alice's history screen with its first page on its way. -/
def historyAnswered : HistoryWorld := ⟨traded, {}, [], [(firstPage, historyAnswer)], Database.empty⟩

end Sample

/-- Alice opens the screen after her trade, and the first page arrives. -/
theorem history_screen_loaded : ∃ rows, HistoryWorld.Shows Sample.alice
    (Sample.historyAnswered.receive Sample.firstPage Sample.historyAnswer []) rows := by
  have hanswer : Sample.fetchTraded.answer Sample.alice none =
      .ok (Sample.fetchTraded.pageBelow Sample.alice none) :=
    (Sample.fetchTraded.answer_eq Sample.alice none).trans rfl
  have hserve : HistoryWorld.Step Sample.alice (.opened Sample.traded false)
      Sample.historyAnswered :=
    HistoryWorld.Step.serve (r := Sample.firstPage) (L := []) (M := []) rfl rfl rfl hanswer
  exact HistoryWorld.history_screen Sample.traded_reached (.tail (.single hserve)
    (.arrive (L := []) (M := []) rfl))

end

end MiniOpenFX
