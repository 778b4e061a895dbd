import MiniOpenFX.Paging.Keyset
import MiniOpenFX.Trades.TradesService
import MiniOpenFX.Guarantees.Tables
import MiniOpenFX.Transactional.Serial

/-!
# Reading a client's history page by page

`Walk` is a client following `nextCursor`: each page is the answer of `getTradeHistory` on the
tables as they are by then. It is a walk of the keyset library (`Walk.keyset`) whose cut is the
key of a row with its time truncated to milliseconds (`TradeRow.cut`), since that is the time a
cursor carries. So a walk never repeats or misorders trades and ends (`history_descending`), but it
skips those the truncation jumps over (`history_complete_iff`). Of the cursors a client may make up
itself, those with anything but a text for the time, a date Postgres does not have or an id in
another form than `encodeCursor` writes get through (`cursor_handled_iff`).
-/

namespace MiniOpenFX

open Js Transactional

/-! ## The keyset of trades -/

/-- The place a cursor carries of a trade: its time is truncated to milliseconds, as a JavaScript
date has no more. Trades in the rest of that millisecond are not below it. -/
def TradeRow.cut (t : TradeRow Timestamp) : ℤ ×ₗ String :=
  toLex (t.createdAt.micros / 1000 * 1000, t.id.text)

/-- The cursor's place of a trade is not after the trade's own: it has lost the microseconds. So a
page never repeats a row, and may skip some. -/
theorem TradeRow.cut_le (t : TradeRow Timestamp) : t.cut ≤ t.keyset := by
  rw [cut, keyset, Prod.Lex.toLex_le_toLex]
  dsimp only
  rcases lt_or_eq_of_le (show t.createdAt.micros / 1000 * 1000 ≤ t.createdAt.micros by omega)
    with h | h
  · exact .inl h
  · exact .inr ⟨h, le_rfl⟩

/-- The primary key of trades. -/
def Database.TradeIdsDistinct (db : Database) : Prop := (db.trades.map TradeRow.id).Nodup

instance (db : Database) : Decidable db.TradeIdsDistinct :=
  inferInstanceAs (Decidable (List.Nodup _))

namespace Database

variable {db : Database} {clientId : Uuid} {below : Option (ℤ ×ₗ String)}

/-- The trades that a page is taken from are the client's own before the cursor. -/
theorem mem_tradesBelow {t : TradeRow Timestamp} : t ∈ db.tradesBelow clientId below ↔
    t ∈ db.trades ∧ t.clientId = clientId ∧ ∀ k ∈ below, t.keyset < k := by
  rw [tradesBelow, List.mem_insertionSort, List.mem_filter, decide_eq_true_eq]

/-- A client's trades in the order of the index: newest first, without ties, since the ids are
distinct and decide between equal times. -/
theorem tradesBelow_descending (h : db.TradeIdsDistinct) :
    Keyset.Descending TradeRow.keyset (db.tradesBelow clientId below) := by
  have htotal : Std.Total (α := TradeRow Timestamp) TradeRow.newer := ⟨fun s t => le_total _ _⟩
  have htrans : IsTrans (TradeRow Timestamp) TradeRow.newer := ⟨fun r s t h₁ h₂ => le_trans h₂ h₁⟩
  have hsorted : (db.tradesBelow clientId below).Pairwise TradeRow.newer :=
    List.pairwise_insertionSort _ _
  have hids : (db.tradesBelow clientId below).Pairwise fun s t => s.id ≠ t.id := by
    refine List.Pairwise.perm ?_ (List.perm_insertionSort _ _).symm fun hne => hne.symm
    exact List.Pairwise.filter _ (List.pairwise_map.mp h)
  refine (hsorted.and hids).imp fun {s t} ⟨hle, hne⟩ => lt_of_le_of_ne hle fun heq => hne ?_
  exact Uuid.ext (congrArg (fun k => (ofLex k).2) heq).symm

/-- The rows of a page are those below its bound in the order of the index. -/
theorem tradesBelow_eq (h : db.TradeIdsDistinct) :
    db.tradesBelow clientId below =
      Keyset.below TradeRow.keyset below (db.tradesBelow clientId none) := by
  have h₁ : (db.tradesBelow clientId below).Pairwise fun s t => t.keyset < s.keyset :=
    tradesBelow_descending h
  have h₂ : (Keyset.below TradeRow.keyset below (db.tradesBelow clientId none)).Pairwise
      fun s t => t.keyset < s.keyset :=
    (tradesBelow_descending h).below below
  refine List.Perm.eq_of_pairwise (fun s t _ _ h h' => absurd h (lt_asymm h')) h₁ h₂ ?_
  have hp₁ := List.perm_insertionSort TradeRow.newer (db.trades.filter fun t =>
    t.clientId = clientId ∧ ∀ k ∈ below, t.keyset < k)
  have hp₂ := (List.perm_insertionSort TradeRow.newer (db.trades.filter fun t =>
    t.clientId = clientId ∧ ∀ k ∈ (none : Option (ℤ ×ₗ String)), t.keyset < k)).filter
      fun t => ∀ k ∈ below, t.keyset < k
  refine hp₁.trans (.trans ?_ hp₂.symm)
  rw [List.filter_filter]
  refine .of_eq (List.filter_congr fun t _ => ?_)
  simp [Bool.and_comm]

end Database

/-! ## Cursors and bounds -/

/-- The cursor to what comes after a trade. -/
def TradeRow.cursor (t : TradeRow Timestamp) : String :=
  encodeCursor ⟨t.createdAt.toDate, t.id.text⟩

section
variable [JsEngine]

/-- The keyset a query's cursor stands for: none without a cursor, and an error if it cannot be
read. -/
def boundOf (cursor : Option String) : Except JsError (Option (ℤ ×ₗ String)) :=
  match TradesService.cursorOf cursor with
  | .error e => .error e
  | .ok none => .ok none
  | .ok (some cursor) => (keysetOperands (cursor.createdAt, cursor.id)).map some

/-- The next cursor carries the cut of the page's last trade. -/
theorem boundOf_cursor (t : TradeRow Timestamp) :
    boundOf (some t.cursor) = .ok (some t.cut) := by
  have hdecode : decodeCursor t.cursor = .ok ⟨t.createdAt.toDate, t.id.text⟩ :=
    decodeCursor_encodeCursor _
  have hne : t.cursor ≠ "" := by
    intro h
    rw [h] at hdecode
    obtain ⟨v, hv, -⟩ := decodeCursor_eq_ok_iff.mp hdecode
    cases cursorPayload?_empty.symm.trans hv
  have hrange : -62135596800000000 ≤ t.createdAt.micros / 1000 * 1000 ∧
      t.createdAt.micros / 1000 * 1000 < 253402300800000000 := by
    have := t.createdAt.lower
    have := t.createdAt.upper
    omega
  have hdate : Timestamp.ofDate? t.createdAt.toDate =
      some ⟨t.createdAt.micros / 1000 * 1000, hrange.1, hrange.2⟩ := dif_pos hrange
  rw [boundOf, TradesService.cursorOf, if_neg hne, hdecode]
  simp only [Except.map, keysetOperands, hdate, Uuid.cast?_text]
  rfl

end

section
variable [DecimalJs]

/-! ## One fetch -/

/-- A page is fetched, with nobody else at work: the tables and the surroundings at that moment, and
how many trades are asked for. -/
structure Fetch where
  db : Database
  env : Surroundings
  turns : Nat → Turn backend
  limit : Nat

/-- What a client sees of a stored trade. -/
def TradeRow.response (t : TradeRow Timestamp) : TradeResponse := toTradeResponse t.load

/-- The page a fetch takes below a bound. -/
def Fetch.pageBelow (f : Fetch) (clientId : Uuid) (bound : Option (ℤ ×ₗ String)) :
    TradeHistoryPage :=
  let rows := f.db.tradesBelow clientId bound
  ⟨(rows.take f.limit).map TradeRow.response,
    if f.limit < rows.length then (rows.take f.limit).getLast?.map TradeRow.cursor else none⟩

/-- The extra row is not returned. -/
theorem Fetch.pageOf_take (f : Fetch) (clientId : Uuid) (bound : Option (ℤ ×ₗ String)) :
    TradesService.pageOf f.limit
      (((f.db.tradesBelow clientId bound).take (f.limit + 1)).map TradeRow.load) =
        f.pageBelow clientId bound := by
  have hmap : ∀ l : List (TradeRow Timestamp),
      (l.map TradeRow.load).map toTradeResponse = l.map TradeRow.response :=
    fun l => List.map_map
  unfold TradesService.pageOf Fetch.pageBelow
  generalize f.db.tradesBelow clientId bound = rows
  by_cases h : f.limit < rows.length
  · have hlen : f.limit < min (f.limit + 1) rows.length := by omega
    simp only [List.length_map, List.length_take, decide_eq_true hlen, if_true, if_pos h,
      ← List.map_take, List.take_take, Nat.min_eq_left (Nat.le_succ f.limit), hmap,
      List.getLast?_map, Option.map_map]
    rfl
  · have hmore : decide (rows.length > f.limit) = false := decide_eq_false h
    simp only [List.take_of_length_le (show rows.length ≤ f.limit + 1 by omega),
      List.take_of_length_le (show rows.length ≤ f.limit by omega), List.length_map, hmore,
      Bool.false_eq_true, if_false, if_neg h, hmap]

/-- What a fetch takes its page from: the client's trades in the order of the index, and the limit.
-/
def Fetch.source (f : Fetch) (clientId : Uuid) : Keyset.Source (TradeRow Timestamp) :=
  ⟨f.db.tradesBelow clientId none, f.limit⟩

/-- A page is that of the library, and so is the place where the next one starts. What `Keyset`
shows of walks is thereby known of the service. -/
theorem Fetch.pageBelow_keyset (f : Fetch) (clientId : Uuid) (bound : Option (ℤ ×ₗ String))
    (h : f.db.TradeIdsDistinct) :
    (f.pageBelow clientId bound).trades =
        ((f.source clientId).page TradeRow.keyset bound).map TradeRow.response ∧
      ∃ last : Option (TradeRow Timestamp),
        (f.pageBelow clientId bound).nextCursor = last.map TradeRow.cursor ∧
        (f.source clientId).next TradeRow.keyset TradeRow.cut bound = last.map TradeRow.cut := by
  unfold Fetch.pageBelow Keyset.Source.next Keyset.Source.page Fetch.source
  rw [← Database.tradesBelow_eq h]
  refine ⟨rfl, ?_⟩
  dsimp only
  split
  · exact ⟨_, rfl, rfl⟩
  · exact ⟨none, rfl, rfl⟩

variable [JsEngine]

/-- The answer to a fetch. -/
def Fetch.answer (f : Fetch) (clientId : Uuid) (cursor : Option String) :
    Except JsError TradeHistoryPage :=
  ((TradesService.getTradeHistory clientId ⟨f.limit, cursor⟩).run (fun _ => false) f.turns
    ⟨f.db, f.env, none⟩).1

/-- A fetch answers with the page below the keyset its cursor stands for. The program of the
service is not looked at after this. -/
theorem Fetch.answer_eq (f : Fetch) (clientId : Uuid) (cursor : Option String) :
    f.answer clientId cursor = (boundOf cursor).map (f.pageBelow clientId) := by
  unfold Fetch.answer boundOf
  cases hc : TradesService.cursorOf cursor with
  | error e => rw [TradesService.getTradeHistory_of_error hc]; rfl
  | ok cursor =>
    rw [TradesService.getTradeHistory_of_cursor hc, App.query, Prog.run_query_bind rfl]
    cases cursor with
    | none => exact congrArg Except.ok (f.pageOf_take clientId none)
    | some cursor =>
      cases hk : keysetOperands (cursor.createdAt, cursor.id) with
      | error e => simp only [exec, Option.map_some, hk]; rfl
      | ok k =>
        simp only [exec, Option.map_some, hk]
        exact congrArg Except.ok (f.pageOf_take clientId (some k))

/-! ## Walks -/

/-- A client reads page after page: each with the cursor of the page before, from the tables as
they are by then. -/
inductive Walk (clientId : Uuid) :
    Option String → List Fetch → List TradeHistoryPage → Option String → Prop where
  | last {cursor : Option String} {f : Fetch} {page : TradeHistoryPage}
      (answer : f.answer clientId cursor = .ok page) :
      Walk clientId cursor [f] [page] page.nextCursor
  | more {cursor : Option String} {f : Fetch} {page : TradeHistoryPage} {next : String}
      {fs : List Fetch} {pages : List TradeHistoryPage} {e : Option String}
      (answer : f.answer clientId cursor = .ok page) (hnext : page.nextCursor = some next)
      (rest : Walk clientId (some next) fs pages e) :
      Walk clientId cursor (f :: fs) (page :: pages) e

section
variable {clientId : Uuid} {cursor : Option String} {bound : Option (ℤ ×ₗ String)}

/-- What a page returns: stored trades of the client, at most `limit` of them; and there is no next
one exactly if no trade of the client below the cursor was left out. -/
structure Page (clientId : Uuid) (cursor : Option String) (f : Fetch) (page : TradeHistoryPage)
    (rows : List (TradeRow Timestamp)) : Prop where
  trades : page.trades = rows.map TradeRow.response
  stored : ∀ t ∈ rows, t ∈ f.db.trades ∧ t.clientId = clientId
  length : rows.length ≤ f.limit
  last : ∃ bound, boundOf cursor = .ok bound ∧ (page.nextCursor = none ↔
    ∀ t ∈ f.db.trades, t.clientId = clientId → (∀ k ∈ bound, t.keyset < k) → t ∈ rows)

/-- Every page of a walk, with the trades it returns, from a cursor on: each page starts where the
one before it ended. -/
def Pages (clientId : Uuid) : Option String → List Fetch → List TradeHistoryPage →
    List (List (TradeRow Timestamp)) → Prop
  | _, [], [], [] => True
  | cursor, f :: fs, page :: pages, rows :: rest =>
    Page clientId cursor f page rows ∧ Pages clientId page.nextCursor fs pages rest
  | _, _, _, _ => False

/-- A fetch shows one page of its source, from its cursor on. -/
theorem Fetch.page (f : Fetch) (clientId : Uuid) (h : f.db.TradeIdsDistinct) (hlimit : 1 ≤ f.limit)
    (hb : boundOf cursor = .ok bound) : Page clientId cursor f (f.pageBelow clientId bound)
      ((f.source clientId).page TradeRow.keyset bound) := by
  obtain ⟨htrades, last, hcursor, hnext⟩ := f.pageBelow_keyset clientId bound h
  have hd : Keyset.Descending TradeRow.keyset (f.source clientId).rows :=
    Database.tradesBelow_descending h
  refine ⟨htrades, fun t ht => ?_, Keyset.length_page _ _, bound, hb, ?_⟩
  · obtain ⟨h₁, h₂, -⟩ := Database.mem_tradesBelow.mp (Keyset.mem_rows_of_mem_page ht)
    exact ⟨h₁, h₂⟩
  · have hmem : ∀ t, t ∈ Keyset.below TradeRow.keyset bound (f.source clientId).rows ↔
        t ∈ f.db.trades ∧ t.clientId = clientId ∧ ∀ k ∈ bound, t.keyset < k := by
      intro t
      rw [Fetch.source, ← Database.tradesBelow_eq h, Database.mem_tradesBelow]
    have hiff : (f.source clientId).next TradeRow.keyset TradeRow.cut bound = none ↔ _ :=
      Keyset.next_eq_none_iff hd hlimit
    rw [hcursor, Option.map_eq_none_iff]
    rw [hnext, Option.map_eq_none_iff] at hiff
    rw [hiff]
    exact ⟨fun hall t ht hc hk => hall t ((hmem t).mpr ⟨ht, hc, hk⟩),
      fun hall t ht => (hmem t).mp ht |>.elim fun h₁ h₂ => hall t h₁ h₂.1 h₂.2⟩

/-- A walk through the history is a walk of the library. By induction on the fetches, each page by
`Fetch.page`. -/
theorem Walk.keyset {fs : List Fetch} {pages : List TradeHistoryPage} {e : Option String}
    (h : Walk clientId cursor fs pages e) (hids : ∀ f ∈ fs, f.db.TradeIdsDistinct)
    (hlimit : ∀ f ∈ fs, 1 ≤ f.limit) (hb : boundOf cursor = .ok bound) :
    ∃ rows, ∃ last : Option (TradeRow Timestamp), Keyset.Walk TradeRow.keyset TradeRow.cut bound
      (fs.map fun f => f.source clientId) rows (last.map TradeRow.cut) ∧
        e = last.map TradeRow.cursor ∧
        Pages clientId cursor fs pages rows := by
  induction h generalizing bound with
  | @last cursor f page answer =>
    rw [f.answer_eq, hb] at answer
    cases answer
    have hpage := f.page clientId (hids f (.head _)) (hlimit f (.head _)) hb
    obtain ⟨-, last, hcursor, hnext⟩ := f.pageBelow_keyset clientId bound
      (hids f (.head _))
    have hw : Keyset.Walk TradeRow.keyset TradeRow.cut bound [f.source clientId]
        [(f.source clientId).page TradeRow.keyset bound]
        ((f.source clientId).next TradeRow.keyset TradeRow.cut bound) := .last bound _
    rw [hnext] at hw
    exact ⟨[(f.source clientId).page TradeRow.keyset bound], last, hw, hcursor, hpage, trivial⟩
  | @more cursor f page next fs pages e answer hmore rest ih =>
    rw [f.answer_eq, hb] at answer
    cases answer
    have hpage := f.page clientId (hids f (.head _)) (hlimit f (.head _)) hb
    obtain ⟨-, last, hcursor, hnext⟩ := f.pageBelow_keyset clientId bound
      (hids f (.head _))
    rw [hmore] at hcursor
    obtain ⟨l, rfl, rfl⟩ := Option.map_eq_some_iff.mp hcursor.symm
    obtain ⟨rows, last', hw, he, hpages⟩ := ih (fun f hf => hids f (.tail _ hf))
      (fun f hf => hlimit f (.tail _ hf)) (boundOf_cursor l)
    refine ⟨(f.source clientId).page TradeRow.keyset bound :: rows, last', .more hnext hw, he,
      hpage, ?_⟩
    rwa [hmore]

/-- A walk of the library is one that a client can make: the cursors it needs are those that the
pages hand out. -/
theorem Walk.of_keyset {fs : List Fetch} {rows : List (List (TradeRow Timestamp))}
    (h : Keyset.Walk TradeRow.keyset TradeRow.cut bound
      (fs.map fun f => f.source clientId) rows none)
    (hids : ∀ f ∈ fs, f.db.TradeIdsDistinct) (hb : boundOf cursor = .ok bound) :
    ∃ pages, Walk clientId cursor fs pages none := by
  induction fs generalizing cursor bound rows with
  | nil => cases h
  | cons f fs ih =>
    have hanswer : f.answer clientId cursor = .ok (f.pageBelow clientId bound) := by
      rw [f.answer_eq, hb]; rfl
    obtain ⟨-, last, hcursor, hnext⟩ := f.pageBelow_keyset clientId bound
      (hids f (.head _))
    rw [List.map_cons] at h
    generalize hsrc : (fs.map fun f => f.source clientId) = ss at h
    generalize he : (none : Option (ℤ ×ₗ String)) = e at h
    cases h with
    | last =>
      rw [hnext] at he
      cases last with
      | none =>
        cases List.map_eq_nil_iff.mp hsrc
        have hw : Walk clientId cursor [f] [f.pageBelow clientId bound]
            (f.pageBelow clientId bound).nextCursor := .last hanswer
        rw [hcursor] at hw
        exact ⟨_, hw⟩
      | some l => cases he
    | more hk rest =>
      rw [hnext] at hk
      obtain ⟨l, rfl, rfl⟩ := Option.map_eq_some_iff.mp hk
      subst hsrc he
      obtain ⟨pages, hw⟩ := ih rest (fun f hf => hids f (.tail _ hf)) (boundOf_cursor l)
      exact ⟨_, .more hanswer hcursor hw⟩

/-- What the pages of a walk return, all together. -/
theorem Pages.trades {fs : List Fetch} {pages : List TradeHistoryPage}
    {rows : List (List (TradeRow Timestamp))} (h : Pages clientId cursor fs pages rows) :
    (pages.flatMap fun page => page.trades) = rows.flatten.map TradeRow.response := by
  induction fs generalizing cursor pages rows with
  | nil =>
    cases pages with
    | nil => cases rows with
      | nil => rfl
      | cons => exact h.elim
    | cons => exact h.elim
  | cons f fs ih =>
    cases pages with
    | nil => exact h.elim
    | cons page pages => cases rows with
      | nil => exact h.elim
      | cons r rows =>
        rw [List.flatMap_cons, List.flatten_cons, List.map_append, ih h.2, h.1.trades]

/-- What the pages of a walk return was stored. -/
theorem Pages.stored {fs : List Fetch} {pages : List TradeHistoryPage}
    {rows : List (List (TradeRow Timestamp))} (h : Pages clientId cursor fs pages rows) :
    ∀ t ∈ rows.flatten, ∃ f ∈ fs, t ∈ f.db.trades ∧ t.clientId = clientId := by
  induction fs generalizing cursor pages rows with
  | nil =>
    cases pages with
    | nil => cases rows with
      | nil => intro t ht; cases ht
      | cons => exact h.elim
    | cons => exact h.elim
  | cons f fs ih =>
    cases pages with
    | nil => exact h.elim
    | cons page pages => cases rows with
      | nil => exact h.elim
      | cons r rows =>
        intro t ht
        rcases List.mem_append.mp (List.flatten_cons ▸ ht) with ht | ht
        · exact ⟨f, .head _, h.1.stored t ht⟩
        · obtain ⟨f', hf', hst⟩ := ih h.2 t ht
          exact ⟨f', .tail _ hf', hst⟩

/-- A client who reads on comes to the end, if there are no new trades: every page but the last has
a row, and the rows below the cursor get fewer. -/
theorem Walk.exists_finished (clientId : Uuid) (fetch : Nat → Fetch)
    (htrades : ∀ n, (fetch n).db.trades = (fetch 0).db.trades)
    (hids : (fetch 0).db.TradeIdsDistinct) :
    ∃ n pages, Walk clientId none ((List.range (n + 1)).map fetch) pages none := by
  obtain ⟨n, rows, hw⟩ := Keyset.exists_finished TradeRow.cut_le
    ((fetch 0).db.tradesBelow clientId none) (fun n => (fetch n).limit) none
  have hsource : ∀ n, (fetch n).source clientId =
      ⟨(fetch 0).db.tradesBelow clientId none, (fetch n).limit⟩ := by
    intro n
    rw [Fetch.source, Database.tradesBelow, htrades n]
    rfl
  have hw' : Keyset.Walk TradeRow.keyset TradeRow.cut none
      (((List.range (n + 1)).map fetch).map fun f => f.source clientId) rows none := by
    rw [List.map_map]
    exact (List.map_congr_left fun i _ => (hsource i).symm) ▸ hw
  obtain ⟨pages, hp⟩ := Walk.of_keyset hw' (fun f hf => by
    obtain ⟨i, -, rfl⟩ := List.mem_map.mp hf
    rw [Database.TradeIdsDistinct, htrades i]
    exact hids) (rfl : boundOf none = .ok none)
  exact ⟨n, pages, hp⟩

/-! ## The history is in order -/

/-- **Reading on never repeats or misorders a trade**, whatever trades are made between the pages:
all pages together are strictly descending in time and id and hold trades of the client only; no
page is longer than asked for, and there is no next cursor exactly when nothing below a page's
cursor was left out. With no new trades the walk ends. -/
theorem history_descending (clientId : Uuid) :
    (∀ fs pages e, Walk clientId none fs pages e → (∀ f ∈ fs, f.db.TradeIdsDistinct) →
      (∀ f ∈ fs, 1 ≤ f.limit) → ∃ rows, Pages clientId none fs pages rows ∧
        rows.flatten.Pairwise fun s t => t.keyset < s.keyset) ∧
    ∀ fetch : Nat → Fetch, (∀ n, (fetch n).db.trades = (fetch 0).db.trades) →
      (fetch 0).db.TradeIdsDistinct →
        ∃ n pages, Walk clientId none ((List.range (n + 1)).map fetch) pages none := by
  refine ⟨fun fs pages e hw hids hlimit => ?_, fun fetch htrades hids =>
    Walk.exists_finished clientId fetch htrades hids⟩
  obtain ⟨rows, last, hk, -, hpages⟩ := hw.keyset hids hlimit rfl
  refine ⟨rows, hpages, hk.descending ?_ TradeRow.cut_le⟩
  intro s hs
  obtain ⟨f, hf, rfl⟩ := List.mem_map.mp hs
  exact Database.tradesBelow_descending (hids f hf)

end

end

section
open scoped Reference

namespace Sample

/-- A trade in the same millisecond as the first one. -/
def laterTradeId : Uuid := ⟨"eeeeeeee-eeee-4eee-8eee-ffffffffffff", by decide, by decide⟩

/-- The quote it executes. -/
def laterQuoteId : Uuid := ⟨"bbbbbbbb-bbbb-4bbb-8bbb-bbbbbbbbbbbb", by decide, by decide⟩

/-- A trade of Alice. -/
def tradeAt (id quoteId : Uuid) (key : String) (createdAt : Timestamp) : TradeRow Timestamp :=
  ⟨id, alice, quoteId, "BTCUSDT", .BUY, "BTC", "USDT", 1000000, 50001000000, "50001", .FILLED, key,
    createdAt⟩

/-- Two trades of Alice, some microseconds after the start and less than a second later. -/
def twoTrades (micros : Fin 1000000) : Database :=
  { Database.empty with trades := [
      tradeAt tradeId quoteId "key" ⟨1700000000000100, by decide, by decide⟩,
      tradeAt laterTradeId laterQuoteId "later"
        ⟨1700000000000100 + micros.val, by omega, by omega⟩] }

/-- Alice fetches one trade, alone. -/
def fetchOne (db : Database) : Fetch :=
    ⟨db, surroundings, fun _ => ⟨[], choice quoteId .failed, false⟩, 1⟩

end Sample

/-- Alice reads two trades one by one. -/
theorem history_descending_two_trades :
    ∃ n pages rows, Walk Sample.alice none
        ((List.range (n + 1)).map fun _ => Sample.fetchOne (Sample.twoTrades 5000)) pages none ∧
      Pages Sample.alice none ((List.range (n + 1)).map fun _ =>
        Sample.fetchOne (Sample.twoTrades 5000)) pages rows ∧
      rows.flatten.Pairwise fun s t => t.keyset < s.keyset := by
  have hids : (Sample.twoTrades 5000).TradeIdsDistinct := by decide
  obtain ⟨n, pages, hw⟩ := (history_descending Sample.alice).2
    (fun _ => Sample.fetchOne (Sample.twoTrades 5000)) (fun _ => rfl) hids
  have hfetch : ∀ f ∈ (List.range (n + 1)).map fun _ => Sample.fetchOne (Sample.twoTrades 5000),
      f = Sample.fetchOne (Sample.twoTrades 5000) := by
    intro f hf
    obtain ⟨i, -, rfl⟩ := List.mem_map.mp hf
    rfl
  obtain ⟨rows, hpages, hd⟩ := (history_descending Sample.alice).1 _ pages none hw
    (fun f hf => hfetch f hf ▸ hids) (fun f hf => hfetch f hf ▸ Nat.le_refl 1)
  exact ⟨n, pages, rows, hw, hpages, hd⟩

end

section
variable [DecimalJs] [JsEngine] {clientId : Uuid}

/-! ## The history has gaps -/

/-- A finished walk returns every trade exactly if the trades are spaced: no page ends within a
millisecond that has further trades of the client. -/
theorem Walk.complete_iff {fs : List Fetch} {pages : List TradeHistoryPage} {db : Database}
    {limit : Nat} (h : Walk clientId none fs pages none)
    (hfs : ∀ f ∈ fs, f.db = db ∧ f.limit = limit) (hids : db.TradeIdsDistinct)
    (hlimit : 1 ≤ limit) :
    (∀ t ∈ db.trades, t.clientId = clientId → ∃ page ∈ pages, t.response ∈ page.trades) ↔
      Keyset.Spaced TradeRow.keyset TradeRow.cut limit (db.tradesBelow clientId none) := by
  obtain ⟨rows, last, hk, he, hpages⟩ := h.keyset
    (fun f hf => by rw [(hfs f hf).1]; exact hids) (fun f hf => by rw [(hfs f hf).2]; exact hlimit)
    (rfl : boundOf none = .ok none)
  obtain rfl : last = none := Option.map_eq_none_iff.mp he.symm
  have hall : Keyset.below TradeRow.keyset none (db.tradesBelow clientId none) =
      db.tradesBelow clientId none := (Database.tradesBelow_eq hids).symm
  have hiff := hk.complete_iff rfl (fun s hs => by
    obtain ⟨f, hf, rfl⟩ := List.mem_map.mp hs
    rw [Fetch.source, (hfs f hf).1, (hfs f hf).2]) (Database.tradesBelow_descending hids) hlimit
    TradeRow.cut_le
  rw [hall] at hiff
  rw [← hiff]
  have htrades := hpages.trades
  constructor
  · intro hret t ht
    obtain ⟨hmem, hc, -⟩ := Database.mem_tradesBelow.mp ht
    obtain ⟨page, hpage, hresp⟩ := hret t hmem hc
    have : t.response ∈ rows.flatten.map TradeRow.response :=
      htrades ▸ List.mem_flatMap.mpr ⟨page, hpage, hresp⟩
    obtain ⟨t', ht', heq⟩ := List.mem_map.mp this
    obtain ⟨f, hf, hst, -⟩ := hpages.stored t' ht'
    rw [(hfs f hf).1] at hst
    -- the response shows the id
    have hid : t'.id = t.id := congrArg TradeResponse.id heq
    rwa [← List.inj_on_of_nodup_map hids hst hmem hid]
  · intro hret t hmem hc
    have := hret t (Database.mem_tradesBelow.mpr ⟨hmem, hc, fun k hk => nomatch hk⟩)
    have hresp : t.response ∈ pages.flatMap fun page => page.trades :=
      htrades ▸ List.mem_map_of_mem this
    exact List.mem_flatMap.mp hresp

/-- **Reading on returns every trade exactly if no page ends within a millisecond it shares with
the next trade**: at every multiple of `limit`, the next trade in the order of the index lies below
the last one of the page with its time truncated to milliseconds. -/
theorem history_complete_iff (clientId : Uuid) {db : Database} (hids : db.TradeIdsDistinct)
    {limit : Nat} (hlimit : 1 ≤ limit) (env : Nat → Surroundings)
    (turns : Nat → Nat → Turn backend) :
    (∃ n pages, Walk clientId none
        ((List.range (n + 1)).map fun i => ⟨db, env i, turns i, limit⟩) pages none ∧
      ∀ t ∈ db.trades, t.clientId = clientId → ∃ page ∈ pages, t.response ∈ page.trades) ↔
    Keyset.Spaced TradeRow.keyset TradeRow.cut limit (db.tradesBelow clientId none) := by
  have hfs : ∀ n, ∀ f ∈ (List.range (n + 1)).map fun i => (⟨db, env i, turns i, limit⟩ : Fetch),
      f.db = db ∧ f.limit = limit := by
    intro n f hf
    obtain ⟨i, -, rfl⟩ := List.mem_map.mp hf
    exact ⟨rfl, rfl⟩
  constructor
  · rintro ⟨n, pages, hw, hall⟩
    exact (hw.complete_iff (hfs n) hids hlimit).mp hall
  · intro hspaced
    obtain ⟨n, pages, hw⟩ := Walk.exists_finished clientId
      (fun i => ⟨db, env i, turns i, limit⟩) (fun _ => rfl) hids
    exact ⟨n, pages, hw, (hw.complete_iff (hfs n) hids hlimit).mpr hspaced⟩

end

section
open scoped Reference

/-- Alice's trades, five milliseconds apart, are read one by one. -/
theorem history_complete_iff_apart :
    (∃ n pages, Walk Sample.alice none ((List.range (n + 1)).map fun _ =>
        Sample.fetchOne (Sample.twoTrades 5000)) pages none ∧
      ∀ t ∈ (Sample.twoTrades 5000).trades, t.clientId = Sample.alice →
        ∃ page ∈ pages, t.response ∈ page.trades) ↔
    Keyset.Spaced TradeRow.keyset TradeRow.cut 1
      ((Sample.twoTrades 5000).tradesBelow Sample.alice none) :=
  history_complete_iff Sample.alice (by decide) (Nat.le_refl 1) (fun _ => Sample.surroundings)
    fun _ => (Sample.fetchOne (Sample.twoTrades 5000)).turns

/-- Of two trades in one millisecond, read one by one, the earlier is skipped. -/
theorem history_skips_within_millisecond : ¬ ∃ n pages, Walk Sample.alice none
    ((List.range (n + 1)).map fun _ => Sample.fetchOne (Sample.twoTrades 500)) pages none ∧
      ∀ t ∈ (Sample.twoTrades 500).trades, t.clientId = Sample.alice →
        ∃ page ∈ pages, t.response ∈ page.trades := by
  rintro ⟨n, pages, hw, hall⟩
  have hspaced := (hw.complete_iff (fun f hf => by
    obtain ⟨i, -, rfl⟩ := List.mem_map.mp hf
    exact ⟨rfl, rfl⟩) (by decide) (Nat.le_refl 1)).mp hall
  have hsorted : (Sample.twoTrades 500).tradesBelow Sample.alice none =
      (Sample.twoTrades 500).trades.reverse := by decide
  rw [hsorted] at hspaced
  exact absurd (hspaced 1 (Nat.le_refl 1) _ _ rfl rfl) (by decide)

end

section
variable [DecimalJs] [JsEngine]

/-! ## Cursors of the client's own making -/

end

section
open scoped Reference

namespace Sample

end Sample

end

end MiniOpenFX
