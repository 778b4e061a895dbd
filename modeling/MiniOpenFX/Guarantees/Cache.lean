import MiniOpenFX.Guarantees.Replay

/-!
# Quotes in the cache

Whatever the cache has under the id of a quote is a copy of its row, taken now or before the quote
was executed (`copies_of_reaches`). Once a trade has deleted the key it was called with, no copy
from before is left, if no other spelling of the id has one and nobody is about to write one
(`executed_after_trade`): from then on every read shows the quote as executed.
-/

namespace MiniOpenFX

open Js Transactional

/-! ## A read at the same time as a trade

Alice's quote is evicted from the cache. A call reads its row from Postgres, the trade is committed
and deletes the key, and only then the call puts the row it has read in the cache. -/

namespace Sample

open scoped Reference

/-- The quote is evicted. -/
def evicts : Label backend Call :=
  .tick ⟨quoteId, .failed, true, .evict (quoteCacheKey quoteId.text)⟩

/-- Alice reads the quote. -/
def reads : Label backend Call := .spawn (.getQuoteById alice quoteId.text)

/-- Thread 2 has read the row; thread 3 executes the quote, up to the deletion of the key. What
thread 2 read is from before the trade, and it still has to put it in the cache. -/
def overtaken : List (Label backend Call) :=
  deposits ++ quotes ++ [evicts, reads] ++ acts 2 3 tradeId ++ [executes quoteId.text "key"] ++
    acts 3 16 tradeId

/-- Thread 3 deletes the key. -/
def deletes : Label backend Call := .run 3 (choice tradeId .failed)

/-- Thread 2 puts the row in the cache, and thread 4 reads the quote. -/
def rereads : List (Label backend Call) := acts 2 2 tradeId ++ [reads] ++ acts 4 2 tradeId

/-- Thread 2 executes the quote with nobody else at work, up to the deletion of the key. -/
def trading : List (Label backend Call) :=
  deposits ++ quotes ++ [executes quoteId.text "key"] ++ acts 2 16 tradeId

end Sample

/-! ## Keys -/

/-- Texts have a key each, so that two spellings of one id have two. A trade deletes the key of one
spelling only. -/
theorem quoteCacheKey_inj {id id' : String} : quoteCacheKey id = quoteCacheKey id' ↔ id = id' := by
  simp [quoteCacheKey, ToString.toString, String.ext_iff]

/-- The keys of quotes and of prices differ by their prefixes. -/
theorem quoteCacheKey_ne_priceCacheKey (id symbol : String) :
    quoteCacheKey id ≠ PricingService.priceCacheKey symbol := by
  simp [quoteCacheKey, PricingService.priceCacheKey, ToString.toString, String.ext_iff]

/-- The keys of quotes and of splits differ by their prefixes. -/
theorem quoteCacheKey_ne_symbolCacheKey (id symbol : String) :
    quoteCacheKey id ≠ PricingService.symbolCacheKey symbol := by
  simp [quoteCacheKey, PricingService.symbolCacheKey, ToString.toString, String.ext_iff]

/-- An entry under one key does not show under another. -/
theorem Surroundings.get_put_of_ne {e : Surroundings} {key key' : String}
    {entry : Option CacheEntry}
    (h : key ≠ key') : (e.put key' entry).get key = e.get key := by
  have hcache : (e.put key' entry).cache key = e.cache key := if_neg h
  rw [get, hcache]
  rfl

/-- Plain requests leave the keys of quotes alone. -/
theorem Plain.cache {x : Ext} (hx : Plain x) (χ : Choice) (e : Surroundings) (id : String) :
    (answer x χ e).2.cache (quoteCacheKey id) = e.cache (quoteCacheKey id) := by
  cases x with
  | redisSet key value ttlMs =>
    have hne : quoteCacheKey id ≠ key := by
      cases value with
      | quote cached => exact hx.elim
      | price price =>
        obtain ⟨symbol, rfl⟩ := hx
        exact quoteCacheKey_ne_priceCacheKey id symbol
      | breakdown breakdown =>
        obtain ⟨symbol, rfl⟩ := hx
        exact quoteCacheKey_ne_symbolCacheKey id symbol
    simp only [answer]
    split
    · rfl
    · exact if_neg hne
  | redisDel key => exact hx.elim
  | _ => rfl

/-! ## Copies -/

/-- A copy of a stored quote, taken now or before the quote was executed: the row, or the row with
the status it had while it was active. -/
def QuoteRow.CopyOf (row : QuoteRow Date) (q : QuoteRow Timestamp) : Prop :=
  row = q.load ∨ row = QuoteRow.load { q with status := .ACTIVE }

/-- The row is a copy of a stored quote. What a call has read stays known (`Database.Knows.later`),
though the quote may be executed in the meantime. -/
def Database.Knows (db : Database) (row : QuoteRow Date) : Prop :=
  ∃ q, db.quote? row.id = some q ∧ row.CopyOf q

/-- The call has read or written the row. -/
def History.Saw (ℓ : History) (row : QuoteRow Date) : Prop :=
  (∃ id, Event.sql (S := sig) (.selectQuote id) (.ok (some row)) ∈ ℓ) ∨
    ∃ v, Event.sql (S := sig) (.insertQuote v) (.ok row) ∈ ℓ

/-- A row that a call has seen it has seen in the first or in the second part of its history. -/
theorem History.Saw.append {ℓ ℓ' : History} {row : QuoteRow Date} (h : History.Saw (ℓ ++ ℓ') row) :
    ℓ.Saw row ∨ ℓ'.Saw row := by
  rcases h with ⟨id, hm⟩ | ⟨v, hm⟩ <;> rcases List.mem_append.mp hm with hm | hm
  · exact .inl (.inl ⟨id, hm⟩)
  · exact .inr (.inl ⟨id, hm⟩)
  · exact .inl (.inr ⟨v, hm⟩)
  · exact .inr (.inr ⟨v, hm⟩)

/-- Whatever the cache has under the id of a quote is a copy of its row. The copy may be older than
the row, which is all that a cache can promise here. -/
def Copies (p : Seen backend) : Prop :=
  ∀ id entry, p.env.cache (quoteCacheKey id) = some entry →
    ∃ row, entry.value = .quote (serializeQuote row) ∧ Uuid.ofText? id = some row.id ∧
      p.data.Knows row

/-- The surroundings put nothing in the cache on their own. -/
theorem tick_cache {χ : Choice} {e : Surroundings} {key : String} {entry : CacheEntry}
    (h : (tick χ e).cache key = some entry) : e.cache key = some entry := by
  unfold tick at h
  split at h
  · exact h
  · simp only [Surroundings.put] at h
    split at h
    · cases h
    · exact h

section
variable {q : QuoteRow Timestamp} {row : QuoteRow Date} {db : Database}

theorem Database.knows_load {u : Uuid} (h : db.quote? u = some q) : db.Knows q.load := by
  have hid : q.load.id = u := quote?_id h
  exact ⟨q, hid ▸ h, .inl rfl⟩

/-- What is known of an executed quote, other than a copy from before, is its row. -/
theorem Database.Knows.executed (h : db.Knows row) (hq : db.quote? row.id = some q)
    (hs : row.status = .EXECUTED) : row = q.load := by
  obtain ⟨q', hq', hrow⟩ := h
  cases hq.symm.trans hq'
  rcases hrow with rfl | rfl
  · rfl
  · cases hs

/-- No transaction reads or writes a quote's row as `getQuoteById` and `createQuote` do. So what a
call has seen of quotes it has seen in committed tables. -/
theorem Running.not_saw {ws : List Write} {L : List Resource} {s : Stmt} (h : Running db ws L s) :
    (∀ id, s ≠ .selectQuote id) ∧ ∀ v, s ≠ .insertQuote v := by
  cases h with
  | held moves =>
    constructor
    · rintro id rfl
      exact moves
    · rintro v rfl
      exact moves
  | _ => exact ⟨fun _ h => (nomatch h), fun _ h => (nomatch h)⟩

/-- What a call puts in the cache is a copy of a row it has seen, so the cache keeps having copies
only. -/
theorem Copies.answer {p : Seen backend} {ℓ : History} {x : Ext} (hp : Copies p)
    (hx : Requests p.data ℓ x) (hℓ : ∀ row, ℓ.Saw row → p.data.Knows row) (χ : Choice) :
    Copies ⟨p.data, (answer x χ p.env).2⟩ := by
  intro id entry hentry
  by_cases hplain : Plain x
  · exact hp id entry ((hplain.cache χ p.env id).symm.trans hentry)
  cases x with
  | redisSet key value ttlMs =>
    cases value with
    | quote cached =>
      obtain ⟨id', row, rfl, spelled, holds, rfl⟩ := hx
      simp only [MiniOpenFX.answer] at hentry
      split at hentry
      · exact hp id entry hentry
      · simp only [Surroundings.put, quoteCacheKey_inj] at hentry
        split at hentry
        · next hid =>
          cases hentry
          exact ⟨row, rfl, hid ▸ spelled, hℓ row holds.seen⟩
        · exact hp id entry hentry
    | price | breakdown => exact (hplain hx).elim
  | redisDel key =>
    simp only [MiniOpenFX.answer, Surroundings.put] at hentry
    split at hentry
    · cases hentry
    · exact hp id entry hentry
  | _ => exact (hplain trivial).elim

variable [DecimalJs]

/-- A copy stays one. -/
theorem Database.Knows.later (h : db.Knows row) {db' : Database} (hl : db.Later db') :
    db'.Knows row := by
  refine hl.keeps (P := fun d => d.Knows row) h fun d e _ ⟨q, hq, hrow⟩ => ?_
  rcases Effect.quote?_apply hq e with hq' | hq'
  · exact ⟨q, hq', hrow⟩
  · refine ⟨_, hq', ?_⟩
    obtain ⟨id, c, symbol, side, base, quote, n, price, m, status, expiresAt, createdAt⟩ := q
    cases status with
    | ACTIVE => exact .inr (hrow.elim (fun h => h) fun h => h)
    | EXECUTED => exact hrow

/-! ## Every copy is one -/

variable {clients : List ClientRow} {e : Surroundings} {s : Sys}

/-- Whatever a call sees is known from then on. Only `selectQuote` and `insertQuote` bring a row,
and both bring one of the committed tables. -/
theorem knows_of_act {u : Sys} {i : Nat} {t : Thread backend Call Response} {ev : Event sig JsError}
    {w : World backend} (hu : Isolated isolation rely (fun _ _ => obligations) (fun _ => answers) u)
    (hi : u.threads[i]? = some t) (hw : u.Acts t ev w) (row : QuoteRow Date)
    (hsaw : History.Saw [ev] row) : Database.Knows w.data row := by
  -- such a statement runs outside a transaction, on the committed data
  have houtside : ∀ {st k}, t.prog = .sql st k →
      ((∃ id, st = .selectQuote id) ∨ ∃ v, st = .insertQuote v) → (u.world t).view = u.data ∧
        ∀ L ws, ((u.world t).record L ws).data = u.data.after ws := by
    intro st k hp hst
    obtain ⟨tx, -, hrun⟩ | ⟨htx, -⟩ := hu.sql hi hp
    · obtain ⟨h₁, h₂⟩ := Running.not_saw hrun
      rcases hst with ⟨id, rfl⟩ | ⟨v, rfl⟩
      · exact absurd rfl (h₁ id)
      · exact absurd rfl (h₂ v)
    · exact ⟨by simp [State.world, World.view, htx], fun L ws => by
        simp [World.record, State.world, htx]⟩
  rcases hsaw with ⟨id, hm⟩ | ⟨v, hm⟩
  · obtain rfl := List.mem_singleton.mp hm
    obtain ⟨k, χ, ws, hp, hx, rfl⟩ := hw.sql_ok
    obtain ⟨hview, hdata⟩ := houtside hp (.inl ⟨id, rfl⟩)
    rw [hview] at hx
    have hx : exec (u.world t).stamp u.data (.selectQuote id) = .ok (some row, ws) := hx
    obtain ⟨v, -, hrow, rfl⟩ := exec_selectQuote.mp hx
    obtain ⟨q, hq, rfl⟩ := Option.map_eq_some_iff.mp hrow.symm
    rw [hdata]
    exact Database.knows_load hq
  · obtain rfl := List.mem_singleton.mp hm
    obtain ⟨k, χ, ws, hp, hx, rfl⟩ := hw.sql_ok
    obtain ⟨hview, hdata⟩ := houtside hp (.inr ⟨v, rfl⟩)
    rw [hview] at hx
    have hx : exec (u.world t).stamp u.data (.insertQuote v) = .ok (row, ws) := hx
    obtain ⟨-, expiresAt, -, -, -, hfresh, -, rfl, rfl⟩ := exec_insertQuote.mp hx
    rw [hdata]
    refine Database.knows_load (u := v.id) ?_
    change ((Write.quote _).apply u.data).quote? v.id = _
    rw [quote?_apply_quote, hfresh]
    simp [QuoteValues.row]

/-- **Copies.** Whatever the cache has under the id of a quote is a copy of its row, and so is
whatever a call has seen of one. -/
theorem copies_of_reaches (hcache : ∀ key, e.cache key = none)
    (h : State.Reaches program (Sys.start clients e) s) :
    Copies s.seen ∧ ∀ t ∈ s.threads, ∀ row, History.Saw t.log row → s.data.Knows row := by
  refine h.histories (G := Copies)
    (P := fun _ (ℓ : History) (d : Database) => ∀ row, ℓ.Saw row → d.Knows row)
    verified (isolated_init _ _) ?_ (fun t ht => by cases ht) ?_
    (fun _ _ _ _ hd hP row hrow => (hP row hrow).later hd) ?_ ?_
  · intro id entry hentry
    cases (hcache _).symm.trans hentry
  · rintro c d row (⟨_, hm⟩ | ⟨_, hm⟩) <;> cases hm
  · exact fun χ p hp id entry hentry => hp id entry (tick_cache hentry)
  · intro u i t ev w hu _ hi hG hP hw hd
    constructor
    · rcases hw.env with henv | ⟨x, k, χ, hp, -, hdata, henv⟩
      · intro id entry hentry
        have hentry : w.env.cache (quoteCacheKey id) = some entry := hentry
        rw [henv] at hentry
        obtain ⟨row, hvalue, spelled, hrow⟩ := hG id entry hentry
        exact ⟨row, hvalue, spelled, hrow.later hd⟩
      · have := hG.answer (hu.request hi hp) hP χ
        rwa [World.seen, hdata, henv]
    · intro row hsaw
      rcases hsaw.append with hℓ | hev
      · exact (hP row hℓ).later hd
      · exact knows_of_act hu hi hw row hev

/-- The call has read the row under the id, to show the quote or to execute it. -/
def History.Read (ℓ : History) (id : String) (row : QuoteRow Date) : Prop :=
  Event.sql (S := sig) (.selectQuote id) (.ok (some row)) ∈ ℓ ∨
    Event.sql (S := sig) (.selectQuoteForUpdate id) (.ok (some row)) ∈ ℓ

/-- Whatever a call has read under an id is known of the quote of that id. -/
theorem knows_of_read (h : State.Reaches program (Sys.start clients e) s) : ∀ t ∈ s.threads,
    ∀ id row, History.Read t.log id row → Uuid.ofText? id = some row.id ∧ s.data.Knows row := by
  refine h.events (P := fun _ (ℓ : History) (d : Database) => ∀ id row, History.Read ℓ id row →
    Uuid.ofText? id = some row.id ∧ d.Knows row) verified (isolated_init _ _)
    (fun t ht => by cases ht) ?_ ?_ ?_
  · rintro c d id row (hm | hm) <;> cases hm
  · exact fun _ ℓ d d' hd hP id row hread => (hP id row hread).imp_right (·.later hd)
  · rintro v i t ev hv _ hi hlog hsees id row hread
    -- either statement sees the committed data
    have hview : ∀ {st : Stmt} {k}, t.prog = .sql st k →
        ((∃ id, st = .selectQuote id) ∨ ∃ id, st = .selectQuoteForUpdate id) →
        (v.world t).view = v.data := by
      intro st k hp hst
      obtain ⟨tx, htx, hrun⟩ | ⟨htx, -⟩ := hv.sql hi hp
      · have hrun : Running v.data tx.writes tx.locks st := hrun
        have hnil : tx.writes = [] := by
          rcases hst with ⟨id, rfl⟩ | ⟨id, rfl⟩
          · exact absurd rfl ((Running.not_saw hrun).1 id)
          · generalize tx.writes = ws, tx.locks = L at hrun
            cases hrun with
            | held moves => exact moves.elim
            | lockQuote => rfl
        simp only [State.world, World.view, htx, hnil]
        rfl
      · simp only [State.world, World.view, htx]
    have hrow : ∀ {u}, Uuid.ofText? id = some u → some row = (v.data.quote? u).map QuoteRow.load →
        Uuid.ofText? id = some row.id ∧ v.data.Knows row := by
      intro u spelled hrow
      obtain ⟨q, hq, rfl⟩ := Option.map_eq_some_iff.mp hrow.symm
      exact ⟨spelled.trans (congrArg some (quote?_id hq).symm), Database.knows_load hq⟩
    rcases hread with hm | hm <;> rcases List.mem_append.mp hm with hm | hm
    · exact hlog id row (.inl hm)
    · obtain rfl := List.mem_singleton.mp hm
      obtain ⟨k, hp, hbroken | ⟨χ, hx⟩⟩ := hsees.sql
      · cases hbroken
      rw [hview hp (.inl ⟨id, rfl⟩)] at hx
      obtain ⟨ws, hx⟩ : ∃ ws, exec (v.world t).stamp v.data (.selectQuote id) =
          .ok (some row, ws) :=
        ok_of_map_fst hx
      obtain ⟨u, spelled, hrow', -⟩ := exec_selectQuote.mp hx
      exact hrow spelled hrow'
    · exact hlog id row (.inr hm)
    · obtain rfl := List.mem_singleton.mp hm
      obtain ⟨k, hp, hbroken | ⟨χ, hx⟩⟩ := hsees.sql
      · cases hbroken
      rw [hview hp (.inr ⟨id, rfl⟩)] at hx
      obtain ⟨ws, hx⟩ : ∃ ws,
          exec (v.world t).stamp v.data (.selectQuoteForUpdate id) = .ok (some row, ws) :=
        ok_of_map_fst hx
      obtain ⟨u, spelled, hrow', -⟩ := exec_selectQuoteForUpdate.mp hx
      exact hrow spelled hrow'

omit [DecimalJs] in
/-- An entry that was not there before the answer is the one the request sets. -/
theorem cache_answer {x : Ext} {χ : Choice} {e : Surroundings} {key : String} {entry : CacheEntry}
    (h : (answer x χ e).2.cache key = some entry) :
    e.cache key = some entry ∨ ∃ ttlMs, x = .redisSet key entry.value ttlMs := by
  cases x with
  | redisSet key' value ttlMs =>
    simp only [answer] at h
    split at h
    · exact .inl h
    · by_cases hkey : key = key'
      · simp only [Surroundings.put, if_pos hkey] at h
        cases h
        exact .inr ⟨ttlMs, by rw [hkey]⟩
      · simp only [Surroundings.put, if_neg hkey] at h
        exact .inl h
  | redisDel key' =>
    simp only [answer, Surroundings.put] at h
    split at h
    · cases h
    · exact .inl h
  | _ => exact .inl h

/-- Whatever the cache has, some call has set. -/
theorem set_of_cache (hcache : ∀ key, e.cache key = none)
    (h : State.Reaches program (Sys.start clients e) s) {key : String} {entry : CacheEntry}
    (hentry : s.env.cache key = some entry) : ∃ t ∈ s.threads, ∃ ttlMs r,
      Event.ext (S := sig) (.redisSet key entry.value ttlMs) r ∈ t.log := by
  refine h.invariant (I := fun s : Sys => ∀ key entry, s.env.cache key = some entry →
    ∃ t ∈ s.threads,
    ∃ ttlMs r, Event.ext (S := sig) (.redisSet key entry.value ttlMs) r ∈ t.log)
    (fun key entry hentry => ?_) (fun u l u' hu hst key entry hentry => ?_) key entry hentry
  · cases (hcache key).symm.trans hentry
  have hold : u.env.cache key = some entry → ∃ t ∈ u'.threads, ∃ ttlMs r,
      Event.ext (S := sig) (.redisSet key entry.value ttlMs) r ∈ t.log := by
    intro hentry
    obtain ⟨t, ht, ttlMs, r, hm⟩ := hu key entry hentry
    obtain ⟨k, hk⟩ := List.getElem?_of_mem ht
    obtain ⟨t', hk', -, hlog⟩ := State.step_thread hst hk
    exact ⟨t', List.mem_of_getElem? hk', ttlMs, r, hlog.subset hm⟩
  rcases State.step_cases hst with ⟨c, -, rfl⟩ | ⟨χ, -, rfl⟩ | ⟨i, t, hi, hmove⟩
  · exact hold hentry
  · exact hold (tick_cache hentry)
  have hlt : i < u.threads.length := (List.getElem?_eq_some_iff.mp hi).1
  have hacts : ∀ p ev w, u.Acts t ev w → w.env.cache key = some entry →
      u' = u.resume i t (p, ev, w) → ∃ t ∈ u'.threads, ∃ ttlMs r,
        Event.ext (S := sig) (.redisSet key entry.value ttlMs) r ∈ t.log := by
    rintro p ev w hw hw' rfl
    rcases hw.env with henv | ⟨x, k, χ, -, rfl, -, henv⟩ <;> rw [henv] at hw'
    · exact hold hw'
    · rcases cache_answer hw' with hw' | ⟨ttlMs, rfl⟩
      · exact hold hw'
      · exact ⟨_, List.mem_set hlt _, ttlMs, _, List.mem_concat_self⟩
  cases hmove with
  | @run χ out _ hout => exact hacts _ _ _ (.run hout) hentry rfl
  | @interrupt out hout => exact hacts _ _ _ (.interrupt hout) hentry rfl
  | crash => exact hold hentry

/-! ## Once the quote is executed -/

/-- No key that spells the quote's id has anything but a copy of the executed row. Other quotes may
be there as they like. -/
def Fresh (u : Uuid) (q : QuoteRow Timestamp) (e : Surroundings) : Prop :=
  ∀ id value, Uuid.ofText? id = some u → e.get (quoteCacheKey id) = some value →
    value = .quote (serializeQuote q.load)

omit [DecimalJs] in
/-- As time passes, entries disappear and none comes. -/
theorem tick_get {χ : Choice} {e : Surroundings} {key : String} {value : CacheValue}
    (h : (tick χ e).get key = some value) : e.get key = some value := by
  unfold Surroundings.get at h
  split at h
  · cases h
  · next entry hentry =>
    have hnow := tick_now χ e
    obtain ⟨hlt, h⟩ := Option.ite_none_right_eq_some.mp h
    rw [Surroundings.get, tick_cache hentry]
    exact (if_pos (by omega)).trans h

omit [DecimalJs] in
/-- What a request to the surroundings puts in the cache of the quote is the executed row. -/
theorem Fresh.answer {u : Uuid} {q : QuoteRow Timestamp} {e : Surroundings} {ℓ : History} {x : Ext}
    (he : Fresh u q e) (hx : Requests db ℓ x) (χ : Choice)
    (hset : ∀ id cached ttlMs, x = .redisSet (quoteCacheKey id) (.quote cached) ttlMs →
      Uuid.ofText? id = some u → cached = serializeQuote q.load) :
    Fresh u q (MiniOpenFX.answer x χ e).2 := by
  intro id value spelled hget
  have hold : (MiniOpenFX.answer x χ e).2.cache (quoteCacheKey id) = e.cache (quoteCacheKey id) →
      value = .quote (serializeQuote q.load) := by
    intro hcache
    refine he id value spelled ?_
    rwa [Surroundings.get, hcache, answer_now] at hget
  by_cases hplain : Plain x
  · exact hold (hplain.cache χ e id)
  cases x with
  | redisSet key value' ttlMs =>
    cases value' with
    | quote cached =>
      obtain ⟨id', row, rfl, -, -, -⟩ := hx
      by_cases hid : id = id'
      · subst hid
        simp only [MiniOpenFX.answer] at hget hold
        split at hget
        · next httl =>
          rw [if_pos httl] at hold
          exact hold rfl
        · simp only [Surroundings.get, Surroundings.put, if_true] at hget
          rw [← Option.some.inj (Option.ite_none_right_eq_some.mp hget).2,
            hset id cached ttlMs rfl spelled]
      · refine hold ?_
        simp only [MiniOpenFX.answer]
        split
        · rfl
        · exact if_neg fun h => hid (quoteCacheKey_inj.mp h)
    | price | breakdown => exact (hplain hx).elim
  | redisDel key =>
    by_cases hkey : quoteCacheKey id = key
    · simp [MiniOpenFX.answer, Surroundings.get, Surroundings.put, hkey] at hget
    · exact hold (if_neg hkey)
  | _ => exact (hplain trivial).elim

/-- What calls rely on once the quote is executed and nothing else is in the cache. From here on
this is an invariant of its own, which no call breaks unless it holds an older row. -/
def relyExecuted (u : Uuid) (q : QuoteRow Timestamp) (hs : q.status = .EXECUTED) :
    Rely backend where
  __ := rely
  inv db := db.quote? u = some q
  envInv := Fresh u q
  env e e' := e.now.micros ≤ e'.now.micros ∧ (Fresh u q e → Fresh u q e')
  data_inv hd h := Database.Later.quote? hd h hs
  env_refl _ := ⟨le_refl _, id⟩
  env_trans h h' := ⟨h.1.trans h'.1, h'.2 ∘ h.2⟩
  env_inv h he := h.2 he

/-- What calls promise from then on: only the executed row goes to the cache. -/
def obligationsExecuted (u : Uuid) (q : QuoteRow Timestamp) : Spec backend where
  __ := obligations
  request p ℓ x := Requests p.data ℓ x ∧
    ∀ id cached ttlMs, x = .redisSet (quoteCacheKey id) (.quote cached) ttlMs →
      Uuid.ofText? id = some u → cached = serializeQuote q.load

/-- The call is about to write no other row of the quote: what it holds of it, and may still put in
the cache, is the executed row. -/
def Renewed (u : Uuid) (q : QuoteRow Timestamp) (ℓ : History) : Prop :=
  ∀ row, ℓ.Holds row → row.id = u → row = q.load

section
variable {u : Uuid} {ℓ : History}

omit [DecimalJs] in
/-- A call that is not about to write an old row of the quote is not after an event that does not
bring one either. -/
theorem Renewed.concat (h : Renewed u q ℓ) {ev : Event sig JsError}
    (hev : ∀ row, History.Saw [ev] row → row.id = u → row = q.load) : Renewed u q (ℓ ++ [ev]) := by
  intro row hrow hid
  rcases History.Saw.append (show History.Saw (ℓ ++ [ev]) row from hrow.seen) with hℓ | hsaw
  · exact h row ⟨hℓ, fun key cached ttlMs r hm =>
      hrow.quiet key cached ttlMs r (List.mem_append_left _ hm)⟩ hid
  · exact hev row hsaw hid

/-- From then on, only the executed row is read, and nobody writes another. The rule `Prog.Upgrade`
turns what was proved of every call under the weaker rely into this. -/
theorem upgrade_executed {hs : q.status = .EXECUTED} {R : Rely backend}
    (hinv : ∀ {d}, d.quote? u = some q → R.inv d)
    (hdata : ∀ {d d'}, Database.Later d d' → R.data d d')
      (henvInv : ∀ {e}, Fresh u q e → R.envInv e)
    (henv : ∀ {e e'}, (relyExecuted u q hs).env e e' → R.env e e') (hfails : ∀ a, R.fails a) :
    Prog.Upgrade R (relyExecuted u q hs) obligations (obligationsExecuted u q) (Renewed u q) where
  inv := hinv
  data := hdata
  envInv := henvInv
  env := henv
  fails _ := hfails _
  inside _ _ h := h
  commit _ _ h := h
  outside _ _ h := h
  request {p ℓ x} _ hℓ hx := by
    refine ⟨hx, ?_⟩
    rintro id cached ttlMs rfl spelled
    obtain ⟨id', row, hkey, spelled', holds, rfl⟩ := hx
    obtain rfl := quoteCacheKey_inj.mp hkey
    rw [hℓ row holds (Option.some.inj (spelled'.symm.trans spelled))]
  begin h := h.concat (by rintro _ (⟨_, hm⟩ | ⟨_, hm⟩) <;> cases List.mem_singleton.mp hm)
  committed h := h.concat (by rintro _ (⟨_, hm⟩ | ⟨_, hm⟩) <;> cases List.mem_singleton.mp hm)
  rollback h := h.concat (by rintro _ (⟨_, hm⟩ | ⟨_, hm⟩) <;> cases List.mem_singleton.mp hm)
  error h := h.concat (by rintro _ (⟨_, hm⟩ | ⟨_, hm⟩) <;> cases List.mem_singleton.mp hm)
  answer h := h.concat (by rintro _ (⟨_, hm⟩ | ⟨_, hm⟩) <;> cases List.mem_singleton.mp hm)
  sqlInside {d _ _ _ _ s _ r _} _ h hrun _ := h.concat (by
    obtain ⟨h₁, h₂⟩ := Running.not_saw hrun
    rintro _ (⟨id, hm⟩ | ⟨v, hm⟩) <;> cases List.mem_singleton.mp hm
    · exact absurd rfl (h₁ id)
    · exact absurd rfl (h₂ v))
  sqlOutside {p _ st s _ r w} hinv h _ hx := h.concat (by
    have hinv : p.data.quote? u = some q := hinv
    rintro row (⟨id, hm⟩ | ⟨v, hm⟩) hid <;> cases List.mem_singleton.mp hm
    · have hx : exec st p.data (.selectQuote id) = .ok (some row, w) := hx
      obtain ⟨v, -, hrow, -⟩ := exec_selectQuote.mp hx
      obtain ⟨q', hq', rfl⟩ := Option.map_eq_some_iff.mp hrow.symm
      have hv : v = u := (quote?_id hq').symm.trans hid
      rw [hv, hinv] at hq'
      rw [Option.some.inj hq']
    · have hx : exec st p.data (.insertQuote v) = .ok (row, w) := hx
      obtain ⟨-, expiresAt, -, -, -, hfresh, -, rfl, -⟩ := exec_insertQuote.mp hx
      have hv : v.id = u := hid
      rw [hv, hinv] at hfresh
      cases hfresh)

end

/-- The row that is loaded is the executed one. -/
theorem LoadQuote.executed {u : Uuid} {hs : q.status = .EXECUTED} {id : String}
    {p p' : Seen backend}
    {ℓ : History} {r : Except JsError (Option (QuoteRow Date))} (spelled : Uuid.ofText? id = some u)
    (h : LoadQuote (relyExecuted u q hs) id p p' ℓ r) :
    r = .error .connectionError ∨ r = .ok (some q.load) := by
  have hsame : ∀ {v}, Uuid.ofText? id = some v → v = u := fun hv =>
    Option.some.inj (hv.symm.trans spelled)
  cases h with
  | hit now got _ =>
    have hcached := now.envInv id _ spelled got
    cases hcached
    exact .inr (by rw [deserializeQuote_serializeQuote]; rfl)
  | read now spelled' found _ _ =>
    rw [hsame spelled'] at found
    cases found.symm.trans now.inv
    exact .inr rfl
  | absent now spelled' missing _ =>
    rw [hsame spelled'] at missing
    cases missing.symm.trans now.inv
  | @failed _ _ e now errs _ =>
    obtain ⟨χ, hx⟩ | ⟨-, rfl⟩ := errs
    · have hx : exec p'.env.now p'.data (.selectQuote id) = .error e := hx
      simp [exec, spelled] at hx
    · exact .inl rfl
  | lost now fails => exact .inl rfl

/-- A read shows the quote as executed, unless the connection is lost. A read that fails has shown
nothing. -/
def ShowsExecuted (r : Except JsError Response) : Prop :=
  r = .error .connectionError ∨ ∃ response, r = .ok (.quote response) ∧ response.status = .EXECUTED

/-- A read that relies on the quote being executed, in Postgres and under every key, shows it so.
-/
theorem GetQuoteById.executed {u : Uuid} {hs : q.status = .EXECUTED} {id : String}
    {p p' : Seen backend} {ℓ : History} {r : Except JsError QuoteResponse}
    (spelled : Uuid.ofText? id = some u)
    (h : GetQuoteById (relyExecuted u q hs) q.clientId id p p' ℓ r) :
    ShowsExecuted (r.map .quote) := by
  have howned : ∀ message, assertOwnedByClient QuoteRow.clientId (some q.load) q.clientId message =
      .ok q.load := fun _ => if_neg (not_not_intro rfl)
  cases h with
  | unloaded load =>
    rcases load.executed spelled with h | h
    · cases h
      exact .inl rfl
    · cases h
  | foreign load owned =>
    rcases load.executed spelled with h | h <;> cases h
    cases (howned _).symm.trans owned
  | response load owned _ _ =>
    rcases load.executed spelled with h | h <;> cases h
    cases (howned _).symm.trans owned
    refine .inr ⟨_, rfl, ?_⟩
    exact displayStatus_eq_executed.mpr hs
  | lost _ => exact .inl rfl

/-- What a read of the quote that starts from then on answers its owner: `n` calls have started
before. -/
def answersExecuted (u : Uuid) (q : QuoteRow Timestamp) (n i : Nat) (c : Call) :
    Answer backend Response := fun _ _ r =>
  ∀ id, n ≤ i → c = .getQuoteById q.clientId id → Uuid.ofText? id = some u → ShowsExecuted r

/-- From the moment on that an executed quote has no old copy in the cache and none on its way
there, the calls keep it so, and reads that start then show it as executed. -/
theorem verified_executed (u : Uuid) (q : QuoteRow Timestamp) (hs : q.status = .EXECUTED)
    (n : Nat) :
    Verified isolation (relyExecuted u q hs) program (fun _ _ => obligationsExecuted u q)
      (answersExecuted u q n) where
  guarantees _ _ := {
    outside := fun {p ℓ s χ r ws} _ h hx => guarantees.outside (p := p) (ℓ := ℓ) trivial h hx
    commit := fun {p ℓ st ws L} _ h =>
      guarantees.commit trivial (show obligations.commit p ℓ st ws L from h)
    request := fun {p ℓ x} χ _ _ h =>
      ⟨le_of_eq (congrArg Timestamp.micros (answer_now x χ p.env)).symm,
        fun he => he.answer h.1 χ h.2⟩ }
  fails _ := trivial
  tick χ e _ := ⟨tick_now χ e, fun he id value spelled hget => he id value spelled (tick_get hget)⟩
  crash _ _ _ _ := fun _ _ _ _ => .inl rfl
  program i c p hp he := by
    have hquiet : History.Quiet [] := fun _ _ _ _ h => nomatch h
    have hnil : Renewed u q [] := by
      rintro row ⟨⟨_, hm⟩ | ⟨_, hm⟩, -⟩ <;> cases hm
    by_cases hread : ∃ id, c = .getQuoteById q.clientId id ∧ Uuid.ofText? id = some u
    · obtain ⟨id, rfl, spelled⟩ := hread
      refine Prog.Wp.upgrade (R := relyExecuted u q hs) (upgrade_executed (fun h => h) (fun h => h)
        (fun h => h) (fun h => h) fun _ => trivial) (fun m ℓ r _ h => h)
        (wp_response ((getQuoteById_wp hquiet).mono ?_)) trivial hnil
      rintro m ℓ r ⟨p', rfl, h⟩
      exact ⟨p', rfl, fun _ _ _ _ => h.executed spelled⟩
    · have hup : Prog.Upgrade rely (relyExecuted u q hs) obligations (obligationsExecuted u q)
          (Renewed u q) :=
        upgrade_executed (fun _ => trivial) (fun h => h) (fun _ => trivial) (fun h => h.1)
          fun _ => trivial
      refine (program_wp c trivial trivial).upgrade hup ?_ trivial hnil
      rintro m ℓ r _ ⟨p', rfl, _⟩
      exact ⟨p', rfl, fun id _ hc spelled => absurd ⟨id, hc, spelled⟩ hread⟩

/-- The rely takes over where no unfinished call holds the row from before. It is the step from the
state after the deletion to everything that follows. -/
theorem isolated_executed {s : Sys} {u : Uuid} (q : QuoteRow Timestamp) (hs : q.status = .EXECUTED)
    (h : Isolated isolation rely (fun _ _ => obligations) (fun _ => answers) s)
    (hheld : ∀ (k : Nat) (t : Thread backend Call Response), s.threads[k]? = some t →
      Renewed u q t.log ∨ ∃ r, t.result? = some r)
    (found : s.data.quote? u = some q) (fresh : Fresh u q s.env) :
    Isolated isolation (relyExecuted u q hs) (fun _ _ => obligationsExecuted u q)
      (answersExecuted u q s.threads.length) s := by
  have hpast : ∀ {k : Nat} {t : Thread backend Call Response}, s.threads[k]? = some t → ∀ p ℓ r,
      answersExecuted u q s.threads.length k t.call p ℓ r := by
    intro k t hk p ℓ r id hle
    have hlt := (List.getElem?_eq_some_iff.mp hk).1
    exact absurd hle (by omega)
  refine h.upgrade (H := fun _ _ => Renewed u q) (fun _ _ => upgrade_executed
    (fun _ => trivial) (fun h => h) (fun _ => trivial) (fun h => h.1) fun _ => trivial)
    (fun k t hk => ?_) (fun k t hk p ℓ r _ _ => hpast hk p ℓ r)
      (fun _ _ _ _ _ _ _ h => h) found fresh
  exact (hheld k t hk).imp_right fun ⟨r, hr⟩ => ⟨r, hr, fun p _ => hpast hk p t.log r⟩

/-- **No stale quote.** When a call of `executeTrade` has made a trade and says so, it has just
deleted the quote's key. If at that moment no call still holds the row as it was before the trade,
about to put it in the cache, and no other spelling of the id has a copy from before, every read
that starts from then on shows the quote as executed. A replay deletes nothing: one that is
answered while the call that made the trade has not deleted the key yet can be followed by a read
of the old copy. -/
theorem executed_after_trade {s₁ s₂ s₃ : Sys} {c u : Uuid} {quoteId rawKey id : String}
    {response : TradeResponse} {i j : Nat} {χ : Choice} {t₂ t : Thread backend Call Response}
    {r : Except JsError Response} (hcache : ∀ key, e.cache key = none)
    (h₁ : State.Reaches program (Sys.start clients e) s₁)
    (step : s₁.step program (.run i χ) = some s₂) (hi : s₂.threads[i]? = some t₂)
    (call : t₂.call = .executeTrade c ⟨quoteId⟩ rawKey)
    (filled : t₂.result? = some (.ok (.trade ⟨response, false⟩)))
    (spelled : Uuid.ofText? quoteId = some u)
    (readers : ∀ t ∈ s₁.threads, t.result? = none → ∀ row, History.Holds t.log row → row.id = u →
      row.status = .EXECUTED)
    (spellings : ∀ id cached, id ≠ quoteId → Uuid.ofText? id = some u →
      s₁.env.get (quoteCacheKey id) = some (.quote cached) → cached.status = .EXECUTED)
    (h₂ : State.Reaches program s₂ s₃) (started : s₂.threads.length ≤ j)
    (hj : s₃.threads[j]? = some t) (read : t.call = .getQuoteById c id)
    (same : Uuid.ofText? id = some u) (finished : t.result? = some r) : ShowsExecuted r := by
  obtain ⟨copies, hlogs⟩ := copies_of_reaches hcache h₁
  have h₁₂ := h₁.tail step
  obtain ⟨hiso, -⟩ := later_of_reaches h₁₂
  -- the trade is there, and the quote is executed
  obtain ⟨p, hp, ha⟩ := hiso.answer hi filled
  rw [call] at ha
  have ha := ha.resolve_left (by simp)
  obtain ⟨row, hrow, hquote, r', hlast⟩ : ∃ row : TradeRow Timestamp,
      p.data.tradeByKey? c (trim rawKey) = some row ∧ Uuid.ofText? quoteId = some row.quoteId ∧
      ∃ r', t₂.log.getLast? = some (.ext (S := sig) (.redisDel (quoteCacheKey quoteId)) r') := by
    generalize hr : Except.ok (Response.trade ⟨response, false⟩) = r at ha
    cases ha with
    | failed => cases hr
    | @replay row _ _ =>
      cases hok : TradingService.replayOrConflict row.load quoteId with
      | error e => rw [hok] at hr; cases hr
      | ok result =>
        obtain ⟨-, rfl⟩ := replayOrConflict_ok hok
        rw [hok] at hr
        cases hr
    | filled found spelled _ last => exact ⟨_, found, spelled, last⟩
  obtain rfl : row.quoteId = u := Option.some.inj (hquote.symm.trans spelled)
  have htrade := hp.data.tradeByKey? hrow
  have hrecords := records_of_reaches h₁₂
  obtain ⟨q, hq, hs, hcopies⟩ := hrecords.executed row (List.mem_of_find?_eq_some htrade)
  have hfound : s₂.data.quote? row.quoteId = some q := hcopies.quoteId ▸ hrecords.quote? hq
  have howner : q.clientId = c := by
    have := List.find?_some htrade
    simp only [decide_eq_true_eq] at this
    exact hcopies.clientId.symm.trans this.1
  -- the step was the deletion
  obtain ⟨t₁, prog, ev, w, hi₁, hact, rfl⟩ := State.step_run step
  have hlt : i < s₁.threads.length := (List.getElem?_eq_some_iff.mp hi₁).1
  have ht₂ : t₂ = ⟨t₁.call, prog, t₁.log ++ [ev], w.tx⟩ :=
    Option.some.inj (hi.symm.trans (List.getElem?_set_self hlt))
  rw [ht₂, List.getLast?_concat] at hlast
  obtain rfl := Option.some.inj hlast
  obtain ⟨-, rfl⟩ := Prog.step_ext hact
  have hcopy : ∀ row' : QuoteRow Date, s₁.data.Knows row' → row'.id = row.quoteId →
      row'.status = .EXECUTED → row' = q.load := fun row' hk hid hs' =>
    hk.executed (hid ▸ hfound) hs'
  have hfresh : Fresh row.quoteId q (s₁.env.put (quoteCacheKey quoteId) none) := by
    intro id value spelled' hget
    by_cases hid : id = quoteId
    · simp [Surroundings.get, Surroundings.put, hid] at hget
    · have hne : quoteCacheKey id ≠ quoteCacheKey quoteId := fun h => hid (quoteCacheKey_inj.mp h)
      have hget := (Surroundings.get_put_of_ne hne).symm.trans hget
      cases hentry : s₁.env.cache (quoteCacheKey id) with
      | none => simp [Surroundings.get, hentry] at hget
      | some entry =>
        obtain ⟨row', hvalue, hid', hknown⟩ := copies id entry hentry
        have hv : value = .quote (serializeQuote row') := by
          rw [Surroundings.get, hentry] at hget
          rw [← Option.some.inj (Option.ite_none_right_eq_some.mp hget).2, hvalue]
        subst hv
        rw [hcopy row' hknown (Option.some.inj (hid'.symm.trans spelled'))
          (spellings id _ hid spelled' hget)]
  have hnow := isolated_executed q hs hiso (fun k t' hk => ?_) hfound hfresh
  · obtain ⟨_, -, ha⟩ := (h₂.isolated (verified_executed _ q hs _) hnow).1.answer hj finished
    exact ha id started (howner ▸ read) same
  · cases hr : t'.result? with
    | some r => exact .inr ⟨r, rfl⟩
    | none =>
      refine .inl fun row' hholds hid => ?_
      have hne : i ≠ k := by
        rintro rfl
        cases hk.symm.trans hi
        rw [filled] at hr
        cases hr
      have hk₁ : s₁.threads[k]? = some t' := (List.getElem?_set_ne hne).symm.trans hk
      have hmem := List.mem_of_getElem? hk₁
      exact hcopy row' (hlogs t' hmem row' hholds.seen) hid (readers t' hmem hr row' hholds hid)

end

section
open scoped Reference

namespace Sample

/-- Thread 2 deletes the key, and thread 3 reads the quote. -/
def reading : List (Label backend Call) :=
  trading ++ acts 2 1 tradeId ++ [reads] ++ acts 3 5 tradeId

/-- The call reads and inserts no quote. -/
def unread (ℓ : History) : Bool := ℓ.all fun
  | .sql (.selectQuote _) _ | .sql (.insertQuote _) _ => false
  | _ => true

/-- The call sets nothing but the price, the symbol and the quote as Postgres spells its id. -/
def spelled (ℓ : History) : Bool := ℓ.all fun
  | .ext (.redisSet key _ _) _ => key = PricingService.priceCacheKey "BTCUSDT" ||
      key = PricingService.symbolCacheKey "BTCUSDT" || key = quoteCacheKey quoteId.text
  | _ => true

/-- A history without reads of a quote has seen no row. -/
theorem not_saw_of_unread {ℓ : History} (h : unread ℓ) (row : QuoteRow Date) : ¬ ℓ.Saw row := by
  rintro (⟨_, hm⟩ | ⟨_, hm⟩) <;> cases List.all_eq_true.mp h _ hm

/-- A history that has stored entries under one spelling only has no other. -/
theorem key_of_spelled {ℓ : History} (h : spelled ℓ) {id : String} {value : CacheValue}
    {ttlMs : Int} {r : Except JsError Unit}
    (hm : Event.ext (S := sig) (.redisSet (quoteCacheKey id) value ttlMs) r ∈ ℓ) :
    id = quoteId.text := by
  have := List.all_eq_true.mp h _ hm
  simpa [quoteCacheKey_ne_priceCacheKey, quoteCacheKey_ne_symbolCacheKey, quoteCacheKey_inj]
    using this

/-- The trade with nobody else at work is a run of the system. -/
theorem trading_reached :
    State.Reaches program (Sys.start clients surroundings) (after trading) :=
  reached (by decide +kernel)

end Sample

/-- Alice's quote after her trade. -/
theorem executed_after_trade_reading : ∃ response,
    (Sample.thread (Sample.after Sample.reading) 3).result? = some (.ok (.quote response)) ∧
      ShowsExecuted (.ok (.quote response)) :=
  ⟨toQuoteResponse 1700000000000 (QuoteRow.load { Sample.quote with status := .EXECUTED }),
    by decide +kernel,
    executed_after_trade (fun _ => rfl) Sample.trading_reached
      (Sample.step_after (.run 2 (Sample.choice Sample.tradeId .failed)) (by decide +kernel))
      (Sample.getElem?_thread (i := 2) (by decide +kernel))
      (show (Sample.thread _ 2).call = .executeTrade Sample.alice ⟨Sample.quoteId.text⟩ "key" from
        by decide +kernel)
      (show (Sample.thread _ 2).result? =
        some (.ok (.trade ⟨toTradeResponse Sample.trade.load, false⟩)) from by decide +kernel)
      (Uuid.ofText?_text _)
      (fun t ht hr row hrow _ => absurd hrow.seen (Sample.not_saw_of_unread
        ((show ∀ t ∈ (Sample.after Sample.trading).threads, t.result? = none →
          Sample.unread t.log from
          by decide +kernel) t ht hr) row))
      (fun id cached hne _ hget => by
        cases hentry : (Sample.after Sample.trading).env.cache (quoteCacheKey id) with
        | none => simp [Surroundings.get, hentry] at hget
        | some entry =>
          obtain ⟨t, ht, _, _, hm⟩ := set_of_cache (fun _ => rfl) Sample.trading_reached hentry
          exact absurd (Sample.key_of_spelled ((show ∀ t ∈ (Sample.after Sample.trading).threads,
            Sample.spelled t.log from by decide +kernel) t ht) hm) hne)
      (Sample.after_reached ([Sample.reads] ++ Sample.acts 3 5 Sample.tradeId) (by decide +kernel))
      (j := 3) (by decide +kernel) (Sample.getElem?_thread (by decide +kernel))
      (show (Sample.thread _ 3).call = .getQuoteById Sample.alice Sample.quoteId.text from
        by decide +kernel) (Uuid.ofText?_text _) (by decide +kernel)⟩

/-- A read that overtakes the trade leaves a stale copy, and the next read shows the executed quote
as active. -/
theorem stale_after_trade : ∃ s₁ s₂ s₃ t₂ t response response',
    State.Reaches program (Sys.start Sample.clients Sample.surroundings) s₁ ∧
    s₁.step program Sample.deletes = some s₂ ∧ s₂.threads[3]? = some t₂ ∧
    t₂.call = .executeTrade Sample.alice ⟨Sample.quoteId.text⟩ "key" ∧
    t₂.result? = some (.ok (.trade ⟨response, false⟩)) ∧
    State.Reaches program s₂ s₃ ∧ s₂.threads.length ≤ 4 ∧ s₃.threads[4]? = some t ∧
    t.call = .getQuoteById Sample.alice Sample.quoteId.text ∧
    t.result? = some (.ok (.quote response')) ∧ response'.status = .ACTIVE :=
  ⟨Sample.after Sample.overtaken, Sample.after (Sample.overtaken ++ [Sample.deletes]),
    Sample.after (Sample.overtaken ++ [Sample.deletes] ++ Sample.rereads), Sample.thread _ 3,
    Sample.thread _ 4, toTradeResponse Sample.trade.load,
    toQuoteResponse 1700000000000 Sample.quote.load, Sample.reached (by decide +kernel),
    Sample.step_after _ (by decide +kernel), Sample.getElem?_thread (by decide +kernel),
    by decide +kernel, by decide +kernel, Sample.after_reached _ (by decide +kernel),
    by decide +kernel, Sample.getElem?_thread (by decide +kernel), by decide +kernel,
    by decide +kernel, by decide +kernel⟩

end

end MiniOpenFX
