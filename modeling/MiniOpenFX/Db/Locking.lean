import MiniOpenFX.Transactional.Isolation
import MiniOpenFX.Runtime
import MiniOpenFX.Db.Outcomes

/-!
# The locks of the statements isolate transactions

`Database.cell` is what is stored under a resource. A write changes only the cells it touches, in a
way that depends on the cell alone (`Database.cell_apply`), and never empties one. A statement's
answer depends on the cells it locks, and on cells that are occupied and stay so
(`isolation`, the instance of the laws of `Transactional.Isolation`).
-/

namespace MiniOpenFX

open Js Transactional

/-- The content of a resource: a balance or a quote, whose columns matter, or the fact that a key
of a unique index is taken. -/
inductive Cell where
  | taken
  | balance (row : BalanceRow)
  | quote (row : QuoteRow Timestamp)

/-- What is stored under a resource. Two databases are compared by the contents of those resources
that a transaction has locked, one at a time. -/
def Database.cell (db : Database) : Resource → Option Cell
  | .clientId id => (db.client? id).map fun _ => .taken
  | .clientName name => (db.clientNamed? name).map fun _ => .taken
  | .balance clientId currency => (db.balance? clientId currency).map .balance
  | .quote id => (db.quote? id).map .quote
  | .tradeId id => (db.trade? id).map fun _ => .taken
  | .tradeQuote quoteId => (db.tradeOfQuote? quoteId).map fun _ => .taken
  | .tradeKey clientId key => (db.tradeByKey? clientId key).map fun _ => .taken

/-! ## Rows found and rows written -/

/-- Looking a row up after a change that keeps what it is looked up by finds the same row, changed.
-/
theorem find?_map_of_key {ρ : Type} {p : ρ → Bool} {f : ρ → ρ} (h : ∀ a, p (f a) = p a)
    (l : List ρ) : (l.map f).find? p = (l.find? p).map f := by
  rw [List.find?_map, show p ∘ f = p from funext h]

section
variable {db : Database}

/-- A balance is found under its own client and currency, so what is found says for itself where it
belongs. -/
theorem balance?_key {clientId : Uuid} {currency : String} {b : BalanceRow}
    (h : db.balance? clientId currency = some b) :
      b.clientId = clientId ∧ b.currency = currency := by
  simpa using List.find?_some h

theorem quote?_id {id : Uuid} {q : QuoteRow Timestamp} (h : db.quote? id = some q) :
    q.id = id := by
  simpa using List.find?_some h

end

section
variable (db : Database)

/-- A new client is found by its id unless another one was there before. This and the lemmas below
are what the lookups find after each of the writes. -/
theorem client?_apply_client (row : ClientRow) (id : Uuid) :
    (Write.apply (.client row) db).client? id =
      (db.client? id).or (if row.id = id then some row else none) := by
  simp [Database.client?, Write.apply, List.find?_append, List.find?_singleton]

/-- A new client is found by its name unless another one had it before. -/
theorem clientNamed?_apply_client (row : ClientRow) (name : String) :
    (Write.apply (.client row) db).clientNamed? name =
      (db.clientNamed? name).or (if row.name = name then some row else none) := by
  simp [Database.clientNamed?, Write.apply, List.find?_append, List.find?_singleton]

/-- A new balance is found by its client and currency unless there was one before. -/
theorem balance?_apply_balance (row : BalanceRow) (clientId : Uuid) (currency : String) :
    (Write.apply (.balance row) db).balance? clientId currency = (db.balance? clientId currency).or
      (if row.clientId = clientId ∧ row.currency = currency then some row else none) := by
  simp [Database.balance?, Write.apply, List.find?_append, List.find?_singleton]

/-- A balance that is set has the new amount; the others, and which there are, stay as they were.
-/
theorem balance?_apply_setBalance (c clientId : Uuid) (cur currency : String) (n : Int) :
    (Write.apply (.setBalance c cur n) db).balance? clientId currency =
      (db.balance? clientId currency).map fun b =>
        if c = clientId ∧ cur = currency then { b with availableMinor := n } else b := by
  rw [Database.balance?, Write.apply, find?_map_of_key]
  · refine Option.map_congr fun b hb => ?_
    obtain ⟨rfl, rfl⟩ := balance?_key (show db.balance? clientId currency = some b from hb)
    simp only [eq_comm]
  · intro b
    split <;> rfl

/-- A new quote is found by its id unless another one had it before. Rows are appended, and the
first of an id is the one that is found. -/
theorem quote?_apply_quote (row : QuoteRow Timestamp) (id : Uuid) :
    (Write.apply (.quote row) db).quote? id =
      (db.quote? id).or (if row.id = id then some row else none) := by
  simp [Database.quote?, Write.apply, List.find?_append, List.find?_singleton]

/-- A quote that is marked has the status EXECUTED, whatever it had before; the others stay as they
were. -/
theorem quote?_apply_executed (u id : Uuid) :
    (Write.apply (.executed u) db).quote? id = (db.quote? id).map fun q =>
      if u = id then { q with status := .EXECUTED } else q := by
  rw [Database.quote?, Write.apply, find?_map_of_key]
  · refine Option.map_congr fun q hq => ?_
    rw [← quote?_id (show db.quote? id = some q from hq)]
    simp only [eq_comm]
  · intro q
    split <;> rfl

/-- A new trade is found by its id unless another one had it before. -/
theorem trade?_apply_trade (row : TradeRow Timestamp) (id : Uuid) :
    (Write.apply (.trade row) db).trade? id =
      (db.trade? id).or (if row.id = id then some row else none) := by
  simp [Database.trade?, Write.apply, List.find?_append, List.find?_singleton]

/-- A new trade is found by its quote unless this had one before. -/
theorem tradeOfQuote?_apply_trade (row : TradeRow Timestamp) (quoteId : Uuid) :
    (Write.apply (.trade row) db).tradeOfQuote? quoteId =
      (db.tradeOfQuote? quoteId).or (if row.quoteId = quoteId then some row else none) := by
  simp [Database.tradeOfQuote?, Write.apply, List.find?_append, List.find?_singleton]

/-- A new trade is found by its client and key unless there was one before, which the unique index
excludes. -/
theorem tradeByKey?_apply_trade (row : TradeRow Timestamp) (clientId : Uuid) (key : String) :
    (Write.apply (.trade row) db).tradeByKey? clientId key = (db.tradeByKey? clientId key).or
      (if row.clientId = clientId ∧ row.idempotencyKey = key then some row else none) := by
  simp [Database.tradeByKey?, Write.apply, List.find?_append, List.find?_singleton]

end

/-! ## Writes and cells -/

/-- What a write makes of the content of a resource: it puts a row under a key that was free, or
changes the row that is there. -/
def Write.effect : Write → Resource → Option Cell → Option Cell
  | .client row, .clientId id, c => c.or (if row.id = id then some .taken else none)
  | .client row, .clientName name, c => c.or (if row.name = name then some .taken else none)
  | .balance row, .balance clientId currency, c =>
    c.or (if row.clientId = clientId ∧ row.currency = currency then some (.balance row) else none)
  | .setBalance c cur n, .balance clientId currency, cell => cell.map fun
    | .balance b =>
      .balance (if c = clientId ∧ cur = currency then { b with availableMinor := n } else b)
    | cell => cell
  | .quote row, .quote id, c => c.or (if row.id = id then some (.quote row) else none)
  | .executed u, .quote id, c => c.map fun
    | .quote q => .quote (if u = id then { q with status := .EXECUTED } else q)
    | cell => cell
  | .trade row, .tradeId id, c => c.or (if row.id = id then some .taken else none)
  | .trade row, .tradeQuote quoteId, c => c.or (if row.quoteId = quoteId then some .taken else none)
  | .trade row, .tradeKey clientId key, c =>
    c.or (if row.clientId = clientId ∧ row.idempotencyKey = key then some .taken else none)
  | _, _, c => c

/-- A function of a row that is looked up first in one place and then in another. -/
theorem map_or_ite {ρ σ : Type} (f : ρ → σ) (o : Option ρ) (p : Prop) [Decidable p] (a : ρ) :
    (o.or (if p then some a else none)).map f = (o.map f).or (if p then some (f a) else none) := by
  cases o <;> simp [apply_ite (Option.map f)]

/-- What a write does to the content of a resource depends on that content alone. The lemmas about
agreement only need this and how `effect` is defined. -/
theorem cell_apply (w : Write) (db : Database) (r : Resource) :
    (w.apply db).cell r = w.effect r (db.cell r) := by
  cases w with
  | client row =>
    cases r with
    | clientId id => simp only [Database.cell, client?_apply_client, map_or_ite, Write.effect]
    | clientName name => simp only
        [Database.cell, clientNamed?_apply_client, map_or_ite, Write.effect]
    | _ => rfl
  | balance row =>
    cases r with
    | balance clientId currency =>
      simp only [Database.cell, balance?_apply_balance, map_or_ite, Write.effect]
    | _ => rfl
  | setBalance c cur n =>
    cases r with
    | balance clientId currency =>
      simp only [Database.cell, balance?_apply_setBalance, Write.effect, Option.map_map]
      rfl
    | _ => rfl
  | ledgerEntry row => cases r <;> rfl
  | quote row =>
    cases r with
    | quote id => simp only [Database.cell, quote?_apply_quote, map_or_ite, Write.effect]
    | _ => rfl
  | executed u =>
    cases r with
    | quote id =>
      simp only [Database.cell, quote?_apply_executed, Write.effect, Option.map_map]
      rfl
    | _ => rfl
  | trade row =>
    cases r with
    | tradeId id => simp only [Database.cell, trade?_apply_trade, map_or_ite, Write.effect]
    | tradeQuote quoteId =>
      simp only [Database.cell, tradeOfQuote?_apply_trade, map_or_ite, Write.effect]
    | tradeKey clientId key =>
      simp only [Database.cell, tradeByKey?_apply_trade, map_or_ite, Write.effect]
    | _ => rfl

/-- A write fills a cell whatever else is in it, or keeps it; which of the two depends on the write
and the resource only. -/
theorem isSome_effect (w : Write) (r : Resource) {c c' : Option Cell}
    (h : c.isSome → c'.isSome) : (w.effect r c).isSome → (w.effect r c').isSome := by
  have hor : ∀ o : Option Cell, (c.or o).isSome → (c'.or o).isSome := by
    intro o
    simp only [Option.isSome_or, Bool.or_eq_true]
    exact fun ho => ho.imp_left h
  unfold Write.effect
  split <;> first | exact hor _ | exact h | (simp only [Option.isSome_map]; exact h)

/-- A write never empties a cell: there are inserts and updates, and no statement deletes a row. -/
theorem isSome_effect_of_isSome (w : Write) (r : Resource) {c : Option Cell} (h : c.isSome) :
    (w.effect r c).isSome := by
  unfold Write.effect
  split <;> simp [Option.isSome_or, h]

/-- A write leaves the cells it does not touch, as `touches` says. So locks on what a statement
touches are enough to keep others away. -/
theorem effect_of_not_touched {w : Write} {r : Resource} (h : r ∉ w.touches) (c : Option Cell) :
    w.effect r c = c := by
  have hor : ∀ (p : Prop) [Decidable p] (x : Cell), ¬ p → c.or (if p then some x else none) = c :=
    fun p _ x hp => by rw [if_neg hp, Option.or_none]
  have hmap : ∀ f : Cell → Cell, (∀ x, f x = x) → c.map f = c := fun f hf => by
    rw [show f = id from funext hf, Option.map_id, id]
  unfold Write.effect
  split <;> simp only [Write.touches, List.mem_cons, List.not_mem_nil, or_false, not_or,
    Resource.clientId.injEq, Resource.clientName.injEq, Resource.balance.injEq,
    Resource.quote.injEq, Resource.tradeId.injEq, Resource.tradeQuote.injEq,
    Resource.tradeKey.injEq, reduceCtorEq, not_false_eq_true, true_and] at h
  case h_4 =>
    refine hmap _ fun x => ?_
    cases x with
    | balance b => exact congrArg Cell.balance (if_neg fun he => h ⟨he.1.symm, he.2.symm⟩)
    | _ => rfl
  case h_6 =>
    refine hmap _ fun x => ?_
    cases x with
    | quote q => exact congrArg Cell.quote (if_neg fun he => h he.symm)
    | _ => rfl
  all_goals first
    | rfl
    | exact hor _ _ fun he => h he.symm
    | exact hor _ _ fun he => h ⟨he.1.symm, he.2.symm⟩

/-! ## Agreement -/

/-- Two databases agree on the locked cells, and no cell of the first has been emptied. This is how
far the committed data can have moved away from those that a transaction has seen, while it holds
the locks in `L`. -/
structure Agree (L : List Resource) (db db' : Database) : Prop where
  locked : ∀ r ∈ L, db'.cell r = db.cell r
  occupied : ∀ r, (db.cell r).isSome → (db'.cell r).isSome

/-- The answers protected by the locks of their statement: those that found the row they lock, and
writes. A read without a lock is not protected, nor is a locking read that found nothing to lock.
-/
def Durable : (s : Stmt) → StmtRes s → Prop
  | .lockBalance .., r | .debitBalance .., r => Option.isSome r = true
  | .selectQuoteForUpdate _, r => Option.isSome r = true
  | .selectBalances _, _ | .selectQuote _, _ | .selectTradeByKey .., _
  | .selectTrades .., _ => False
  | .insertClientIfAbsent .., _ | .insertBalance .., _ | .insertBalanceIfAbsent .., _
  | .creditBalance .., _ | .insertLedgerEntry _, _ | .insertQuote _, _ | .setQuoteExecuted _, _
  | .insertTrade _, _ => True

section
variable {L : List Resource} {db db' : Database}

/-- A client that was there when the locks were taken is there still. Rows are never deleted, so no
lock is needed for that, here and for the next three. -/
theorem Agree.client? (h : Agree L db db') {id : Uuid} (hs : (db.client? id).isSome) :
    (db'.client? id).isSome := by
  simpa [Database.cell] using h.occupied (.clientId id) (by simpa [Database.cell] using hs)

theorem Agree.clientNamed? (h : Agree L db db') {name : String}
    (hs : (db.clientNamed? name).isSome) : (db'.clientNamed? name).isSome := by
  simpa [Database.cell] using h.occupied (.clientName name) (by simpa [Database.cell] using hs)

/-- A balance that was there is there still, whatever its amount is. -/
theorem Agree.balance?_isSome (h : Agree L db db') {c : Uuid} {cur : String}
    (hs : (db.balance? c cur).isSome) : (db'.balance? c cur).isSome := by
  simpa [Database.cell] using h.occupied (.balance c cur) (by simpa [Database.cell] using hs)

/-- A quote that was there is there still, whatever its status is. -/
theorem Agree.quote?_isSome (h : Agree L db db') {id : Uuid} (hs : (db.quote? id).isSome) :
    (db'.quote? id).isSome := by
  simpa [Database.cell] using h.occupied (.quote id) (by simpa [Database.cell] using hs)

/-- A locked balance has the amount that it had, so a debit that it covered once is covered still.
-/
theorem Agree.balance? (h : Agree L db db') {c : Uuid} {cur : String}
    (hm : .balance c cur ∈ L) : db'.balance? c cur = db.balance? c cur :=
  Option.map_injective (fun _ _ he => Cell.balance.inj he) (h.locked _ hm)

/-- A locked quote is as it was, with its status: what a transaction has checked of it goes on to
hold until the commit. -/
theorem Agree.quote? (h : Agree L db db') {id : Uuid} (hm : .quote id ∈ L) :
    db'.quote? id = db.quote? id :=
  Option.map_injective (fun _ _ he => Cell.quote.inj he) (h.locked _ hm)

/-- A locked key is free or taken on both sides, so that an insert that succeeded on one does so on
the other. -/
theorem Agree.isSome_eq (h : Agree L db db') {r : Resource} (hm : r ∈ L) :
    (db'.cell r).isSome = (db.cell r).isSome := by
  rw [h.locked r hm]

/-- Whether a trade has the id is the same while the entry of the primary key is locked. -/
theorem Agree.trade?_isSome (h : Agree L db db') {id : Uuid} (hm : .tradeId id ∈ L) :
    (db'.trade? id).isSome = (db.trade? id).isSome := by
  simpa [Database.cell] using h.isSome_eq hm

/-- Whether the quote has a trade is the same while the entry of the unique index is locked. -/
theorem Agree.tradeOfQuote?_isSome (h : Agree L db db') {id : Uuid} (hm : .tradeQuote id ∈ L) :
    (db'.tradeOfQuote? id).isSome = (db.tradeOfQuote? id).isSome := by
  simpa [Database.cell] using h.isSome_eq hm

/-- Whether the key has a trade is the same while the entry of the unique index is locked: a second
insert under it waits for the first. -/
theorem Agree.tradeByKey?_isSome (h : Agree L db db') {c : Uuid} {k : String}
    (hm : .tradeKey c k ∈ L) : (db'.tradeByKey? c k).isSome = (db.tradeByKey? c k).isSome := by
  simpa [Database.cell] using h.isSome_eq hm

/-- The answer, the writes and the locks of a statement are the same on data that agree on its
locks, if its answer is one that they protect. This is the one property of the statements that
makes a transaction on moved data amount to one on the data as they are. -/
theorem exec_agree {now : Timestamp} {s : Stmt} {r : StmtRes s} {ws : List Write}
    (h : Agree L db db') (hn : ∀ x ∈ needs s db, x ∈ L) (hx : exec now db s = .ok (r, ws))
    (hr : Durable s r) : exec now db' s = .ok (r, ws) ∧ needs s db' = needs s db := by
  cases s with
  | insertClientIfAbsent id name =>
    rw [exec_insertClientIfAbsent] at hx ⊢
    rcases hx with ⟨hname, rfl, rfl⟩ | ⟨hname, hid, rfl, rfl⟩
    · have hname' := h.clientNamed? hname
      simp [needs, hname, hname']
    · have h₁ := h.isSome_eq (hn (.clientName name) (by simp [needs, hname, hid]))
      have h₂ := h.isSome_eq (hn (.clientId id) (by simp [needs, hname, hid]))
      simp_all [needs, Database.cell]
  | insertBalance c cur n =>
    rw [exec_insertBalance] at hx ⊢
    obtain ⟨hr, hb, hc, rfl⟩ := hx
    have hb' := h.balance? (hn (.balance c cur) (by simp [needs, hb]))
    rw [needs, needs, hb']
    exact ⟨⟨hr, hb, h.client? hc, rfl⟩, rfl⟩
  | insertBalanceIfAbsent c cur n =>
    rw [exec_insertBalanceIfAbsent] at hx ⊢
    obtain ⟨hr, ⟨hb, rfl⟩ | ⟨hb, hc, rfl⟩⟩ := hx
    · have hb' := h.balance?_isSome hb
      exact ⟨⟨hr, .inl ⟨hb', rfl⟩⟩, by simp [needs, hb, hb']⟩
    · have hb' := h.balance? (hn (.balance c cur) (by simp [needs, hb]))
      rw [needs, needs, hb']
      exact ⟨⟨hr, .inr ⟨hb, h.client? hc, rfl⟩⟩, rfl⟩
  | lockBalance c cur =>
    rw [exec_lockBalance] at hx ⊢
    obtain ⟨rfl, rfl⟩ := hx
    have hb : (db.balance? c cur).isSome := hr
    have hb' := h.balance? (hn (.balance c cur) (by simp [needs, hb]))
    rw [needs, needs, hb']
    exact ⟨⟨rfl, rfl⟩, rfl⟩
  | debitBalance c cur n =>
    rw [exec_debitBalance] at hx ⊢
    obtain ⟨hi, ⟨-, rfl, -⟩ | ⟨b, hb, hle, hrange, rfl, rfl⟩⟩ := hx
    · cases hr
    · have hlt : ¬ b.availableMinor < n := Int.not_lt.mpr hle
      have hb' := h.balance? (hn (.balance c cur) (by simp [needs, Option.mem_def.mp hb, hlt]))
      rw [needs, needs, hb']
      exact ⟨⟨hi, .inr ⟨b, hb, hle, hrange, rfl, rfl⟩⟩, rfl⟩
  | creditBalance c cur n =>
    rw [exec_creditBalance] at hx ⊢
    have hb' := h.balance? (hn (.balance c cur) (by simp [needs]))
    rw [hb']
    refine ⟨⟨hx.1, hx.2.imp (fun hx => ?_) id⟩, rfl⟩
    exact ⟨hx.1, h.client? hx.2.1, hx.2.2⟩
  | insertLedgerEntry row =>
    rw [exec_insertLedgerEntry] at hx ⊢
    exact ⟨⟨hx.1, h.client? hx.2.1, hx.2.2⟩, rfl⟩
  | insertQuote v =>
    rw [exec_insertQuote] at hx ⊢
    obtain ⟨hs, t, ht, hb, ha, hq, hc, rfl, rfl⟩ := hx
    have hq' := h.quote? (hn (.quote v.id) (by simp [needs, hq]))
    rw [needs, needs, hq']
    exact ⟨⟨hs, t, ht, hb, ha, hq, h.client? hc, rfl, rfl⟩, rfl⟩
  | selectQuoteForUpdate id =>
    rw [exec_selectQuoteForUpdate] at hx ⊢
    obtain ⟨u, hu, rfl, rfl⟩ := hx
    have hq : (db.quote? u).isSome := by simpa [Durable] using hr
    have hq' := h.quote? (hn (.quote u) (by simp [needs, Option.mem_def.mp hu, hq]))
    exact ⟨⟨u, hu, by rw [hq'], rfl⟩, by simp only [needs, Option.mem_def.mp hu, hq']⟩
  | setQuoteExecuted id =>
    exact ⟨hx, rfl⟩
  | insertTrade v =>
    rw [exec_insertTrade] at hx ⊢
    obtain ⟨hb, ha, hi, hq, hk, hc, hu, rfl, rfl⟩ := hx
    have hneeds : needs (.insertTrade v) db =
        [.tradeId v.id, .tradeQuote v.quoteId, .tradeKey v.clientId v.idempotencyKey] := by
      simp [needs, hi, hq, hk]
    rw [hneeds] at hn ⊢
    have hi' := h.trade?_isSome (hn (.tradeId v.id) (by simp))
    have hq' := h.tradeOfQuote?_isSome (hn (.tradeQuote v.quoteId) (by simp))
    have hk' := h.tradeByKey?_isSome (hn (.tradeKey v.clientId v.idempotencyKey) (by simp))
    simp only [hi, hq, hk, Option.isSome_none, Option.isSome_eq_false_iff,
      Option.isNone_iff_eq_none] at hi' hq' hk'
    exact ⟨⟨hb, ha, hi', hq', hk', h.client? hc, h.quote?_isSome hu, rfl, rfl⟩,
      by simp [needs, hi', hq', hk']⟩
  | selectBalances | selectQuote | selectTradeByKey | selectTrades => exact hr.elim

/-- A statement writes only what it needs to hold, so that two transactions that hold their locks
never write the same cell. -/
theorem touches_needs {now : Timestamp} {s : Stmt} {r : StmtRes s} {ws : List Write}
    (hx : exec now db s = .ok (r, ws)) : ∀ w ∈ ws, ∀ x ∈ w.touches, x ∈ needs s db := by
  cases s with
  | insertClientIfAbsent id name =>
    obtain ⟨-, -, rfl⟩ | ⟨hname, hid, -, rfl⟩ := exec_insertClientIfAbsent.mp hx
    · simp
    · simp [Write.touches, needs, hname, hid]
  | insertBalance c cur n =>
    obtain ⟨-, hb, -, rfl⟩ := exec_insertBalance.mp hx
    simp [Write.touches, needs, hb]
  | insertBalanceIfAbsent c cur n =>
    obtain ⟨-, ⟨-, rfl⟩ | ⟨hb, -, rfl⟩⟩ := exec_insertBalanceIfAbsent.mp hx
    · simp
    · simp [Write.touches, needs, hb]
  | debitBalance c cur n =>
    obtain ⟨-, ⟨-, -, rfl⟩ | ⟨b, hb, hle, -, -, rfl⟩⟩ := exec_debitBalance.mp hx
    · simp
    · simp [Write.touches, needs, Option.mem_def.mp hb, Int.not_lt.mpr hle]
  | creditBalance c cur n =>
    obtain ⟨-, ⟨-, -, rfl⟩ | ⟨b, -, -, rfl⟩⟩ := exec_creditBalance.mp hx <;>
      simp [Write.touches, needs]
  | insertLedgerEntry row =>
    obtain ⟨-, -, rfl⟩ := exec_insertLedgerEntry.mp hx
    simp [Write.touches]
  | insertQuote v =>
    obtain ⟨-, t, -, -, -, hq, -, -, rfl⟩ := exec_insertQuote.mp hx
    simp [Write.touches, needs, hq, QuoteValues.row]
  | setQuoteExecuted id =>
    rw [exec_setQuoteExecuted.mp hx]
    simp [Write.touches, needs]
  | insertTrade v =>
    obtain ⟨-, -, hi, hq, hk, -, -, -, rfl⟩ := exec_insertTrade.mp hx
    simp [Write.touches, needs, hi, hq, hk, TradeValues.row]
  | lockBalance c cur =>
    obtain ⟨-, rfl⟩ := exec_lockBalance.mp hx
    simp
  | selectBalances c =>
    obtain ⟨-, rfl⟩ := exec_selectBalances.mp hx
    simp
  | selectQuote id =>
    obtain ⟨-, -, -, rfl⟩ := exec_selectQuote.mp hx
    simp
  | selectQuoteForUpdate id =>
    obtain ⟨-, -, -, rfl⟩ := exec_selectQuoteForUpdate.mp hx
    simp
  | selectTradeByKey c key =>
    obtain ⟨-, rfl⟩ := exec_selectTradeByKey.mp hx
    simp
  | selectTrades c cursor limit => rw [exec_selectTrades_writes hx]; simp

end

/-- A database agrees with itself, whatever is locked. -/
theorem Agree.refl (L : List Resource) (db : Database) : Agree L db db :=
  ⟨fun _ _ => rfl, fun _ h => h⟩

/-- Agreement on the same locks goes on from one database to the next, as the others commit one
after the other. -/
theorem Agree.trans {L : List Resource} {db db' db'' : Database} (h : Agree L db db')
    (h' : Agree L db' db'') : Agree L db db'' :=
  ⟨fun r hr => (h'.locked r hr).trans (h.locked r hr), fun r hr => h'.occupied r (h.occupied r hr)⟩

/-- A write of somebody else, who holds what it touches, keeps the locked cells: no resource is
locked by two transactions. -/
theorem Agree.foreign {L : List Resource} {w : Write} (db : Database)
    (h : ∀ r ∈ w.touches, r ∉ L) : Agree L db (w.apply db) :=
  ⟨fun r hr => (cell_apply w db r).trans (effect_of_not_touched (fun hm => h r hm hr) _),
    fun r hr => (cell_apply w db r).symm ▸ isSome_effect_of_isSome w r hr⟩

/-- The same write on both sides keeps agreement, as what it makes of a cell depends on the cell
only. -/
theorem Agree.apply {L : List Resource} {db db' : Database} (w : Write) (h : Agree L db db') :
    Agree L (w.apply db) (w.apply db') := by
  refine ⟨fun r hr => ?_, fun r hr => ?_⟩
  · rw [cell_apply, cell_apply, h.locked r hr]
  · rw [cell_apply] at hr ⊢
    exact isSome_effect w r (h.occupied r) hr

/-- **The laws of isolation** hold of the statements and their locks: the instance of the library's
structure from which it proves that transactions amount to solo runs. -/
def isolation : Isolation backend where
  Agree := Agree
  Durable := Durable
  agree_refl := Agree.refl
  agree_trans := Agree.trans
  agree_foreign db h := Agree.foreign db h
  agree_apply w h := Agree.apply w h
  exec_agree h hn hx hr := exec_agree h hn hx hr
  touches_needs hx := touches_needs hx

end MiniOpenFX
