import MiniOpenFX.Guarantees.KeyRace

/-!
# What happened stays

No step of the system takes anything back. Every step is one effect of one call on the tables
(`effect_of_step`), and whatever the calls in progress do, from any reachable state to any later one
(`growth`): clients, ledger entries and trades are only added, behind those there are, and never
change; a quote changes only its status, once, from ACTIVE to EXECUTED; a balance row only its
amount, and the amount by what the new ledger entries say.
-/

namespace MiniOpenFX

open Js Transactional

variable [DecimalJs]

/-! ## The effect of a step -/

/-- The effect is what the call commits, or its new quote: everything that an act of the call can
do to the tables. -/
def Effect.MadeBy (c : Call) (e : Effect) : Prop :=
  e.CommittedBy c ∨ ∃ row dto, e = .quote row ∧ c = .createQuote row.clientId dto

section
variable {s s' : Sys} {l : Label backend Call}

/-- Only an act of a thread changes the tables: calls that come in or lose their connection, and
time that passes, leave them alone. -/
theorem data_of_not_run (hst : s.step program l = some s') (hl : ∀ i χ, l ≠ .run i χ) :
    s'.data = s.data := by
  cases l with
  | spawn c =>
    cases hst
    rfl
  | tick χ =>
    cases hst
    rfl
  | run i χ => exact absurd rfl (hl i χ)
  | interrupt i =>
    obtain ⟨t, hi, h'⟩ := Option.bind_eq_some_iff.mp hst
    obtain ⟨⟨p, ev, w⟩, hout, rfl⟩ := Option.map_eq_some_iff.mp h'
    change w.data = s.data
    generalize t.prog = prog at hout
    cases prog <;> cases hout <;> rfl
  | crash i =>
    obtain ⟨t, hi, h'⟩ := Option.bind_eq_some_iff.mp hst
    cases h'
    rfl

/-- A step changes the tables by one effect of the call that acts, which can be no effect. This is
the case distinction that the results on runs are proved by. -/
theorem effect_of_step
    (hs : Isolated isolation rely (fun _ => obligationsOf) (fun _ => answers) s)
    (hst : s.step program l = some s') : ∃ e : Effect, e.Allowed s.data ∧ s'.data = e.apply s.data ∧
      (e = .nothing ∨ ∃ i χ t, l = .run i χ ∧ s.threads[i]? = some t ∧ e.MadeBy t.call) := by
  have hsame : s'.data = s.data → ∃ e : Effect, e.Allowed s.data ∧ s'.data = e.apply s.data ∧
      (e = .nothing ∨ ∃ i χ t, l = .run i χ ∧ s.threads[i]? = some t ∧ e.MadeBy t.call) :=
    fun h => ⟨.nothing, trivial, h, .inl rfl⟩
  cases l with
  | spawn c | tick χ | interrupt i | crash i =>
    exact hsame (data_of_not_run hst fun _ _ h => by cases h)
  | run i χ =>
    obtain ⟨t, p, ev, w, hi, hact, rfl⟩ := State.step_run hst
    change w.data = s.data → _ at hsame
    cases hprog : t.prog with
    | done => rw [hprog] at hact; cases hact
    | begin | rollback | ext => rw [hprog] at hact; cases hact; exact hsame rfl
    | commit k =>
      rcases tables_of_step hs hst with ⟨hcommitted, -⟩ | ⟨c, ℓ, hcommitted, halone⟩
      · obtain ⟨c, prog, ℓ, tx⟩ := t
        cases hprog
        simp only [State.committed, hi] at hcommitted
        cases hcommitted
      · obtain ⟨e, he, hdata, hby⟩ := halone.effect
        refine ⟨e, he, hdata, .inr ⟨i, χ, t, rfl, hi, .inl ?_⟩⟩
        obtain ⟨c', prog, ℓ', tx⟩ := t
        cases hprog
        simp only [State.committed, hi] at hcommitted
        cases hcommitted
        exact hby
    | sql st k =>
      rw [hprog] at hact
      simp only [Prog.step] at hact
      split at hact
      · next r ws hx =>
        cases hact
        obtain ⟨tx, htx, -⟩ | ⟨htx, halone, hserves⟩ := hs.sql hi hprog
        · exact hsame (by simp [World.record, State.world, htx])
        · have hx : exec (s.world t).stamp (s.world t).view st = .ok (r, ws) := hx
          have hview : (s.world t).view = s.data := by
            simp only [World.view, State.world, htx]
          have hdata : ((s.world t).record (backend.needs st (s.world t).view) ws).data =
              s.data.after ws := by
            simp only [World.record, State.world, htx]
          by_cases hv : ∃ v, st = .insertQuote v
          · obtain ⟨v, rfl⟩ := hv
            obtain ⟨dto, hcall⟩ := hserves.insertQuote
            obtain ⟨-, expiresAt, -, -, -, hfresh, -, -, rfl⟩ := exec_insertQuote.mp hx
            refine ⟨.quote (v.row expiresAt _), ⟨hview ▸ hfresh, halone⟩, hdata, .inr ?_⟩
            exact ⟨i, χ, t, rfl, hi, .inr ⟨_, dto, rfl, hcall⟩⟩
          · obtain rfl := halone.reads (fun v h => hv ⟨v, h⟩) hx
            exact hsame hdata
      · cases hact
        exact hsame rfl

end

/-! ## Rows stay -/

/-- The rows are there in their order, related by `R` to what they were, and new ones follow.
Tables are lists of rows here, in the order of their insertion. -/
inductive Extends {ρ : Type} (R : ρ → ρ → Prop) : List ρ → List ρ → Prop
  | new (l : List ρ) : Extends R [] l
  | old {a b l l'} (row : R a b) (rows : Extends R l l') : Extends R (a :: l) (b :: l')

namespace Extends

variable {ρ : Type} {R : ρ → ρ → Prop} {l l' l'' : List ρ}

omit [DecimalJs]

/-- Rows that stay as they are, with new ones after them. -/
theorem append (hR : ∀ a, R a a) (l new : List ρ) : Extends R l (l ++ new) := by
  induction l with
  | nil => exact .new new
  | cons a l ih => exact .old (hR a) ih

/-- A list extends itself, where every row may stay as it is. -/
theorem refl (hR : ∀ a, R a a) (l : List ρ) : Extends R l l := by
  simpa using append hR l []

/-- Changing rows in place extends a list, where each changes as `R` allows. -/
theorem map {f : ρ → ρ} (h : ∀ a ∈ l, R a (f a)) : Extends R l (l.map f) := by
  induction l with
  | nil => exact .new []
  | cons a l ih => exact .old (h a (.head _)) (ih fun b hb => h b (.tail _ hb))

/-- Rows that have gone on twice have gone on, where two changes come to one that `R` allows. -/
theorem trans (hR : ∀ {a b c}, R a b → R b c → R a c) (h : Extends R l l')
    (h' : Extends R l' l'') : Extends R l l'' := by
  induction h generalizing l'' with
  | new l => exact .new l''
  | old row rows ih =>
    cases h' with
    | old row' rows' => exact .old (hR row row') (ih rows')

end Extends

/-- The quote is as it was, or has been executed: all of its columns but the status stay. -/
def QuoteRow.Advances (q q' : QuoteRow Timestamp) : Prop :=
  q' = q ∨ q.status = .ACTIVE ∧ q' = { q with status := .EXECUTED }

/-- The balance is of the same client in the same currency; its amount may have moved. -/
def BalanceRow.SameAccount (b b' : BalanceRow) : Prop :=
  b'.clientId = b.clientId ∧ b'.currency = b.currency

/-- What the entries say about a client's money in a currency: the sum of their signed amounts. -/
def entriesSum (es : List LedgerEntryRow) (clientId : Uuid) (currency : String) : Int :=
  ((es.filter fun x => x.clientId = clientId ∧ x.currency = currency).map
    LedgerEntryRow.deltaMinor).sum

/-- How the tables go on: clients, trades and ledger entries by new rows at the end, quotes by new
ones and by changes of status, and balances by new ones and by exactly the new entries. -/
structure Database.Grows (db db' : Database) : Prop where
  clients : db.clients <+: db'.clients
  balances : Extends BalanceRow.SameAccount db.balances db'.balances
  quotes : Extends QuoteRow.Advances db.quotes db'.quotes
  trades : db.trades <+: db'.trades
  ledger : ∃ new, db'.ledgerEntries = db.ledgerEntries ++ new ∧ ∀ clientId currency,
    db'.available clientId currency =
      db.available clientId currency + entriesSum new clientId currency

namespace Database.Grows

variable {db db' db'' : Database}

omit [DecimalJs]

theorem refl (db : Database) : db.Grows db where
  clients := List.prefix_refl _
  balances := .refl (fun _ => ⟨rfl, rfl⟩) _
  quotes := .refl (fun _ => .inl rfl) _
  trades := List.prefix_refl _
  ledger := ⟨[], (List.append_nil _).symm, fun _ _ => (Int.add_zero _).symm⟩

/-- Tables that have gone on twice have gone on: the balances have moved by the entries of both
parts. -/
theorem trans (h : db.Grows db') (h' : db'.Grows db'') : db.Grows db'' where
  clients := h.clients.trans h'.clients
  balances := h.balances.trans (fun hab hbc => ⟨hbc.1.trans hab.1, hbc.2.trans hab.2⟩) h'.balances
  quotes := h.quotes.trans (fun {a b c} hab hbc => by
    rcases hab with rfl | ⟨hs, rfl⟩
    · exact hbc
    · rcases hbc with rfl | ⟨hs', rfl⟩
      · exact .inr ⟨hs, rfl⟩
      · cases hs') h'.quotes
  trades := h.trades.trans h'.trades
  ledger := by
    obtain ⟨new, hnew, hmoney⟩ := h.ledger
    obtain ⟨new', hnew', hmoney'⟩ := h'.ledger
    refine ⟨new ++ new', by rw [hnew', hnew, List.append_assoc], fun c cur => ?_⟩
    rw [hmoney', hmoney, entriesSum, entriesSum, entriesSum, List.filter_append, List.map_append,
      List.sum_append, Int.add_assoc]

/-- Making sure of a balance adds a row of zero or none, and touches nothing else. -/
theorem ensureBalance (db : Database) (c : Uuid) (cur : String) :
    db.Grows (db.ensureBalance c cur) where
  clients := by simp
  balances := by
    unfold Database.ensureBalance
    split
    · exact .append (fun _ => ⟨rfl, rfl⟩) _ _
    · exact .refl (fun _ => ⟨rfl, rfl⟩) _
  quotes := by simpa using .refl (fun _ => .inl rfl) _
  trades := by simp
  ledger := ⟨[], by simp, fun clientId currency => by
    rw [available_ensureBalance]
    exact (Int.add_zero _).symm⟩

/-- Making sure of several balances, one after the other. -/
theorem ensureBalances (db : Database) (c : Uuid) (xs : List String) :
    db.Grows (db.ensureBalances c xs) :=
  ensureBalances_keeps db c xs (P := db.Grows) (.refl db) fun d cur h =>
    h.trans (.ensureBalance d c cur)

/-- A posted entry moves its balance by as much as it says, and is itself the new entry. No other
balance moves. -/
theorem postEntry (db : Database) (e : LedgerEntryRow) : db.Grows (db.postEntry e) where
  clients := by simp
  balances := by
    unfold Database.postEntry
    split
    · exact .append (fun _ => ⟨rfl, rfl⟩) _ _
    · refine .map fun b _ => ?_
      split <;> exact ⟨rfl, rfl⟩
  quotes := by simpa using .refl (fun _ => .inl rfl) _
  trades := by simp
  ledger := by
    refine ⟨[e], by simp, fun clientId currency => ?_⟩
    rw [available_postEntry, entriesSum]
    by_cases h : clientId = e.clientId ∧ currency = e.currency
    · obtain ⟨rfl, rfl⟩ := h
      simp
    · have h' : ¬ (e.clientId = clientId ∧ e.currency = currency) :=
        fun h' => h ⟨h'.1.symm, h'.2.symm⟩
      simp [h, h']

/-- Posted entries move the balances by as much as they say. -/
theorem postEntries (db : Database) (es : List LedgerEntryRow) : db.Grows (db.postEntries es) :=
  postEntries_keeps db es (P := db.Grows) (.refl db) fun d e _ h => h.trans (.postEntry d e)

theorem client (db : Database) (row : ClientRow) : db.Grows ((Write.client row).apply db) :=
  { refl db with clients := List.prefix_append _ _ }

theorem quote (db : Database) (row : QuoteRow Timestamp) : db.Grows ((Write.quote row).apply db) :=
  { refl db with quotes := .append (fun _ => .inl rfl) _ _ }

theorem trade (db : Database) (row : TradeRow Timestamp) : db.Grows ((Write.trade row).apply db) :=
  { refl db with trades := List.prefix_append _ _ }

/-- Marking a quote changes it from ACTIVE to EXECUTED, if it was not executed before, and changes
no other. -/
theorem executed {db : Database} {id : Uuid} (h : ∀ q ∈ db.quotes, q.id = id → q.status = .ACTIVE) :
    db.Grows ((Write.executed id).apply db) := by
  refine { refl db with quotes := .map fun q hq => ?_ }
  split
  · next hid => exact .inr ⟨h q hq hid, rfl⟩
  · exact .inl rfl

end Database.Grows

/-- An effect takes nothing back: each of its writes is one of the changes above. -/
theorem Records.grows {db : Database} {e : Effect} (h : Records db) (he : e.Allowed db) :
    db.Grows (e.apply db) := by
  cases e with
  | nothing => exact .refl db
  | quote row => exact .quote db row
  | deposit clientId currency amountMinor depositId =>
    exact (Database.Grows.ensureBalance db clientId currency).trans (.postEntry _ _)
  | seed client funds => exact (Database.Grows.client db client).trans (.postEntries _ _)
  | trade q tradeId key createdAt =>
    refine ((((Database.Grows.ensureBalances db q.clientId q.currencies).trans
      (.postEntry _ _)).trans
      (.postEntry _ _)).trans (.trade _ _)).trans (.executed fun x hx hid => ?_)
    have hx : x ∈ db.quotes := by simpa [Write.apply] using hx
    obtain rfl : x = q := Option.some.inj ((h.quote? hx).symm.trans (hid ▸ he.1))
    exact he.2.1

/-- A step takes nothing back, since it changes the tables by one effect. -/
theorem grows_of_step {clients : List ClientRow} {e : Surroundings} {s s' : Sys}
    {l : Label backend Call} (h : State.Reaches program (Sys.start clients e) s)
    (hst : s.step program l = some s') : s.data.Grows s'.data := by
  obtain ⟨eff, he, hdata, -⟩ := effect_of_step (isolated_of_reaches h) hst
  exact hdata ▸ (records_of_reaches h).grows he

/-- **What happened stays.** Whatever calls are in progress, and however their acts interleave,
fail and crash: from any reachable state to any later one, no row is deleted; clients, trades and
ledger entries are added behind those there are, which do not change; a quote changes at most from
ACTIVE to EXECUTED; and every balance moves by what the new ledger entries say. -/
theorem growth {clients : List ClientRow} {e : Surroundings} {s s' : Sys}
    (h : State.Reaches program (Sys.start clients e) s) (h' : State.Reaches program s s') :
    s.data.Grows s'.data := by
  refine (h'.invariant (I := fun s' : Sys => State.Reaches program (Sys.start clients e) s' ∧
    s.data.Grows s'.data) ⟨h, .refl _⟩ ?_).2
  intro u l u' ⟨hu, hg⟩ hst
  exact ⟨hu.tail hst, hg.trans (grows_of_step hu hst)⟩

section
open scoped Reference

omit [DecimalJs] in
/-- From Alice's deposit to her trade: the quote is executed, and her two balances have moved by
the two legs. -/
theorem growth_traded : (Sample.after Sample.deposits).data.Grows
    (Sample.after (Sample.deposits ++ (Sample.quotes ++ Sample.trades))).data :=
  growth (Sample.reached (by decide +kernel)) (Sample.after_reached _ (by decide +kernel))

end

end MiniOpenFX
