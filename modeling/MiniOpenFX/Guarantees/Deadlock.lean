import MiniOpenFX.Guarantees.Tables

/-!
# Waiting in a circle

Balance rows are locked in the order of their currencies, but rows that are not there yet are first
inserted in the order debit, credit, and an inserted row is locked by its key. Transactions can
therefore wait for each other in a circle only at those inserts: each of them executes a quote for
a client that has neither of the quote's two balances, has inserted the debit's and waits for the
credit's (`Opens`). Where the debits and credits of such quotes make no circle, there is none among
the transactions (`not_deadlocked`).
-/

namespace MiniOpenFX

open Js Transactional

/-! ## What a transaction waits for -/

/-- A key of a new trade. -/
def OfTrade : Resource → Prop
  | .tradeId _ | .tradeQuote _ | .tradeKey .. => True
  | _ => False

/-- A transaction on the committed data `db` that holds `L` is at the balance row of the client in
the currency: about to insert it, or about to lock it. -/
inductive AtBalance (db : Database) (c : Uuid) (cur : String) : List Resource → Prop where
  | ensure {xs L₀ pre post} (opening : Opening db c xs L₀) (split : xs = pre ++ cur :: post)
      (absent : db.balance? c cur = none)
      (client : missing db c pre ≠ [] → (db.client? c).isSome) :
      AtBalance db c cur (L₀ ++ missing db c pre)
  | lock {xs L₀ pre post} (opening : Opening db c xs L₀)
      (split : xs.insertionSort (· ≤ ·) = pre ++ cur :: post) (there : (db.balance? c cur).isSome)
      (client : missing db c xs ≠ [] → (db.client? c).isSome) :
      AtBalance db c cur (L₀ ++ missing db c xs ++ pre.map (.balance c))

/-- Where a transaction on the committed data `db` that holds `L` can wait for a resource `r` of
those it needs, `N`. -/
inductive Waiting (db : Database) : List Resource → List Resource → Resource → Prop where
  | balance {c cur L} (h : AtBalance db c cur L) :
      Waiting db L [.balance c cur] (.balance c cur)
  | trade {L N r} (h : OfTrade r) (locks : ∀ x ∈ L, ¬ OfTrade x) : Waiting db L N r
  | fund {L client cur} (fresh : db.client? client = none)
      (name : .clientName Seed.DEMO_CLIENT_NAME ∈ L) (locks : ∀ x ∈ L, ¬ OfTrade x)
      (absent : db.balance? client cur = none) :
      Waiting db L [.balance client cur] (.balance client cur)

section
variable {db : Database} {c c' : Uuid} {cur cur' : String} {xs : List String}
  {L N L₀ L' N' L'' N'' : List Resource} {r r' r'' : Resource}

/-- The balances that are missing for a list of currencies. -/
theorem mem_missing {x : Resource} :
    x ∈ missing db c xs ↔ ∃ cur ∈ xs, db.balance? c cur = none ∧ x = .balance c cur := by
  simp only [missing, List.mem_map, List.mem_filter, Option.isNone_iff_eq_none]
  constructor
  · rintro ⟨cur, ⟨h, h'⟩, rfl⟩
    exact ⟨cur, h, h', rfl⟩
  · rintro ⟨cur, h, h', rfl⟩
    exact ⟨cur, ⟨h, h'⟩, rfl⟩

/-- What is held when the balances are to be locked is the quote, if any: a deposit holds nothing,
a trade its quote. -/
theorem Opening.mem (h : Opening db c xs L₀) {x : Resource} (hx : x ∈ L₀) :
    ∃ q, Executing db q ∧ q.clientId = c ∧ xs = q.currencies ∧ x = .quote q.id := by
  cases h with
  | deposit => cases hx
  | trade h => exact ⟨_, h, rfl, rfl, List.mem_singleton.mp hx⟩

/-- What is held on the way through the balances: the quote, rows that were missing, and rows that
are locked, of currencies before the next one. -/
theorem AtBalance.mem (h : AtBalance db c cur L) {x : Resource} (hx : x ∈ L) :
    (∃ u, x = .quote u) ∨
      (∃ b, x = .balance c b ∧ db.balance? c b = none ∧ (db.client? c).isSome) ∨
      ∃ b, x = .balance c b ∧ (db.balance? c b).isSome ∧ b < cur ∧ (db.balance? c cur).isSome := by
  cases h with
  | @ensure xs L₀ pre post opening _ _ client =>
    rcases List.mem_append.mp hx with hx | hx
    · obtain ⟨q, -, -, -, rfl⟩ := opening.mem hx
      exact .inl ⟨q.id, rfl⟩
    · obtain ⟨b, -, hb, rfl⟩ := mem_missing.mp hx
      exact .inr (.inl ⟨b, rfl, hb, client (List.ne_nil_of_mem hx)⟩)
  | @lock xs L₀ pre post opening split there client =>
    rcases List.mem_append.mp hx with hx | hx
    · rcases List.mem_append.mp hx with hx | hx
      · obtain ⟨q, -, -, -, rfl⟩ := opening.mem hx
        exact .inl ⟨q.id, rfl⟩
      · obtain ⟨b, -, hb, rfl⟩ := mem_missing.mp hx
        exact .inr (.inl ⟨b, rfl, hb, client (List.ne_nil_of_mem hx)⟩)
    · obtain ⟨b, hb, rfl⟩ := List.mem_map.mp hx
      have hmem : b ∈ xs := (List.perm_insertionSort (· ≤ ·) xs).mem_iff.mp
        (split ▸ List.mem_append_left _ hb)
      cases hrow : db.balance? c b with
      | none =>
        have hmiss : Resource.balance c b ∈ missing db c xs := mem_missing.mpr ⟨b, hmem, hrow, rfl⟩
        exact .inr (.inl ⟨b, rfl, hrow, client (List.ne_nil_of_mem hmiss)⟩)
      | some row =>
        have hle := List.pairwise_insertionSort (· ≤ ·) xs
        have hnd : (xs.insertionSort (· ≤ ·)).Nodup :=
          (List.perm_insertionSort (· ≤ ·) xs).nodup_iff.mpr opening.nodup
        rw [split, List.pairwise_append] at hle
        rw [split, List.nodup_append] at hnd
        exact .inr (.inr ⟨b, rfl, by rw [hrow]; rfl,
          lt_of_le_of_ne (hle.2.2 b hb cur (.head _)) (hnd.2.2 b hb cur (.head _)), there⟩)

/-- Until the trade is inserted, none of its keys is held. So nobody waits for a key of a trade
while holding up somebody else. -/
theorem Waiting.not_ofTrade (h : Waiting db L N r) : ∀ x ∈ L, ¬ OfTrade x := by
  cases h with
  | trade _ locks => exact locks
  | fund _ _ locks _ => exact locks
  | balance h =>
    intro x hx
    rcases h.mem hx with ⟨u, rfl⟩ | ⟨b, rfl, -⟩ | ⟨b, rfl, -⟩ <;> exact id

/-- Where a transaction that holds something needs something else: at a balance that it inserts or
locks, or at the keys of its trade. -/
theorem Running.waiting {ws : List Write} {st : Stmt} (h : Running db ws L st)
    (hheld : ∃ x, x ∈ L) (hr : r ∈ needs st (db.after ws)) (hfree : r ∉ L) :
    Waiting db L (needs st (db.after ws)) r := by
  cases h with
  | lockQuote | insertClient => obtain ⟨x, hx⟩ := hheld; cases hx
  | held _ h => exact absurd (h r hr) hfree
  | @ensure c xs L₀ pre cur post _ opening split view client =>
    rw [view] at hr ⊢
    cases hb : (db.ensureBalances c pre).balance? c cur with
    | some b => simp [needs, hb] at hr
    | none =>
      have hneeds : needs (.insertBalanceIfAbsent c cur 0) (db.ensureBalances c pre) =
          [.balance c cur] := by
        simp [needs, hb]
      rw [hneeds] at hr ⊢
      obtain rfl := List.mem_singleton.mp hr
      have habsent := db.isSome_balance?_ensureBalances c pre c cur
      rw [hb] at habsent
      exact .balance (.ensure opening split
        (by simpa using (Bool.or_eq_false_iff.mp habsent.symm).1) client)
  | @lock c xs L₀ pre cur post _ opening split view client =>
    have hmem : cur ∈ xs := (List.perm_insertionSort (· ≤ ·) xs).mem_iff.mp (split ▸ by simp)
    have hb : ((db.ensureBalances c xs).balance? c cur).isSome := by
      rw [Database.isSome_balance?_ensureBalances]
      simp [hmem]
    have hneeds : needs (.lockBalance c cur) (db.ensureBalances c xs) = [.balance c cur] := by
      simp [needs, hb]
    rw [view, hneeds] at hr ⊢
    obtain rfl := List.mem_singleton.mp hr
    refine .balance (.lock opening split ?_ client)
    by_contra hnone
    rw [Bool.not_eq_true, Option.isSome_eq_false_iff, Option.isNone_iff_eq_none] at hnone
    exact hfree (List.mem_append_left _ (List.mem_append_right _
      (mem_missing.mpr ⟨cur, hmem, hnone, rfl⟩)))
  | insertTrade _ _ locks =>
    refine .trade ?_ fun x hx => ?_
    · simp only [needs] at hr
      repeat' split at hr
      all_goals grind [OfTrade]
    · rcases locks x hx with rfl | ⟨cur, rfl⟩ <;> exact id
  | @fund client _ _ cur n fresh name locks =>
    cases hb : (db.after ws).balance? client cur with
    | some b => simp [needs, hb] at hr
    | none =>
      have hneeds : needs (.insertBalance client cur n) (db.after ws) = [.balance client cur] := by
        simp [needs, hb]
      rw [hneeds] at hr ⊢
      obtain rfl := List.mem_singleton.mp hr
      refine .fund fresh name (fun x hx => ?_) ?_
      · rcases locks x hx with rfl | rfl | ⟨cur, rfl⟩ <;> exact id
      · -- no write removes a row
        have hagree : Agree [] db (db.after ws) :=
          isolation.agree_applyAll_foreign db fun _ _ _ _ h => List.not_mem_nil h
        by_contra hsome
        have := hagree.balance?_isSome (Option.isSome_iff_ne_none.mpr hsome)
        rw [hb] at this
        cases this

/-- In a chain of three that wait, the first is at a balance row: the second has no key of a trade
to give, and none of the rows of a client that is not there. -/
theorem Waiting.atBalance (h : Waiting db L N r) (h' : Waiting db L' N' r')
    (h'' : Waiting db L'' N'' r'') (hr : r ∈ L') (hr' : r' ∈ L'') (hexcl : ∀ x ∈ L, x ∉ L') :
    ∃ c cur, AtBalance db c cur L ∧ N = [.balance c cur] ∧ r = .balance c cur := by
  cases h with
  | balance h => exact ⟨_, _, h, rfl, rfl⟩
  | trade h => exact absurd h (h'.not_ofTrade _ hr)
  | fund fresh name _ absent =>
    cases h' with
    | trade h' => exact absurd h' (h''.not_ofTrade _ hr')
    | fund _ name' => exact absurd name' (hexcl _ name)
    | balance h' =>
      rcases h'.mem hr with ⟨u, hu⟩ | ⟨b, hb, -, client⟩ | ⟨b, hb, there, -⟩
      · cases hu
      · cases hb
        rw [fresh] at client
        cases client
      · cases hb
        rw [absent] at there
        cases there

/-- Of the currencies of a quote, only the debit's comes before another, the credit's. A trade has
two balances at most, and inserts them in this order. -/
theorem currencies_split {q : QuoteRow Timestamp} {pre post : List String}
    (h : q.currencies = pre ++ cur :: post) (hpre : cur' ∈ pre) :
    cur' ≠ cur ∧ q.debitCurrency = cur' ∧ q.creditCurrency = cur := by
  have hcases : q.currencies = [q.debitCurrency] ∨
      q.creditCurrency ≠ q.debitCurrency ∧ q.currencies = [q.debitCurrency, q.creditCurrency] := by
    unfold QuoteRow.currencies LedgerService.uniqueCurrencies
    by_cases he : q.creditCurrency = q.debitCurrency
    · simp [List.eraseDups_cons, he]
    · simp [List.eraseDups_cons, he]
  cases pre with
  | nil => cases hpre
  | cons a pre =>
    rcases hcases with hone | ⟨hne, htwo⟩
    · rw [hone] at h
      simp at h
    · rw [htwo, List.cons_append, List.cons.injEq] at h
      rcases List.append_eq_singleton_iff.mp h.2.symm with ⟨rfl, h'⟩ | ⟨-, h'⟩
      · cases h'
        obtain rfl := List.mem_singleton.mp hpre
        exact ⟨h.1 ▸ hne.symm, h.1, rfl⟩
      · cases h'

/-- A transaction that has inserted one row and is at the next executes a quote for a client with
neither. -/
theorem AtBalance.of_inserted (h : AtBalance db c cur L) (absent : db.balance? c cur = none)
    (hb : .balance c cur' ∈ L) : cur' ≠ cur ∧ ∃ q, .quote q.id ∈ L ∧ Executing db q ∧
      q.clientId = c ∧ q.debitCurrency = cur' ∧ q.creditCurrency = cur := by
  cases h with
  | lock _ _ there =>
    rw [absent] at there
    cases there
  | @ensure xs L₀ pre post opening split =>
    have hpre : cur' ∈ pre := by
      rcases List.mem_append.mp hb with hb | hb
      · obtain ⟨q, -, -, -, hq⟩ := opening.mem hb
        cases hq
      · obtain ⟨b, hb, -, he⟩ := mem_missing.mp hb
        cases he
        exact hb
    cases opening with
    | deposit clientId currency =>
      rcases List.append_eq_singleton_iff.mp split.symm with ⟨rfl, -⟩ | ⟨-, h⟩
      · cases hpre
      · cases h
    | @trade q executing =>
      obtain ⟨hne, hdebit, hcredit⟩ := currencies_split split hpre
      exact ⟨hne, q, by simp, executing, rfl, hdebit, hcredit⟩

/-- One step of the circle, from balance row to balance row of one client: among rows that are
there to a later currency, among missing rows along a quote in progress. -/
theorem AtBalance.next (_ : AtBalance db c cur L) (h' : AtBalance db c' cur' L')
    (hr : .balance c cur ∈ L') : c' = c ∧
      ((db.balance? c cur).isSome → (db.balance? c cur').isSome ∧ cur < cur') ∧
      (db.balance? c cur = none → db.balance? c cur' = none → cur ≠ cur' ∧
        ∃ q, .quote q.id ∈ L' ∧ Executing db q ∧ q.clientId = c ∧ q.debitCurrency = cur ∧
          q.creditCurrency = cur') := by
  rcases h'.mem hr with ⟨u, hu⟩ | ⟨b, hb, absent, -⟩ | ⟨b, hb, there, hlt, there'⟩
  · cases hu
  · cases hb
    refine ⟨rfl, fun there => ?_, fun _ absent' => h'.of_inserted absent' hr⟩
    rw [absent] at there
    cases there
  · cases hb
    refine ⟨rfl, fun _ => ⟨there', hlt⟩, fun absent => ?_⟩
    rw [absent] at there
    cases there

end

/-! ## The circle -/

/-- A transaction in progress executes a quote that debits `a` and credits `b`, for a client that
has neither balance: it is to insert the row of `a` and then the row of `b`. -/
structure Opens (s : Sys) (c : Uuid) (a b : String) : Prop where
  distinct : a ≠ b
  noDebit : s.data.balance? c a = none
  noCredit : s.data.balance? c b = none
  quote : ∃ i q, .quote q.id ∈ s.locks i ∧ Executing s.data q ∧ q.clientId = c ∧
    q.debitCurrency = a ∧ q.creditCurrency = b

section
variable [DecimalJs] {db : Database} {e : Surroundings} {s : Sys}

/-- A thread that waits and holds something is in one of the states of `Waiting`, for a resource
that another one holds. -/
theorem waiting_of_waitsFor (h : State.Reaches program (State.init db e) s) {i j : Nat}
    (hw : s.WaitsFor i j) (hheld : ∃ r, r ∈ s.locks i) :
    ∃ r, r ∈ s.locks j ∧ Waiting s.data (s.locks i) (s.wants i) r := by
  obtain ⟨hi, -⟩ := later_of_reaches h
  obtain ⟨_, _, _, ws, st, hrun, hwants⟩ := hi.waiting hw hheld
  obtain ⟨hij, r, hr, hj⟩ := hw
  refine ⟨r, hj, ?_⟩
  rw [hwants] at hr ⊢
  exact Running.waiting hrun hheld hr fun hm => hi.exclusive i j r hij hm hj

/-- **No deadlock.** At any time, from whatever tables the system starts, no threads wait for each
other in a circle, unless some client's quotes in progress, for balances it does not have, debit and
credit in a circle. -/
theorem not_deadlocked (h : State.Reaches program (State.init db e) s)
    (acyclic : ∀ c a, ¬ Relation.TransGen (Opens s c) a a) : ¬ s.Deadlocked := by
  intro hdead
  obtain ⟨C, ⟨i₀, hi₀⟩, circle⟩ := hdead.circle
  have next : ∀ i, C i → ∃ j, C j ∧ s.WaitsFor i j := fun i hi => by
    obtain ⟨j, ⟨-, hj, hw⟩, -⟩ := Relation.TransGen.head'_iff.mp (circle i hi)
    exact ⟨j, hj, hw⟩
  have held : ∀ i, C i → ∃ r, r ∈ s.locks i := fun i hi => by
    obtain ⟨j, -, -, -, -, r, -, hr⟩ := Relation.TransGen.tail'_iff.mp (circle i hi)
    exact ⟨r, hr⟩
  have hexcl := (later_of_reaches h).1.exclusive
  -- everybody in the circle is at a balance row
  have atBalance : ∀ i, C i → ∃ c cur, AtBalance s.data c cur (s.locks i) ∧
      s.wants i = [.balance c cur] := by
    intro i hi
    obtain ⟨j, hj, hij⟩ := next i hi
    obtain ⟨k, hk, hjk⟩ := next j hj
    obtain ⟨l, -, hkl⟩ := next k hk
    obtain ⟨r, hr, hwi⟩ := waiting_of_waitsFor h hij (held i hi)
    obtain ⟨r', hr', hwj⟩ := waiting_of_waitsFor h hjk (held j hj)
    obtain ⟨r'', -, hwk⟩ := waiting_of_waitsFor h hkl (held k hk)
    obtain ⟨c, cur, hat, hwants, -⟩ :=
      hwi.atBalance hwj hwk hr hr' fun x hx => hexcl i j x hij.1 hx
    exact ⟨c, cur, hat, hwants⟩
  -- from one of them to the next
  have step : ∀ {i j c cur}, (C i ∧ C j ∧ s.WaitsFor i j) → s.wants i = [.balance c cur] →
      ∃ cur', s.wants j = [.balance c cur'] ∧
        ((s.data.balance? c cur).isSome → (s.data.balance? c cur').isSome ∧ cur < cur') ∧
        (s.data.balance? c cur = none → s.data.balance? c cur' = none → Opens s c cur cur') := by
    rintro i j c cur ⟨hi, hj, hw⟩ hwants
    obtain ⟨c₁, cur₁, hat, hwants₁⟩ := atBalance i hi
    obtain ⟨c₂, cur₂, hat₂, hwants₂⟩ := atBalance j hj
    cases hwants.symm.trans hwants₁
    obtain ⟨-, r, hr, hr'⟩ := hw
    rw [hwants] at hr
    obtain rfl := List.mem_singleton.mp hr
    obtain ⟨rfl, later, opens⟩ := hat.next hat₂ hr'
    refine ⟨cur₂, hwants₂, later, fun absent absent' => ?_⟩
    obtain ⟨hne, q, hq, hex, hrest⟩ := opens absent absent'
    exact ⟨hne, absent, absent', j, q, hq, hex, hrest⟩
  -- rows that are there are waited for in the order of their currencies
  have absent : ∀ {i c cur}, C i → s.wants i = [.balance c cur] →
      s.data.balance? c cur = none := by
    intro i c cur hi hwants
    rw [← Option.not_isSome_iff_eq_none]
    intro there
    have : ∀ j, Relation.TransGen (fun i j => C i ∧ C j ∧ s.WaitsFor i j) i j →
        ∃ cur', s.wants j = [.balance c cur'] ∧ (s.data.balance? c cur').isSome ∧ cur < cur' := by
      intro j hj
      induction hj with
      | single hj =>
        obtain ⟨cur', hwants', later, -⟩ := step hj hwants
        exact ⟨cur', hwants', later there⟩
      | tail _ hj ih =>
        obtain ⟨cur₁, hwants₁, there₁, hlt₁⟩ := ih
        obtain ⟨cur', hwants', later, -⟩ := step hj hwants₁
        exact ⟨cur', hwants', (later there₁).1, hlt₁.trans (later there₁).2⟩
    obtain ⟨cur', hwants', -, hlt⟩ := this i (circle i hi)
    cases hwants.symm.trans hwants'
    exact lt_irrefl _ hlt
  -- and missing rows along the quotes in progress
  obtain ⟨c, cur, -, hwants⟩ := atBalance i₀ hi₀
  have : ∀ j, Relation.TransGen (fun i j => C i ∧ C j ∧ s.WaitsFor i j) i₀ j →
      ∃ cur', s.wants j = [.balance c cur'] ∧ Relation.TransGen (Opens s c) cur cur' := by
    intro j hj
    induction hj with
    | single hj =>
      obtain ⟨cur', hwants', -, opens⟩ := step hj hwants
      exact ⟨cur', hwants', .single (opens (absent hj.1 hwants) (absent hj.2.1 hwants'))⟩
    | tail _ hj ih =>
      obtain ⟨cur₁, hwants₁, hchain⟩ := ih
      obtain ⟨cur', hwants', -, opens⟩ := step hj hwants₁
      exact ⟨cur', hwants', hchain.tail (opens (absent hj.1 hwants₁) (absent hj.2.1 hwants'))⟩
  obtain ⟨cur', hwants', hchain⟩ := this i₀ (circle i₀ hi₀)
  cases hwants.symm.trans hwants'
  exact acyclic c cur hchain

end

/-! ## Alice's quotes -/

namespace Sample

open scoped Reference

/-- Threads 2 and 3 execute the same quote: one has inserted a balance, the other waits for it. -/
def queueing : List (Label backend Call) :=
  deposits ++ quotes ++ [executes quoteId.text "key", executes quoteId.text "other"] ++
    acts 2 6 tradeId ++ acts 3 2 tradeId

/-- A second quote of the same client. -/
def otherQuoteId : Uuid := ⟨"ffffffff-ffff-4fff-8fff-ffffffffffff", by decide, by decide⟩

/-- Thread 0 makes a quote to buy bitcoin and thread 1 one to sell it, both for balances Alice does
not have. -/
def opposite : List (Label backend Call) :=
  .spawn (.createQuote alice ⟨"BTC", "USDT", .BUY, "0.01"⟩) :: acts 0 1 quoteId ++
    [asks 0 exchangeInfo] ++ acts 0 2 quoteId ++ [asks 0 bookTicker] ++ acts 0 8 quoteId ++
    .spawn (.createQuote alice ⟨"BTC", "USDT", .SELL, "0.01"⟩) :: acts 1 7 otherQuoteId

/-- Threads 2 and 3 execute them: each has inserted one balance and is at the other. -/
def crossing : List (Label backend Call) :=
  opposite ++ [executes quoteId.text "key", executes otherQuoteId.text "other"] ++
    acts 2 5 tradeId ++ acts 3 5 tradeId

end Sample

section
open scoped Reference

/-- Two calls that execute one quote. -/
theorem not_deadlocked_queueing : ¬ (Sample.after Sample.queueing).Deadlocked := by
  refine not_deadlocked (Sample.reached (by decide +kernel)) fun c a h => ?_
  obtain ⟨b, opens, -⟩ := Relation.TransGen.head'_iff.mp h
  obtain ⟨i, q, -, executing, rfl, rfl, -⟩ := opens.quote
  have hquotes : (Sample.after Sample.queueing).data.quotes = [Sample.quote] := by decide +kernel
  have hq := (mem_of_quote? executing.found).1
  rw [hquotes] at hq
  obtain rfl := List.mem_singleton.mp hq
  exact absurd opens.noDebit (by decide +kernel)

/-- Two calls that execute opposite quotes wait for each other, if Alice has neither balance. -/
theorem deadlocked_crossing : ∃ s, State.Reaches program
    (Sys.start Sample.clients Sample.surroundings) s ∧ s.WaitsFor 2 3 ∧ s.WaitsFor 3 2 :=
  ⟨Sample.after Sample.crossing, Sample.reached (by decide +kernel),
    ⟨by decide, .balance Sample.alice "BTC", by decide +kernel⟩,
    ⟨by decide, .balance Sample.alice "USDT", by decide +kernel⟩⟩

end

end MiniOpenFX
