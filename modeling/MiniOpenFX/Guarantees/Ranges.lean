import MiniOpenFX.Guarantees.Arbitrage
import MiniOpenFX.Balances.BalancesService
import MiniOpenFX.Quoting.QuotingService

/-!
# Amounts in the range of their columns

The services refuse an amount that is not positive; whether it is too large for its `bigint` column
is left to Postgres. `amounts_handled_iff` says for which deposits and for which quotes that makes
no difference: every amount an insert is given is in range, and whoever asks for another is
answered with a 400.
-/

namespace MiniOpenFX

open Js Transactional DecimalJs Significant

/-- The amounts that a statement inserts, each into a `bigint` column. A debit is not among them:
it takes no more than there is. -/
def Stmt.amounts : Stmt → List Int
  | .creditBalance _ _ amountMinor => [amountMinor]
  | .insertLedgerEntry row => [row.deltaMinor]
  | .insertQuote values => [values.baseAmountMinor, values.quoteAmountMinor]
  | _ => []

/-- A request is refused with a 400, or comes to insert amounts, all of them positive and in
range. -/
def AmountsHandled {α : Type} (p : App α) : Prop :=
  (∃ message, p = .done (.error (.badRequestException message))) ∨
    (p.All fun s : Stmt => ∀ n ∈ s.amounts, 1 ≤ n ∧ n ≤ 2 ^ 63 - 1) ∧
      ¬ p.All fun s : Stmt => s.amounts = []

/-- Redis is sent no statement. -/
theorem all_setJson (key : String) (value : CacheValue) (ttlMs : Int) (P : Stmt → Prop) :
    (RedisService.setJson key value ttlMs).All P := by
  refine Prog.All.bind (Prog.all_attempt.mpr fun _ => trivial) fun r => ?_
  cases r <;> trivial

namespace Sample

/-- A client. -/
def erin : Uuid := ⟨"e4e0bd7c-7a3f-4f5b-9a6e-0d6c1c2f7a51", by decide, by decide⟩

end Sample

section
variable [DecimalJs]

/-- `createQuote`, with `prices` for the two requests to the pricing service, so that what follows
them can be looked at for given answers. -/
def QuotingService.createQuoteWith (prices : App (SymbolBreakdown × IndicativePrice))
    (clientId : Uuid) (dto : CreateQuoteDto) : App QuoteResponse := do
  let baseAmountMinor ← match toMinorUnits (.text dto.baseAmount) with
    | .ok n => pure n
    | .error _ =>
      Prog.fail (.badRequestException "baseAmount must not have more than 8 decimal places")
  if baseAmountMinor ≤ 0 then
    Prog.fail (.badRequestException "baseAmount must be greater than zero")
  else
    let symbol := dto.baseCurrency ++ dto.quoteCurrency
    let (breakdown, indicativePrice) ← prices
    let ⟨price, quoteAmountMinor⟩ ← App.ofExcept
      (computeQuoteAmount dto.side baseAmountMinor indicativePrice.ask indicativePrice.bid)
    if quoteAmountMinor ≤ 0 then
      Prog.fail (.badRequestException
        "baseAmount is too small: it rounds down to a zero quote amount at the current price")
    else
      let now ← App.dateNow
      match Date.ofMillis? (now + DEFAULT_QUOTE_TTL_SECONDS * 1000) with
      | none => Prog.fail (.error "Invalid time value")
      | some expiresAt =>
        let id : Uuid ← App.request .genRandomUuid
        let row : QuoteRow Date ← App.query (.insertQuote
          { id, clientId, symbol, side := dto.side
            baseCurrency := breakdown.baseCurrency
            quoteCurrency := breakdown.quoteCurrency
            baseAmountMinor, price, quoteAmountMinor, status := .ACTIVE, expiresAt })
        RedisService.setJson (quoteCacheKey row.id.text) (.quote (serializeQuote row))
          (DEFAULT_QUOTE_TTL_SECONDS * 1000)
        return toQuoteResponse (← App.dateNow) row

/-- `createQuote` is the program with `Promise.all` of the two lookups, so what is shown of it for
given answers is shown of the service. -/
theorem createQuote_eq (clientId : Uuid) (dto : CreateQuoteDto) :
    QuotingService.createQuote clientId dto = QuotingService.createQuoteWith
      (App.promiseAll (PricingService.getSymbolBreakdown (dto.baseCurrency ++ dto.quoteCurrency))
        (PricingService.getPrice (dto.baseCurrency ++ dto.quoteCurrency))) clientId dto := rfl

end

/-! ## Which amounts are in range -/

/-- A deposit of `x` minor units, before any rounding, is refused or in range: its fraction is
noticed, or it does not round to `2 ^ 63` or more. -/
def DepositFits (x : ℚ) : Prop := TailNoticed x ∨ x < 2 ^ 63 - 1 / 20

/-- A quote for `x` minor units, before any rounding, at the price `p` is refused or in range. A
sale is refused, however large, where it earns less than a minor unit. -/
def QuoteFits (side : TradeSide) (x p : ℚ) : Prop :=
  TailNoticed x ∨ roundSig 10 PRECISION x < 1 ∨
    match side with
    | .BUY => roundSig 10 PRECISION x < 2 ^ 63 ∧ roundSig 10 PRECISION x * p < 2 ^ 63 - 1 + 1 / 20
    | .SELL => roundSig 10 PRECISION x * p < 1 - 1 / (2 * 10 ^ 20) ∨
        roundSig 10 PRECISION x < 2 ^ 63 ∧ roundSig 10 PRECISION x * p < 2 ^ 63 - 1 / 20

section
variable {x v : ℚ}

/-- A number is rounded below one just if it is so by half a unit of its last digit. This and the
two lemmas below are the borders at which amounts are refused or overflow. -/
theorem roundSig_lt_one_iff (hx : 0 < x) :
    roundSig 10 PRECISION x < 1 ↔ x < 1 - 1 / (2 * 10 ^ 20) := by
  have := pow_le_roundSig_iff (b := 10) (p := PRECISION) (by norm_num) (by decide) hx 0
  norm_num [PRECISION] at this ⊢
  rw [← not_le, this, not_le]

/-- A number is rounded below the range of a bigint just if it is so by half a unit of its last
digit. -/
theorem roundSig_lt_iff (hx : 0 < x) :
    roundSig 10 PRECISION x < 2 ^ 63 ↔ x < 2 ^ 63 - 1 / 20 := by
  have := le_roundSig_iff (b := 10) (p := PRECISION) (by norm_num) (by decide) hx
    (k := 2 ^ 63 * 10) (by decide) (by decide) (-1)
  norm_num at this ⊢
  rw [← not_le, this, not_le]

/-- A number is rounded to at most the largest bigint just if it is not more than half a unit of
the last digit above it. -/
theorem roundSig_le_max_iff (hx : 0 < x) :
    roundSig 10 PRECISION x ≤ 2 ^ 63 - 1 ↔ x < 2 ^ 63 - 1 + 1 / 20 := by
  have := roundSig_le_iff (b := 10) (p := PRECISION) (by norm_num) (by decide) hx
    (k := (2 ^ 63 - 1) * 10) (by decide) (by decide) (-1)
  norm_num at this ⊢
  exact this

/-- What is read of a text: a positive whole number, or nothing positive. In the second case the
service refuses the amount itself. -/
theorem scaled_cases (hv : 0 ≤ v) :
    (∃ n : Int, 1 ≤ n ∧ scaled v = some (n : ℚ) ∧ roundSig 10 PRECISION (v * 10 ^ 8) = (n : ℚ) ∧
        ¬ TailNoticed (v * 10 ^ 8)) ∨
      (∀ n : Int, scaled v = some (n : ℚ) → n ≤ 0) ∧
        (TailNoticed (v * 10 ^ 8) ∨ roundSig 10 PRECISION (v * 10 ^ 8) < 1) := by
  rcases hv.eq_or_lt with rfl | hv
  · refine .inr ⟨fun n hn => ?_, .inr ?_⟩
    · rw [scaled_zero] at hn
      exact_mod_cast (Option.some.inj hn).ge
    · rw [zero_mul, roundSig_zero]
      norm_num
  have hx : 0 < v * 10 ^ 8 := by positivity
  rcases lt_or_ge v (10 ^ (-MAX_EXPONENT)) with hsmall | hlarge
  · refine .inr ⟨fun n hn => ?_, .inr ?_⟩
    · rw [scaled_small hv hsmall] at hn
      exact_mod_cast (Option.some.inj hn).ge
    · have hle : (10 : ℚ) ^ (-MAX_EXPONENT) ≤ 10 ^ (-9 : Int) :=
        zpow_le_zpow_right₀ (by norm_num) (by decide)
      have h9 : (10 : ℚ) ^ (-9 : Int) = 1 / 10 ^ 9 := by norm_num
      rw [h9] at hle
      rw [roundSig_lt_one_iff hx]
      linarith
  rcases le_or_gt overflowFrom (v * 10 ^ 8) with hover | hrange
  · refine .inr ⟨fun n hn => ?_, .inl (.inl hover)⟩
    rw [scaled_overflow hlarge hover] at hn
    cases hn
  have hint := isInt_roundSig_iff (b := 10) (p := PRECISION) (by norm_num) hx.le
  have hscale : (10 : ℚ) ^ (8 - MAX_EXPONENT) ≤ v * 10 ^ 8 := by
    rw [← scale_smallest]
    exact mul_le_mul_of_nonneg_right hlarge (by norm_num)
  rw [scaled_of_range hlarge hrange]
  by_cases htail : TailNoticed (v * 10 ^ 8)
  · refine .inr ⟨fun n hn => ?_, .inl htail⟩
    exact absurd (htail.resolve_left (not_le.mpr hrange)).2 (hint.mp ⟨n, Option.some.inj hn⟩)
  · obtain ⟨k, hk⟩ := hint.mpr fun h => htail (.inr ⟨hscale, h⟩)
    rcases lt_or_ge k 1 with hk₁ | hk₁
    · refine .inr ⟨fun n hn => ?_, .inr ?_⟩
      · have : k = n := by exact_mod_cast hk.symm.trans (Option.some.inj hn)
        omega
      · rw [hk]
        exact_mod_cast hk₁
    · exact .inl ⟨k, hk₁, congrArg some hk, hk, htail⟩

end

/-! ## Deposits -/

section
variable [DecimalJs]

/-- A deposit whose amount is not read as a positive one is refused. -/
theorem createDeposit_refused {clientId : Uuid} {dto : CreateDepositDto}
    (h : ∀ n, toMinorUnits (.text dto.amount) = .ok n → n ≤ 0) :
    AmountsHandled (BalancesService.createDeposit clientId dto) := by
  left
  rw [BalancesService.createDeposit]
  cases hn : toMinorUnits (.text dto.amount) with
  | error e => exact ⟨_, rfl⟩
  | ok n =>
    refine ⟨"amount must be greater than zero", ?_⟩
    simp only [Prog.pure_eq, Prog.bind_eq, Prog.bind_ok, if_pos (h n hn)]
    rfl

/-- The statements of an accepted deposit. Only the credit and its entry have an amount, and it is
the one that was read. -/
theorem all_createDeposit (clientId : Uuid) {dto : CreateDepositDto} {n : Int}
    (hn : toMinorUnits (.text dto.amount) = .ok n) (h : 1 ≤ n) {P : Stmt → Prop}
    (hP : ∀ s : Stmt, s.amounts = [] → P s) :
    (BalancesService.createDeposit clientId dto).All P ↔
      ∀ u, P (.creditBalance clientId dto.currency n) ∧
        P (.insertLedgerEntry ⟨clientId, dto.currency, n, .DEPOSIT, "DEPOSIT", u⟩) := by
  have hunique : LedgerService.uniqueCurrencies [dto.currency] = [dto.currency] := by
    simp [LedgerService.uniqueCurrencies, List.eraseDups_cons]
  have hcovers : LedgerService.assertCovers ⟨clientId, [dto.currency]⟩ clientId dto.currency =
      .ok () := by
    simp [LedgerService.assertCovers]
  have hforM : ∀ f : String → App PUnit,
      [dto.currency].forM f = (f dto.currency).bind fun _ => .done (.ok ()) := fun _ => rfl
  have hbalances : ∀ u : Unit, (BalancesService.getBalances clientId).All P := fun _ =>
    (Prog.all_query_bind (S := sig) (.selectBalances clientId) _).mpr ⟨hP _ rfl, fun _ => trivial⟩
  rw [BalancesService.createDeposit, hn]
  simp only [Prog.pure_eq, Prog.bind_eq, Prog.bind_ok, if_neg (by omega : ¬ n ≤ 0)]
  refine (Prog.all_request_bind (S := sig) .uuidv4 _).trans (forall_congr' fun u => ?_)
  refine (Prog.all_bind_iff hbalances).trans (Prog.all_transaction.trans ?_)
  simp only [LedgerService.lockBalanceRows, LedgerService.credit, hunique, hcovers, hforM,
    App.query, App.ofExcept, Prog.pure_eq, Prog.bind_eq, Prog.bind_assoc, Prog.bind_ok,
    List.insertionSort_cons, List.insertionSort_nil, List.orderedInsert_nil]
  -- the rows are made sure of and locked, then written
  refine (Prog.all_query_bind (S := sig) (.insertBalanceIfAbsent clientId dto.currency 0) _).trans
    ((and_iff_right (hP _ rfl)).trans (forall_const Unit |>.trans ?_))
  refine (Prog.all_query_bind (S := sig) (.lockBalance clientId dto.currency) _).trans
    ((and_iff_right (hP _ rfl)).trans (forall_const (Option BalanceRow) |>.trans ?_))
  refine (Prog.all_query_bind (S := sig) (.creditBalance clientId dto.currency n) _).trans
    (and_congr_right fun _ => forall_const Unit |>.trans ?_)
  exact Prog.all_query (S := sig) _

/-- A deposit whose amount is read as `n` is handled just if `n` is in range: nothing else is
checked before the insert. -/
theorem createDeposit_accepted {clientId : Uuid} {dto : CreateDepositDto} {n : Int}
    (hn : toMinorUnits (.text dto.amount) = .ok n) (h : 1 ≤ n) :
    AmountsHandled (BalancesService.createDeposit clientId dto) ↔ n ≤ 2 ^ 63 - 1 := by
  have hrange := all_createDeposit clientId hn h
    (P := fun s => ∀ n ∈ s.amounts, 1 ≤ n ∧ n ≤ 2 ^ 63 - 1) fun s hs => by simp [hs]
  have hsome := all_createDeposit clientId hn h (P := fun s => s.amounts = [])
    fun s hs => hs
  have hreaches : ¬ (BalancesService.createDeposit clientId dto).All
      fun s : Stmt => s.amounts = [] := by
    rw [hsome]
    intro hnone
    cases (hnone clientId).1
  constructor
  · rintro (⟨message, hdone⟩ | ⟨hall, -⟩)
    · rw [hdone] at hreaches
      exact absurd trivial hreaches
    · exact ((hrange.mp hall clientId).1 n (List.mem_singleton_self n)).2
  · intro hle
    refine .inr ⟨hrange.mpr fun u => ⟨?_, ?_⟩, hreaches⟩
    all_goals
      intro k hk
      obtain rfl := List.mem_singleton.mp hk
      exact ⟨h, hle⟩

/-! ## Quotes -/

/-- A quote for an amount that is not read as a positive one is refused. -/
theorem createQuote_refused {prices : App (SymbolBreakdown × IndicativePrice)} {clientId : Uuid}
    {dto : CreateQuoteDto} (h : ∀ n, toMinorUnits (.text dto.baseAmount) = .ok n → n ≤ 0) :
    AmountsHandled (QuotingService.createQuoteWith prices clientId dto) := by
  left
  rw [QuotingService.createQuoteWith]
  cases hn : toMinorUnits (.text dto.baseAmount) with
  | error e => exact ⟨_, rfl⟩
  | ok n =>
    refine ⟨"baseAmount must be greater than zero", ?_⟩
    simp only [Prog.pure_eq, Prog.bind_eq, Prog.bind_ok, if_pos (h n hn)]
    rfl

/-- What `toMinorUnits` throws is no exception of HTTP. The services catch it where the amount is
the client's and let it through where it is not. -/
theorem toMinorUnits_error {amount : DecimalValue} {d : Decimal} (hd : amount.new = .ok d)
    {e : JsError} (h : toMinorUnits amount = .error e) : ∃ message, e = .error message := by
  rw [toMinorUnits, hd] at h
  change (if _ then _ else bigInt _) = _ at h
  split at h
  · cases h
    exact ⟨_, rfl⟩
  · rw [bigInt] at h
    split at h
    · cases h
      exact ⟨_, rfl⟩
    · cases h

theorem roundToMinorUnits_error {d : Decimal} {mode : Rounding} {e : JsError}
    (h : roundToMinorUnits (.decimal d) mode = .error e) : ∃ message, e = .error message := by
  change toMinorUnits (.decimal (toDecimalPlaces d MINOR_UNIT_DECIMALS mode)) = .error e at h
  exact toMinorUnits_error rfl h

theorem new_error {v : DecimalValue} {e : JsError} (h : v.new = .error e) :
    ∃ message, e = .error message := by
  cases v with
  | decimal d => cases h
  | text s =>
    simp only [DecimalValue.new] at h
    split at h
    · cases h
      exact ⟨_, rfl⟩
    · cases h

/-- Pricing fails with a plain `Error`, which is not caught and ends the request with a 500. -/
theorem computeQuoteAmount_error {side : TradeSide} {base : Int} {ask bid : String} {e : JsError}
    (h : computeQuoteAmount side base ask bid = .error e) : ∃ message, e = .error message := by
  simp only [computeQuoteAmount, Bind.bind, Except.bind] at h
  split at h
  · next hd =>
    cases h
    exact new_error hd
  · split at h
    · next hm =>
      cases h
      exact roundToMinorUnits_error hm
    · cases h

/-- The statements of an accepted base amount that is quoted something: one insert, with the base
amount and what it is worth. -/
theorem all_createQuoteWith (breakdown : SymbolBreakdown) {indicative : IndicativePrice}
    (clientId : Uuid) {dto : CreateQuoteDto} {n : Int} {a : QuoteAmount}
    (hn : toMinorUnits (.text dto.baseAmount) = .ok n) (h : 1 ≤ n)
    (ha : computeQuoteAmount dto.side n indicative.ask indicative.bid = .ok a)
    (ha₁ : 1 ≤ a.quoteAmountMinor) (P : Stmt → Prop) :
    (QuotingService.createQuoteWith (pure (breakdown, indicative)) clientId dto).All P ↔
      ∀ (id : Uuid) (now : Int) (expiresAt : Date),
        Date.ofMillis? (now + QuotingService.DEFAULT_QUOTE_TTL_SECONDS * 1000) = some expiresAt →
        P (.insertQuote ⟨id, clientId, dto.baseCurrency ++ dto.quoteCurrency, dto.side,
          breakdown.baseCurrency, breakdown.quoteCurrency, n, a.price, a.quoteAmountMinor, .ACTIVE,
          expiresAt⟩) := by
  rw [QuotingService.createQuoteWith, hn]
  simp only [Prog.pure_eq, Prog.bind_eq, Prog.bind_ok, if_neg (by omega : ¬ n ≤ 0), ha,
    App.ofExcept, if_neg (by omega : ¬ a.quoteAmountMinor ≤ 0)]
  refine (Prog.all_request_bind (S := sig) .dateNow _).trans ?_
  constructor
  · intro hall id now expiresAt hexpires
    have := hall now
    rw [hexpires] at this
    exact ((Prog.all_request_bind (S := sig) .genRandomUuid _).mp this id).1
  · intro hP now
    split
    · trivial
    · next expiresAt hexpires =>
      refine (Prog.all_request_bind (S := sig) .genRandomUuid _).mpr fun id => ?_
      exact (Prog.all_query_bind (S := sig) _ _).mpr ⟨hP id now expiresAt hexpires,
        fun row => (all_setJson _ _ _ P).bind fun _ =>
          (Prog.all_request_bind (S := sig) .dateNow _).mpr fun _ => trivial⟩

/-- What is said to an accepted base amount: it is handled just if something is computed of it, and
that is zero or both amounts are in range. -/
theorem createQuote_accepted {breakdown : SymbolBreakdown} {indicative : IndicativePrice}
    {clientId : Uuid} {dto : CreateQuoteDto} {n : Int}
    (hn : toMinorUnits (.text dto.baseAmount) = .ok n) (h : 1 ≤ n) :
    AmountsHandled (QuotingService.createQuoteWith (pure (breakdown, indicative)) clientId dto) ↔
      ∃ a, computeQuoteAmount dto.side n indicative.ask indicative.bid = .ok a ∧
        (a.quoteAmountMinor ≤ 0 ∨ n ≤ 2 ^ 63 - 1 ∧ a.quoteAmountMinor ≤ 2 ^ 63 - 1) := by
  cases ha : computeQuoteAmount dto.side n indicative.ask indicative.bid with
  | error e =>
    obtain ⟨message, rfl⟩ := computeQuoteAmount_error ha
    have hdone : QuotingService.createQuoteWith (pure (breakdown, indicative)) clientId dto =
        .done (.error (.error message)) := by
      rw [QuotingService.createQuoteWith, hn]
      simp only [Prog.pure_eq, Prog.bind_eq, Prog.bind_ok, if_neg (by omega : ¬ n ≤ 0), ha,
        App.ofExcept, Prog.bind_error]
    rw [hdone]
    refine iff_of_false ?_ fun ⟨_, h, _⟩ => nomatch h
    rintro (⟨_, hm⟩ | ⟨-, hreaches⟩)
    · cases hm
    · exact hreaches trivial
  | ok a =>
    simp only [Except.ok.injEq, exists_eq_left']
    rcases lt_or_ge 0 a.quoteAmountMinor with ha₁ | ha₁
    · have hrange := all_createQuoteWith breakdown clientId hn h ha ha₁
        fun s => ∀ n ∈ s.amounts, 1 ≤ n ∧ n ≤ 2 ^ 63 - 1
      have hsome := all_createQuoteWith breakdown clientId hn h ha ha₁
        fun s => s.amounts = []
      have hreaches : ¬ (QuotingService.createQuoteWith (pure (breakdown, indicative)) clientId
          dto).All fun s : Stmt => s.amounts = [] := by
        rw [hsome]
        intro hnone
        cases hnone clientId 0 _ rfl
      rw [or_iff_right (not_le.mpr ha₁)]
      constructor
      · rintro (⟨message, hdone⟩ | ⟨hall, -⟩)
        · rw [hdone] at hreaches
          exact absurd trivial hreaches
        · have hin := hrange.mp hall clientId 0 _ rfl
          exact ⟨(hin n (by simp [Stmt.amounts])).2,
            (hin a.quoteAmountMinor (by simp [Stmt.amounts])).2⟩
      · rintro ⟨hle, hle'⟩
        refine .inr ⟨hrange.mpr fun id now expiresAt _ k hk => ?_, hreaches⟩
        simp only [Stmt.amounts, List.mem_cons, List.not_mem_nil, or_false] at hk
        rcases hk with rfl | rfl
        · exact ⟨h, hle⟩
        · exact ⟨ha₁, hle'⟩
    · refine iff_of_true (.inl ⟨
        "baseAmount is too small: it rounds down to a zero quote amount at the current price", ?_⟩)
        (.inl ha₁)
      rw [QuotingService.createQuoteWith, hn]
      simp only [Prog.pure_eq, Prog.bind_eq, Prog.bind_ok, if_neg (by omega : ¬ n ≤ 0), ha,
        App.ofExcept, if_pos ha₁]
      rfl

end

section
variable {n : Int} {p x : ℚ}

/-- A base amount of few enough digits is multiplied as it is. -/
theorem product_scale (hn : roundSig 10 PRECISION (n : ℚ) = n) (p : ℚ) :
    product n p * 10 ^ 8 = roundSig 10 PRECISION (n * p) := by
  have hunits : roundSig 10 PRECISION ((n : ℚ) / 10 ^ 8) = (n : ℚ) / 10 ^ 8 := by
    have := roundSig_mul_scale ((n : ℚ) / 10 ^ 8)
    rw [div_mul_cancel₀ _ (by norm_num), hn] at this
    rw [eq_div_iff (by norm_num)]
    exact this.symm
  rw [product, hunits, ← roundSig_mul_scale]
  congr 1
  ring

/-- An amount at a positive price computes to something. -/
theorem product_pos (h : 1 ≤ n) (hn : roundSig 10 PRECISION (n : ℚ) = n)
    (hp : 10 ^ (-MAX_EXPONENT) ≤ p) : 0 < (n : ℚ) * p ∧ 0 < product n p := by
  have hq : (1 : ℚ) ≤ n := by exact_mod_cast h
  have hp₀ : 0 < p := lt_of_lt_of_le (zpow_pos (by norm_num) _) hp
  have hy : 0 < (n : ℚ) * p := by positivity
  have hR := zpow_log_le_roundSig (b := 10) (p := PRECISION) (by norm_num) (by decide) hy
  have hR₀ : 0 < roundSig 10 PRECISION ((n : ℚ) * p) := lt_of_lt_of_le (zpow_pos (by norm_num) _) hR
  rw [← product_scale hn] at hR₀
  exact ⟨hy, by linarith⟩

/-- What is flushed comes of a small base amount: the price is a number there is, so the product
can only be too small if the base is. -/
theorem base_lt_of_flushed (h : 1 ≤ n) (hn : roundSig 10 PRECISION (n : ℚ) = n)
    (hp : 10 ^ (-MAX_EXPONENT) ≤ p) (hsmall : product n p < 10 ^ (-MAX_EXPONENT)) :
    (n : ℚ) < 10 ^ 8 := by
  have hq : (1 : ℚ) ≤ n := by exact_mod_cast h
  have hscale := product_scale hn p
  have hlt : (n : ℚ) * p < 10 ^ (8 - MAX_EXPONENT) := by
    by_contra hc
    have := le_roundSig_of_le (not_lt.mp hc)
    rw [← hscale, ← scale_smallest] at this
    linarith
  rw [← scale_smallest, mul_comm (10 ^ _ : ℚ)] at hlt
  have hpos : (0 : ℚ) < 10 ^ (-MAX_EXPONENT) := zpow_pos (by norm_num) _
  have := mul_le_mul_of_nonneg_left hp (by linarith : (0 : ℚ) ≤ n)
  exact lt_of_mul_lt_mul_right (lt_of_le_of_lt this hlt) hpos.le

theorem flush_cases (x : ℚ) :
    x < 10 ^ (-MAX_EXPONENT) ∧ flush x = 0 ∨ 10 ^ (-MAX_EXPONENT) ≤ x ∧ flush x = x := by
  rw [flush]
  split
  · next h => exact .inl ⟨h, rfl⟩
  · next h => exact .inr ⟨not_lt.mp h, rfl⟩

/-- When a BUY is handled, after all roundings, in terms of the exact product. Rounded up, any
positive product is at least one minor unit. -/
theorem buy_fits (h : 1 ≤ n) (hn : roundSig 10 PRECISION (n : ℚ) = n)
    (hp : 10 ^ (-MAX_EXPONENT) ≤ p) :
    (Priceable n p ∧ (⌈flush (product n p) * 10 ^ 8⌉ ≤ 0 ∨
        n ≤ 2 ^ 63 - 1 ∧ ⌈flush (product n p) * 10 ^ 8⌉ ≤ 2 ^ 63 - 1)) ↔
      (n : ℚ) < 2 ^ 63 ∧ (n : ℚ) * p < 2 ^ 63 - 1 + 1 / 20 := by
  obtain ⟨hy, hpos⟩ := product_pos h hn hp
  have hscale := product_scale hn p
  have hlarge := exponents_large
  rw [← roundSig_le_max_iff hy, ← hscale]
  have hn' : n ≤ 2 ^ 63 - 1 ↔ (n : ℚ) < 2 ^ 63 := by
    rw [Int.le_sub_one_iff]
    exact_mod_cast Iff.rfl
  rcases flush_cases (product n p) with ⟨hsmall, hflush⟩ | ⟨hle, hflush⟩
  · have hbase := base_lt_of_flushed h hn hp hsmall
    have hone : (10 : ℚ) ^ (-MAX_EXPONENT) ≤ 1 := zpow_le_one_of_nonpos₀ (by norm_num) (by decide)
    norm_num at hlarge
    rw [hflush]
    refine iff_of_true ⟨⟨by linarith, by linarith⟩, .inl (by simp)⟩ ⟨by linarith, by linarith⟩
  · have hceil : ¬ ⌈product n p * 10 ^ 8⌉ ≤ 0 := by
      rw [not_le, Int.ceil_pos]
      positivity
    have hmax : ⌈product n p * 10 ^ 8⌉ ≤ 2 ^ 63 - 1 ↔ product n p * 10 ^ 8 ≤ 2 ^ 63 - 1 := by
      rw [Int.ceil_le]
      norm_num
    rw [hflush, or_iff_right hceil, hn', hmax, and_iff_right_iff_imp]
    rintro ⟨hb, hq⟩
    norm_num at hlarge
    exact ⟨by linarith, by linarith⟩

/-- When a SELL is handled, after all roundings, in terms of the exact product. Rounded down, a
product below one minor unit is refused as too small. -/
theorem sell_fits (h : 1 ≤ n) (hn : roundSig 10 PRECISION (n : ℚ) = n)
    (hp : 10 ^ (-MAX_EXPONENT) ≤ p) :
    (Priceable n p ∧ (⌊flush (product n p) * 10 ^ 8⌋ ≤ 0 ∨
        n ≤ 2 ^ 63 - 1 ∧ ⌊flush (product n p) * 10 ^ 8⌋ ≤ 2 ^ 63 - 1)) ↔
      (n : ℚ) * p < 1 - 1 / (2 * 10 ^ 20) ∨ (n : ℚ) < 2 ^ 63 ∧ (n : ℚ) * p < 2 ^ 63 - 1 / 20 := by
  obtain ⟨hy, hpos⟩ := product_pos h hn hp
  have hscale := product_scale hn p
  have hlarge := exponents_large
  rw [← roundSig_lt_iff hy, ← roundSig_lt_one_iff hy, ← hscale]
  have hn' : n ≤ 2 ^ 63 - 1 ↔ (n : ℚ) < 2 ^ 63 := by
    rw [Int.le_sub_one_iff]
    exact_mod_cast Iff.rfl
  rcases flush_cases (product n p) with ⟨hsmall, hflush⟩ | ⟨hle, hflush⟩
  · have hbase := base_lt_of_flushed h hn hp hsmall
    have hone : (10 : ℚ) ^ (-MAX_EXPONENT) ≤ 10 ^ (-9 : Int) :=
      zpow_le_zpow_right₀ (by norm_num) (by decide)
    have h9 : (10 : ℚ) ^ (-9 : Int) = 1 / 10 ^ 9 := by norm_num
    rw [h9] at hone
    norm_num at hlarge
    rw [hflush]
    refine iff_of_true ⟨⟨by linarith, by linarith⟩, .inl (by simp)⟩ (.inl (by linarith))
  · have hzero : ⌊product n p * 10 ^ 8⌋ ≤ 0 ↔ product n p * 10 ^ 8 < 1 := by
      rw [← Int.lt_add_one_iff, Int.floor_lt]
      norm_num
    have hmax : ⌊product n p * 10 ^ 8⌋ ≤ 2 ^ 63 - 1 ↔ product n p * 10 ^ 8 < 2 ^ 63 := by
      rw [Int.le_sub_one_iff, Int.floor_lt]
      norm_num
    rw [hflush, hn', hzero, hmax, and_iff_right_iff_imp]
    norm_num at hlarge
    rintro (hq | ⟨hb, hq⟩)
    · refine ⟨?_, by linarith⟩
      -- the price makes up for no more than the range
      have hlt := (roundSig_lt_one_iff hy).mp (by rwa [← hscale])
      by_contra hc
      have hten : (10 : ℚ) ^ (MAX_EXPONENT + 1) * 10 ^ (-MAX_EXPONENT) = 10 := by
        rw [← zpow_add₀ (by norm_num)]
        norm_num
      have := mul_le_mul (not_lt.mp hc) hp (zpow_pos (by norm_num) _).le
        (by linarith [(by exact_mod_cast h : (1 : ℚ) ≤ n)])
      linarith
    · exact ⟨by linarith, by linarith⟩

end

/-! ## Both services -/

/-- **Amounts are kept in range** for the deposits that fit and the quotes that fit, and for no
others. -/
theorem amounts_handled_iff [DecimalJs] [LawfulDecimalJs] [LawfulInfinity] (clientId : Uuid)
    (deposit : CreateDepositDto) (hdeposit : isPositiveDecimal deposit.amount)
    (dto : CreateQuoteDto) (hdto : isPositiveDecimal dto.baseAmount) (breakdown : SymbolBreakdown)
    (indicative : IndicativePrice) {d : Decimal} {p : ℚ}
    (hd : (DecimalValue.text (dto.side.price indicative.ask indicative.bid)).new = .ok d)
    (hvalue : value d = some p) (hp : 10 ^ (-MAX_EXPONENT) ≤ p) :
    (∃ v, decimalText? deposit.amount = some v ∧
      (AmountsHandled (BalancesService.createDeposit clientId deposit) ↔
        DepositFits (v * 10 ^ 8))) ∧
    QuotingService.createQuote clientId dto = QuotingService.createQuoteWith
      (App.promiseAll (PricingService.getSymbolBreakdown (dto.baseCurrency ++ dto.quoteCurrency))
        (PricingService.getPrice (dto.baseCurrency ++ dto.quoteCurrency))) clientId dto ∧
    ∃ v, decimalText? dto.baseAmount = some v ∧
      (AmountsHandled (QuotingService.createQuoteWith (pure (breakdown, indicative)) clientId dto) ↔
        QuoteFits dto.side (v * 10 ^ 8) p) := by
  refine ⟨?_, createQuote_eq clientId dto, ?_⟩
  · obtain ⟨v, hv⟩ := decimalText?_of_isPositiveDecimal hdeposit
    have hv₀ := decimalText?_nonneg hv
    refine ⟨v, hv, ?_⟩
    rcases scaled_cases hv₀ with ⟨n, hn, hscaled, hround, htail⟩ | ⟨hnone, hrefused⟩
    · have hx : 0 < v * 10 ^ 8 := by
        rcases hv₀.eq_or_lt with rfl | hpos
        · rw [zero_mul, roundSig_zero] at hround
          have : (0 : Int) = n := by exact_mod_cast hround
          omega
        · positivity
      rw [createDeposit_accepted ((toMinorUnits_text hv n).mpr hscaled) hn, DepositFits,
        or_iff_right htail, ← roundSig_lt_iff hx, hround, Int.le_sub_one_iff]
      exact_mod_cast Iff.rfl
    · refine iff_of_true (createDeposit_refused fun n hn =>
        hnone n ((toMinorUnits_text hv n).mp hn)) (hrefused.imp_right fun hlt => ?_)
      rcases hv₀.eq_or_lt with rfl | hpos
      · norm_num
      · linarith [(roundSig_lt_one_iff (by positivity)).mp hlt]
  · obtain ⟨v, hv⟩ := decimalText?_of_isPositiveDecimal hdto
    have hv₀ := decimalText?_nonneg hv
    refine ⟨v, hv, ?_⟩
    rcases scaled_cases hv₀ with ⟨n, hn, hscaled, hround, htail⟩ | ⟨hnone, hrefused⟩
    · have hq : (1 : ℚ) ≤ n := by exact_mod_cast hn
      have hkept : roundSig 10 PRECISION (n : ℚ) = n := by
        rw [← hround]
        exact roundSig_roundSig (by norm_num) (by decide) (by positivity)
      have hp₀ : 0 ≤ p := (zpow_pos (by norm_num) _).le.trans hp
      have hamount := computeQuoteAmount_ok_iff hn dto.side hd hvalue hp₀
      rw [createQuote_accepted ((toMinorUnits_text hv n).mpr hscaled) hn]
      unfold QuoteFits
      rw [or_iff_right htail, hround, or_iff_right (not_lt.mpr hq)]
      simp only [hamount, and_assoc, exists_and_left, exists_eq_left]
      cases dto.side with
      | BUY => exact buy_fits hn hkept hp
      | SELL => exact sell_fits hn hkept hp
    · exact iff_of_true (createQuote_refused fun n hn => hnone n ((toMinorUnits_text hv n).mp hn))
        (hrefused.imp_right .inl)

section
open scoped Reference

/-- A deposit of one unit, and a sale of one unit at 50000.5. -/
theorem amounts_handled_iff_one :
    (∃ v, decimalText? "1" = some v ∧
      (AmountsHandled (BalancesService.createDeposit Sample.erin ⟨"USDT", "1"⟩) ↔
        DepositFits (v * 10 ^ 8))) ∧
    QuotingService.createQuote Sample.erin ⟨"BTC", "USDT", .SELL, "1"⟩ =
      QuotingService.createQuoteWith
        (App.promiseAll (PricingService.getSymbolBreakdown ("BTC" ++ "USDT"))
          (PricingService.getPrice ("BTC" ++ "USDT"))) Sample.erin ⟨"BTC", "USDT", .SELL, "1"⟩ ∧
    ∃ v, decimalText? "1" = some v ∧
      (AmountsHandled (QuotingService.createQuoteWith
        (pure (⟨"BTC", "USDT"⟩, ⟨"BTCUSDT", "50000.5", "50001", 0, "binance"⟩)) Sample.erin
        ⟨"BTC", "USDT", .SELL, "1"⟩) ↔ QuoteFits .SELL (v * 10 ^ 8) (100001 / 2)) :=
  amounts_handled_iff Sample.erin ⟨"USDT", "1"⟩ (by decide) ⟨"BTC", "USDT", .SELL, "1"⟩ (by decide)
    ⟨"BTC", "USDT"⟩ ⟨"BTCUSDT", "50000.5", "50001", 0, "binance"⟩
    (Reference.new_text (by decide +kernel) (by decide +kernel)) rfl
    ((zpow_le_one_of_nonpos₀ (by norm_num) (by decide)).trans (by norm_num))

/-- A deposit of `2 ^ 63` minor units is handed to Postgres, which rejects it. -/
theorem deposit_out_of_range : isPositiveDecimal "92233720368.54775808" ∧
    toMinorUnits (.text "92233720368.54775808") = .ok (2 ^ 63) ∧
    ¬ AmountsHandled (BalancesService.createDeposit Sample.erin ⟨"USDT", "92233720368.54775808"⟩) ∧
    ∀ now db, exec now db (.creditBalance Sample.erin "USDT" (2 ^ 63)) =
      .error numericValueOutOfRange := by
  have hminor : toMinorUnits (.text "92233720368.54775808") = .ok (2 ^ 63) := by decide +kernel
  refine ⟨by decide, hminor, ?_, fun _ _ => rfl⟩
  rw [createDeposit_accepted hminor (by decide)]
  decide

end

end MiniOpenFX
