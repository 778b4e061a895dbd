import MiniOpenFX.Guarantees.Amounts

/-!
# No arbitrage

What `computeQuoteAmount` returns for any base amount and any price, with every rounding on the way
(`computeQuoteAmount_ok_iff`): something exactly if the numbers stay within the range of decimal.js
(`Priceable`). Each rounding is monotone, so what is returned is monotone in the base amount and in
the price, and a client that buys back what it sold never profits.
-/

namespace MiniOpenFX

open Js DecimalJs Significant

/-- The base amount in units, to twenty digits, times the price, to twenty digits: the number that
is rounded to minor units in the end. -/
def product (base : Int) (p : ℚ) : ℚ :=
  roundSig 10 PRECISION (roundSig 10 PRECISION ((base : ℚ) / 10 ^ 8) * p)

/-- The base amount, and the quote amount in minor units, are within the range of decimal.js.
Outside it a price is refused whatever the side. -/
structure Priceable (base : Int) (p : ℚ) : Prop where
  base_lt : (base : ℚ) < 10 ^ (MAX_EXPONENT + 1)
  quote_lt : product base p * 10 ^ 8 < 10 ^ (MAX_EXPONENT + 1)

/-- The rounding in the house's favour. -/
def TradeSide.rounding : TradeSide → Rounding
  | .BUY => .ROUND_UP
  | .SELL => .ROUND_DOWN

/-- The price a side is quoted. -/
def TradeSide.price {α : Type} (ask bid : α) : TradeSide → α
  | .BUY => ask
  | .SELL => bid

section
variable {base m n : Int} {p q x y : ℚ}

/-- Rounding to the precision of `Decimal` keeps the order. -/
theorem roundSig_mono' (hx : 0 ≤ x) (h : x ≤ y) :
    roundSig 10 PRECISION x ≤ roundSig 10 PRECISION y :=
  roundSig_mono (by norm_num) (by decide) hx h

/-- Rounding to the precision of `Decimal` keeps the sign. -/
theorem roundSig_nonneg' (hx : 0 ≤ x) : 0 ≤ roundSig 10 PRECISION x :=
  roundSig_nonneg (by norm_num) hx

/-- Rounding does not see the scale. -/
theorem roundSig_mul_scale (x : ℚ) :
    roundSig 10 PRECISION (x * 10 ^ 8) = roundSig 10 PRECISION x * 10 ^ 8 := by
  have := roundSig_mul_zpow (K := ℚ) (b := 10) (p := PRECISION) (by norm_num) x 8
  exact_mod_cast this

/-- The amount that is computed for a base amount at a price is not negative. -/
theorem product_nonneg (h₁ : 0 ≤ base) (hp : 0 ≤ p) : 0 ≤ product base p := by
  have hb : (0 : ℚ) ≤ base := by exact_mod_cast h₁
  exact roundSig_nonneg' (mul_nonneg (roundSig_nonneg' (by positivity)) hp)

/-- More at a higher price computes to more: each of the roundings on the way keeps the order. What
is said of ask and bid, and of two amounts, rests on it. -/
theorem product_mono (h₁ : 0 ≤ m) (h : m ≤ n) (hp : 0 ≤ p) (hpq : p ≤ q) :
    product m p ≤ product n q := by
  have hm : (0 : ℚ) ≤ m := by exact_mod_cast h₁
  have hmn : (m : ℚ) ≤ n := by exact_mod_cast h
  have hbase : roundSig 10 PRECISION (m / 10 ^ 8 : ℚ) ≤ roundSig 10 PRECISION (n / 10 ^ 8 : ℚ) :=
    roundSig_mono' (by positivity) (div_le_div_of_nonneg_right hmn (by norm_num))
  have hm' : 0 ≤ roundSig 10 PRECISION (m / 10 ^ 8 : ℚ) := roundSig_nonneg' (by positivity)
  exact roundSig_mono' (mul_nonneg hm' hp)
    (mul_le_mul hbase hpq hp (hm'.trans hbase))

/-- What can be priced can be priced for less at a lower price, so what can be bought at the ask
can be sold at the bid. -/
theorem Priceable.mono (h : Priceable n q) (h₁ : 0 ≤ m) (hmn : m ≤ n) (hp : 0 ≤ p) (hpq : p ≤ q) :
    Priceable m p where
  base_lt := lt_of_le_of_lt (by exact_mod_cast hmn) h.base_lt
  quote_lt := lt_of_le_of_lt
    (mul_le_mul_of_nonneg_right (product_mono h₁ hmn hp hpq) (by norm_num)) h.quote_lt

/-- Rounding to an integer keeps the order, in either mode. -/
theorem whole_mono (h : x ≤ y) (mode : Rounding) : whole mode x ≤ whole mode y := by
  cases mode with
  | ROUND_UP => exact Int.ceil_le_ceil h
  | ROUND_DOWN => exact Int.floor_le_floor h

/-- A number rounded down is at most a larger one rounded either way, which is why a client does
not gain by the modes of the two sides. -/
theorem whole_down_le (h : x ≤ y) (mode : Rounding) : whole .ROUND_DOWN x ≤ whole mode y := by
  cases mode with
  | ROUND_UP => exact (Int.floor_le_floor h).trans (Int.floor_le_ceil y)
  | ROUND_DOWN => exact Int.floor_le_floor h

/-- The whole number next to a rounded one has few enough digits to be kept, so the second rounding
to twenty digits changes nothing. -/
theorem roundSig_whole (hx : 0 ≤ x) (mode : Rounding) :
    roundSig 10 PRECISION (whole mode (roundSig 10 PRECISION x) : ℚ) =
      whole mode (roundSig 10 PRECISION x) := by
  cases mode with
  | ROUND_UP => exact roundSig_ceil_roundSig (by norm_num) (by decide) hx
  | ROUND_DOWN => exact roundSig_floor_roundSig (by norm_num) (by decide) hx

/-- A rounded number is whole, or it has at most twenty digits before the point. -/
theorem whole_eq_or_le (hx : 0 ≤ x) (mode : Rounding) :
    (whole mode (roundSig 10 PRECISION x) : ℚ) = roundSig 10 PRECISION x ∨
      roundSig 10 PRECISION x ≤ 10 ^ 19 ∧ whole mode (roundSig 10 PRECISION x) ≤ 10 ^ 19 := by
  rcases roundSig_isInt_or_lt (b := 10) (p := PRECISION) (by norm_num) hx with ⟨k, hk⟩ | hle
  · left
    rw [hk, whole_intCast]
  · right
    norm_num [PRECISION] at hle
    exact ⟨by norm_num; exact hle, whole_le (by norm_num; exact hle) mode⟩

/-- The range of exponents is far beyond that of bigint amounts, so an amount that fits its column
is within the range of decimal.js. -/
theorem exponents_large : (10 : ℚ) ^ 19 < 10 ^ (MAX_EXPONENT + 1) := by
  have : (10 : ℚ) ^ (19 : Int) < 10 ^ (MAX_EXPONENT + 1) :=
    zpow_lt_zpow_right₀ (by norm_num) (by decide)
  exact_mod_cast this

end

section
variable [DecimalJs] [LawfulDecimalJs]

/-- Twenty digits of minor units are rounded to whole ones exactly where they are not too many, and
the result is the next whole number. -/
theorem roundToMinorUnits_ok_iff {d : Decimal} {r z : ℚ} (hd : value d = some r) (hr : 0 ≤ r)
    (hz : 0 ≤ z) (hrz : r * 10 ^ 8 = roundSig 10 PRECISION z) (mode : Rounding) (n : Int) :
    roundToMinorUnits (.decimal d) mode = .ok n ↔
      n = whole mode (r * 10 ^ 8) ∧ r * 10 ^ 8 < 10 ^ (MAX_EXPONENT + 1) := by
  have hwhole := whole_eq_or_le hz mode
  have hkept := roundSig_whole hz mode
  rw [← hrz] at hwhole hkept
  rcases lt_or_ge (r * 10 ^ 8) (10 ^ (MAX_EXPONENT + 1)) with hlt | hge
  · have hn : (whole mode (r * 10 ^ 8) : ℚ) < 10 ^ (MAX_EXPONENT + 1) := by
      rcases hwhole with h | ⟨-, h⟩
      · rw [h]
        exact hlt
      · exact lt_of_le_of_lt (by exact_mod_cast h) exponents_large
    rw [roundToMinorUnits_of_kept hd hr rfl hkept hn]
    simp only [Except.ok.injEq, hlt, and_true, eq_comm]
  · -- too large: a whole number already, which overflows when it is scaled
    have hint := hwhole.resolve_right fun h =>
      absurd (h.1.trans_lt exponents_large) (not_lt.mpr hge)
    refine iff_of_false (fun h => ?_) fun h => absurd h.2 (not_lt.mpr hge)
    have hdirected : directed MINOR_UNIT_DECIMALS r mode = r := by
      rw [directed_whole hr, hint, mul_div_cancel_right₀ _ (by norm_num)]
    have hvalue := LawfulDecimalJs.toDecimalPlaces MINOR_UNIT_DECIMALS mode hd
    rw [hdirected] at hvalue
    change toMinorUnits (.decimal (toDecimalPlaces d MINOR_UNIT_DECIMALS mode)) = .ok n at h
    rcases lt_or_ge r (10 ^ (MAX_EXPONENT + 1)) with hr' | hr'
    · have hlow : (10 : ℚ) ^ (-MAX_EXPONENT) ≤ r := by
        by_contra hc
        have hone : (10 : ℚ) ^ (-MAX_EXPONENT) ≤ 1 :=
          zpow_le_one_of_nonpos₀ (by norm_num) (by decide)
        have := exponents_large
        norm_num at this
        linarith
      rw [clamp_of_range hlow hr'] at hvalue
      rw [toMinorUnits_of_value rfl hvalue, ← hint, hkept, hint, clamp_overflow hge] at h
      cases h
    · rw [clamp_overflow hr'] at hvalue
      exact toMinorUnits_not_finite rfl hvalue n h

/-- The base amount in units. -/
theorem value_fromMinorUnits_of_lt {base : Int} (h₁ : 1 ≤ base)
    (h₂ : (base : ℚ) < 10 ^ (MAX_EXPONENT + 1)) :
    value (fromMinorUnits base) = some (roundSig 10 PRECISION ((base : ℚ) / 10 ^ 8)) := by
  have hb : (1 : ℚ) ≤ base := by exact_mod_cast h₁
  have hsmall : (10 : ℚ) ^ (-MAX_EXPONENT) ≤ 10 ^ (-8 : Int) :=
    zpow_le_zpow_right₀ (by norm_num) (by decide)
  have h8 : (10 : ℚ) ^ (-8 : Int) = 1 / 10 ^ 8 := by norm_num
  have hbase : value (ofBigInt base) = some (base : ℚ) := by
    rw [LawfulDecimalJs.ofBigInt, clamp_of_range _ h₂]
    rw [h8] at hsmall
    linarith
  rw [fromMinorUnits, LawfulDecimalJs.div hbase value_scale (by norm_num), clamp_of_range]
  · refine hsmall.trans (le_roundSig_of_le ?_)
    rw [h8]
    exact div_le_div_of_nonneg_right hb (by norm_num)
  · -- rounding reaches at most the next power of ten, which the scale makes up for
    have hlog := (Int.lt_zpow_iff_log_lt (b := 10) (by norm_num) (by linarith : (0 : ℚ) < base)).mp
      (by exact_mod_cast h₂)
    have hle := roundSig_le_zpow (K := ℚ) (b := 10) (p := PRECISION) (by norm_num)
      (by linarith : (0 : ℚ) < base)
    have hscale := roundSig_mul_scale (base / 10 ^ 8 : ℚ)
    rw [div_mul_cancel₀ _ (by norm_num)] at hscale
    have hpow : (10 : ℚ) ^ (Int.log 10 (base : ℚ) + 1) ≤ 10 ^ (MAX_EXPONENT + 1) :=
      zpow_le_zpow_right₀ (by norm_num) (by omega)
    have hpos : (0 : ℚ) < 10 ^ (MAX_EXPONENT + 1) := zpow_pos (by norm_num) _
    push_cast at hle
    linarith

variable [LawfulInfinity]

/-- An infinite amount has no minor units; it is not returned as a number. -/
theorem roundToMinorUnits_not_finite {d : Decimal} (hd : value d = none) (mode : Rounding)
    (n : Int) : roundToMinorUnits (.decimal d) mode ≠ .ok n := by
  change toMinorUnits (.decimal (toDecimalPlaces d MINOR_UNIT_DECIMALS mode)) ≠ .ok n
  exact toMinorUnits_not_finite rfl (LawfulInfinity.toDecimalPlaces MINOR_UNIT_DECIMALS mode hd) n

/-- The product of the base amount and the price, where both stay within range, and an infinity
where they do not. -/
theorem value_product {base : Int} (h₁ : 1 ≤ base) {d : Decimal} {p : ℚ} (hp : value d = some p)
    (hp₀ : 0 ≤ p) : value (mul (fromMinorUnits base) d) =
      if (base : ℚ) < 10 ^ (MAX_EXPONENT + 1) ∧ product base p < 10 ^ (MAX_EXPONENT + 1) then
        some (flush (product base p))
      else none := by
  rcases lt_or_ge (base : ℚ) (10 ^ (MAX_EXPONENT + 1)) with hlt | hge
  · have hmul := LawfulDecimalJs.mul (value_fromMinorUnits_of_lt h₁ hlt) hp
    change _ = clamp (product base p) at hmul
    rw [hmul]
    split
    · next h => exact clamp_of_lt (product_nonneg (by omega) hp₀) h.2
    · next h => exact clamp_overflow (not_lt.mp fun hr => h ⟨hlt, hr⟩)
  · rw [if_neg fun h => absurd h.1 (not_lt.mpr hge)]
    refine LawfulDecimalJs.mul_not_finite (LawfulInfinity.div ?_)
    rw [LawfulDecimalJs.ofBigInt, clamp_overflow hge]

omit [LawfulDecimalJs] [LawfulInfinity] in
/-- What is left once the price is read: a product to be rounded, and the price's text to be kept.
-/
theorem computeQuoteAmount_iff {base : Int} {side : TradeSide} {ask bid : String} {d : Decimal}
    (hd : (DecimalValue.text (side.price ask bid)).new = .ok d) (a : QuoteAmount) :
    computeQuoteAmount side base ask bid = .ok a ↔ ∃ n,
      roundToMinorUnits (.decimal (mul (fromMinorUnits base) d)) side.rounding = .ok n ∧
        a = ⟨side.price ask bid, n⟩ := by
  cases side <;>
  · simp only [TradeSide.price] at hd
    simp only [computeQuoteAmount, TradeSide.price, TradeSide.rounding, hd, Bind.bind, Except.bind]
    split
    · next h => simp [h]
    · next n h => simp [h, Pure.pure, Except.pure, eq_comm]

/-- **What a quote is computed to be**, for any base amount and any price: it exists where
`Priceable` holds, and is the product rounded by the side. -/
theorem computeQuoteAmount_ok_iff {base : Int} (h₁ : 1 ≤ base) (side : TradeSide)
    {ask bid : String} {d : Decimal} {p : ℚ}
    (hd : (DecimalValue.text (side.price ask bid)).new = .ok d) (hp : value d = some p)
    (hp₀ : 0 ≤ p) (a : QuoteAmount) : computeQuoteAmount side base ask bid = .ok a ↔
      Priceable base p ∧ a = ⟨side.price ask bid, whole side.rounding
        (flush (product base p) * 10 ^ 8)⟩ := by
  have hb : (1 : ℚ) ≤ base := by exact_mod_cast h₁
  have hz : 0 ≤ roundSig 10 PRECISION ((base : ℚ) / 10 ^ 8) * p :=
    mul_nonneg (roundSig_nonneg' (by positivity)) hp₀
  have hproduct : 0 ≤ product base p := product_nonneg (by omega) hp₀
  have hvalue := value_product h₁ hp hp₀
  rw [computeQuoteAmount_iff hd]
  split at hvalue
  · next hrange =>
    have hflush : flush (product base p) * 10 ^ 8 < 10 ^ (MAX_EXPONENT + 1) ↔
        product base p * 10 ^ 8 < 10 ^ (MAX_EXPONENT + 1) := by
      rw [flush]
      split
      · next hsmall =>
        have hone : (10 : ℚ) ^ (-MAX_EXPONENT) ≤ 1 :=
          zpow_le_one_of_nonpos₀ (by norm_num) (by decide)
        have := exponents_large
        norm_num at this
        exact iff_of_true (by linarith) (by linarith)
      · exact Iff.rfl
    have hiff : ∀ n, roundToMinorUnits (.decimal (mul (fromMinorUnits base) d)) side.rounding =
        .ok n ↔ n = whole side.rounding (flush (product base p) * 10 ^ 8) ∧
          flush (product base p) * 10 ^ 8 < 10 ^ (MAX_EXPONENT + 1) := by
      intro n
      by_cases hsmall : product base p < 10 ^ (-MAX_EXPONENT)
      · refine roundToMinorUnits_ok_iff hvalue (flush_nonneg hproduct) (le_refl 0) ?_ _ n
        rw [flush, if_pos hsmall, zero_mul, roundSig_zero]
      · refine roundToMinorUnits_ok_iff hvalue (flush_nonneg hproduct) (z := _ * 10 ^ 8)
          (mul_nonneg hz (by norm_num)) ?_ _ n
        rw [flush, if_neg hsmall, roundSig_mul_scale]
        rfl
    constructor
    · rintro ⟨n, hn, rfl⟩
      obtain ⟨rfl, hlt⟩ := (hiff n).mp hn
      exact ⟨⟨hrange.1, hflush.mp hlt⟩, rfl⟩
    · rintro ⟨hpriceable, rfl⟩
      exact ⟨_, (hiff _).mpr ⟨rfl, hflush.mpr hpriceable.quote_lt⟩, rfl⟩
  · next hrange =>
    refine iff_of_false ?_ fun h => hrange ⟨h.1.base_lt, ?_⟩
    · rintro ⟨n, hn, -⟩
      exact roundToMinorUnits_not_finite hvalue _ n hn
    · have := h.1.quote_lt
      linarith

/-- **No arbitrage.** A quote is computed exactly where the amounts stay within the range of
decimal.js; there it is monotone in the base amount, and what is earned by selling is at most what
is owed for buying back as much or more. -/
theorem computeQuoteAmount_no_arbitrage {m n : Int} (h₁ : 1 ≤ m) (hmn : m ≤ n) {ask bid : String}
    {a b : Decimal} {p q : ℚ} (ha : (DecimalValue.text ask).new = .ok a) (hq : value a = some q)
    (hb : (DecimalValue.text bid).new = .ok b) (hp : value b = some p) (hp₀ : 0 ≤ p) (hpq : p ≤ q) :
    (∀ side : TradeSide, (∃ x, computeQuoteAmount side n ask bid = .ok x) ↔
        Priceable n (side.price q p)) ∧
      (∀ side : TradeSide, Priceable n (side.price q p) →
        ∃ x y, computeQuoteAmount side m ask bid = .ok x ∧
          computeQuoteAmount side n ask bid = .ok y ∧
          x.quoteAmountMinor ≤ y.quoteAmountMinor) ∧
      (Priceable n q → ∃ x y, computeQuoteAmount .SELL m ask bid = .ok x ∧
        computeQuoteAmount .BUY n ask bid = .ok y ∧ x.quoteAmountMinor ≤ y.quoteAmountMinor) := by
  have hprice : ∀ side : TradeSide, ∃ d,
      (DecimalValue.text (side.price ask bid)).new = .ok d ∧ value d = some (side.price q p) ∧
        0 ≤ side.price q p := by
    intro side
    cases side with
    | BUY => exact ⟨a, ha, hq, hp₀.trans hpq⟩
    | SELL => exact ⟨b, hb, hp, hp₀⟩
  have hamount : ∀ side : TradeSide, ∀ {k : Int}, 1 ≤ k → Priceable k (side.price q p) →
      computeQuoteAmount side k ask bid = .ok ⟨side.price ask bid, whole side.rounding
        (flush (product k (side.price q p)) * 10 ^ 8)⟩ := by
    intro side k hk hpriceable
    obtain ⟨d, hd, hv, h₀⟩ := hprice side
    exact (computeQuoteAmount_ok_iff hk side hd hv h₀ _).mpr ⟨hpriceable, rfl⟩
  have hmono : ∀ {p q : ℚ}, 0 ≤ p → p ≤ q →
      flush (product m p) * 10 ^ 8 ≤ flush (product n q) * 10 ^ 8 := fun hp₀ hpq =>
    mul_le_mul_of_nonneg_right (flush_mono (product_nonneg (by omega) hp₀)
      (product_mono (by omega) hmn hp₀ hpq)) (by norm_num)
  refine ⟨fun side => ?_, fun side hn => ?_, fun hn => ?_⟩
  · obtain ⟨d, hd, hv, h₀⟩ := hprice side
    have hiff := computeQuoteAmount_ok_iff (h₁.trans hmn) side hd hv h₀
    exact ⟨fun ⟨x, hx⟩ => ((hiff x).mp hx).1, fun h => ⟨_, (hiff _).mpr ⟨h, rfl⟩⟩⟩
  · obtain ⟨-, -, -, h₀⟩ := hprice side
    exact ⟨_, _, hamount side h₁ (hn.mono (by omega) hmn h₀ (le_refl _)),
      hamount side (h₁.trans hmn) hn, whole_mono (hmono h₀ (le_refl _)) _⟩
  · exact ⟨_, _, hamount .SELL h₁ (hn.mono (by omega) hmn hp₀ hpq),
      hamount .BUY (h₁.trans hmn) hn, whole_down_le (hmono hp₀ hpq) .ROUND_UP⟩

end

section
open scoped Reference

/-- The reference constructor reads a decimal text within range as its value, which the examples
below need of it. -/
theorem Reference.new_text {s : String} {x : ℚ} (h : decimalText? s = some x)
    (hx : clamp x = some x) : (DecimalValue.text s).new = .ok (some x) := by
  obtain ⟨d, hd, hvalue⟩ := LawfulDecimalJs.ofText h
  obtain rfl : d = some x := hvalue.trans hx
  rw [DecimalValue.new, hd]

/-- One unit and two, at a spread of one. -/
theorem computeQuoteAmount_no_arbitrage_two :
    (∀ side : TradeSide, (∃ x, computeQuoteAmount side 200000000 "50000.5" "49999.5" = .ok x) ↔
        Priceable 200000000 (side.price (100001 / 2) (99999 / 2))) ∧
      (∀ side : TradeSide, Priceable 200000000 (side.price (100001 / 2) (99999 / 2)) →
        ∃ x y, computeQuoteAmount side 100000000 "50000.5" "49999.5" = .ok x ∧
          computeQuoteAmount side 200000000 "50000.5" "49999.5" = .ok y ∧
          x.quoteAmountMinor ≤ y.quoteAmountMinor) ∧
      (Priceable 200000000 (100001 / 2) →
        ∃ x y, computeQuoteAmount .SELL 100000000 "50000.5" "49999.5" = .ok x ∧
          computeQuoteAmount .BUY 200000000 "50000.5" "49999.5" = .ok y ∧
          x.quoteAmountMinor ≤ y.quoteAmountMinor) :=
  computeQuoteAmount_no_arbitrage (by decide) (by decide) (a := some (100001 / 2))
    (b := some (99999 / 2)) (Reference.new_text (by decide +kernel) (by decide +kernel)) rfl
    (Reference.new_text (by decide +kernel) (by decide +kernel)) rfl (by norm_num) (by norm_num)

/-- The largest power of ten that decimal.js reads. -/
theorem decimalText?_largest : decimalText? "1e9000000000000000" = some (10 ^ MAX_EXPONENT) := by
  have hwhole : "1e9000000000000000".toList.takeWhile Char.isDigit = ['1'] := by decide
  have hrest : "1e9000000000000000".toList.dropWhile Char.isDigit =
      'e' :: "9000000000000000".toList := by decide
  have hexponent : exponent? ('e' :: "9000000000000000".toList) = some MAX_EXPONENT := by decide
  have hone : Nat.ofDigitChars 10 ['1'] 0 = 1 := by decide
  rw [decimalText?, hwhole, hrest]
  simpa [hone] using hexponent

/-- One unit at the largest power of ten has no price. -/
theorem computeQuoteAmount_overflows :
    (∃ d, (DecimalValue.text "1e9000000000000000").new = .ok d ∧
      value d = some (10 ^ MAX_EXPONENT)) ∧
    ∀ x, computeQuoteAmount .BUY 100000000 "1e9000000000000000" "1e9000000000000000" ≠ .ok x := by
  have hrange : clamp (10 ^ MAX_EXPONENT) = some (10 ^ MAX_EXPONENT) :=
    clamp_of_range (zpow_le_zpow_right₀ (by norm_num) (by decide))
      (zpow_lt_zpow_right₀ (by norm_num) (by decide))
  obtain ⟨d, hd, hvalue⟩ := LawfulDecimalJs.ofText decimalText?_largest
  have hnew : (DecimalValue.text "1e9000000000000000").new = .ok d := by
    rw [DecimalValue.new, hd]
  refine ⟨⟨d, hnew, hvalue.trans hrange⟩, fun x hx => ?_⟩
  have hquote := ((computeQuoteAmount_ok_iff (by decide) .BUY hnew (hvalue.trans hrange)
    (zpow_pos (by norm_num) _).le x).mp hx).1.quote_lt
  have hone := roundSig_of_digits (K := ℚ) (b := 10) (p := PRECISION) (k := 1) (by norm_num)
    (by decide)
  simp only [Int.cast_one, one_mul, Nat.cast_ofNat] at hone
  have hunit : roundSig 10 PRECISION (((100000000 : Int) : ℚ) / 10 ^ 8) = 1 := by
    have := hone 0
    rw [zpow_zero] at this
    norm_num
    exact this
  rw [product, hunit, one_mul, hone, zpow_add_one₀ (by norm_num)] at hquote
  have hpos : (0 : ℚ) < 10 ^ MAX_EXPONENT := zpow_pos (by norm_num) _
  linarith

end

end MiniOpenFX
