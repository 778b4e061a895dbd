import MiniOpenFX.Domain.Decimal
import MiniOpenFX.Quoting.QuotePricing
import Mathlib.Data.List.TakeWhile

/-!
# Amounts to the last digit

What `toMinorUnits` and `computeQuoteAmount` return, by the number their text stands for. Both go
through products that decimal.js rounds to twenty significant digits, so they are exact where the
rounding does not cross an integer: `toMinorUnits_exact_iff` and `computeQuoteAmount_exact_iff`
say when that is.
-/

namespace MiniOpenFX

open Js DecimalJs Significant

/-! ## Texts -/

/-- A positive decimal text stands for a number. -/
theorem decimalText?_of_isPositiveDecimal {s : String} (h : isPositiveDecimal s) :
    ∃ x, decimalText? s = some x := by
  unfold isPositiveDecimal at h
  unfold decimalText?
  generalize s.toList.takeWhile Char.isDigit = whole at h ⊢
  split at h
  · next hrest =>
    have hwhole : whole ≠ [] := by simpa using h
    simp only [hrest, hwhole, false_and, if_false, exponent?, Option.map_some]
    exact ⟨_, rfl⟩
  · next fraction hrest =>
    simp only [Bool.and_eq_true, Bool.not_eq_true', List.isEmpty_eq_false_iff] at h
    obtain ⟨⟨hwhole, -⟩, hfraction⟩ := h
    have hdigits : ∀ c ∈ fraction, c.isDigit = true := List.all_eq_true.mp hfraction
    have htake : fraction.takeWhile Char.isDigit = fraction :=
      List.takeWhile_eq_self_iff.mpr hdigits
    have hdrop : fraction.dropWhile Char.isDigit = [] := List.dropWhile_eq_nil_iff.mpr hdigits
    simp only [hrest, htake, hdrop, hwhole, false_and, if_false, exponent?, Option.map_some]
    exact ⟨_, rfl⟩
  · cases h

/-- A text without a sign stands for no negative number. -/
theorem decimalText?_nonneg {s : String} {x : ℚ} (h : decimalText? s = some x) : 0 ≤ x := by
  obtain ⟨n, e, rfl⟩ : ∃ (n : Nat) (e : Int), x = (n : ℚ) * 10 ^ e := by
    simp only [decimalText?] at h
    split at h <;> split at h
    all_goals first
      | cases h
      | obtain ⟨e, -, rfl⟩ := Option.map_eq_some_iff.mp h
        exact ⟨_, _, rfl⟩
  exact mul_nonneg (Nat.cast_nonneg _) (zpow_nonneg (by norm_num) _)

/-! ## Numbers -/

/-- The number that comes of a text of value `v`: read, scaled and rounded. It is `none` where the
product is an infinity. -/
def scaled (v : ℚ) : Option ℚ := (clamp v).bind fun x => clamp (roundSig 10 PRECISION (x * 10 ^ 8))

/-- From here on, numbers round to an infinity: half a unit in the last place above the largest
number there is. -/
def overflowFrom : ℚ :=
  10 ^ (MAX_EXPONENT + 1) - 10 ^ (MAX_EXPONENT + 1 - (PRECISION : Int)) / 2

/-- A whole number `x` of minor units is kept: it has at most twenty significant digits, and it is
not too large. -/
def WholeKept (x : ℚ) : Prop :=
  (∃ k : Int, x = k * ulp 10 PRECISION x) ∧ x < 10 ^ (MAX_EXPONENT + 1)

/-- A number `x` of minor units that is not whole is noticed: it is not too small, and half a unit
of its twentieth digit does not reach from it to a whole number; or it is too large. -/
def TailNoticed (x : ℚ) : Prop :=
  overflowFrom ≤ x ∨ 10 ^ (8 - MAX_EXPONENT) ≤ x ∧
    ulp 10 PRECISION x / 2 ≤ Int.fract x ∧ Int.fract x < 1 - ulp 10 PRECISION x / 2

/-- What `toMinorUnits` does with `x` minor units is right: a whole number is kept by the rounding
to twenty digits, and a fraction is noticed after it. -/
structure Kept (x : ℚ) : Prop where
  whole : Int.fract x = 0 → WholeKept x
  tail : Int.fract x ≠ 0 → TailNoticed x

section
variable {v x : ℚ}

/-- A number is rounded out of range from `overflowFrom` on: this is where its twenty digits round
up to the next power of ten. -/
theorem roundSig_overflow_iff (hx : 0 < x) :
    10 ^ (MAX_EXPONENT + 1) ≤ roundSig 10 PRECISION x ↔ overflowFrom ≤ x := by
  have := pow_le_roundSig_iff (b := 10) (p := PRECISION) (by norm_num) (by decide) hx
    (MAX_EXPONENT + 1)
  exact_mod_cast this

/-- A number within range stays above the smallest number when it is rounded. -/
theorem le_roundSig_of_le {k : Int} (h : 10 ^ k ≤ x) : 10 ^ k ≤ roundSig 10 PRECISION x := by
  have hx : 0 < x := lt_of_lt_of_le (zpow_pos (by norm_num) _) h
  have hk := (Int.zpow_le_iff_le_log (b := 10) (by norm_num) hx).mp (by exact_mod_cast h)
  have := zpow_log_le_roundSig (b := 10) (p := PRECISION) (by norm_num) (by decide) hx
  exact le_trans (zpow_le_zpow_right₀ (by norm_num) hk) (by exact_mod_cast this)

/-- Only the last digits of the largest exponent overflow. -/
theorem overflowFrom_lower : (10 : ℚ) ^ MAX_EXPONENT ≤ overflowFrom := by
  have hpos : (0 : ℚ) < 10 ^ MAX_EXPONENT := zpow_pos (by norm_num) _
  have hle : (10 : ℚ) ^ (MAX_EXPONENT + 1 - (PRECISION : Int)) ≤ 10 ^ MAX_EXPONENT :=
    zpow_le_zpow_right₀ (by norm_num) (by decide)
  rw [overflowFrom, zpow_add_one₀ (by norm_num)]
  linarith

/-- The smallest number, in minor units. -/
theorem scale_smallest : (10 : ℚ) ^ (-MAX_EXPONENT) * 10 ^ 8 = 10 ^ (8 - MAX_EXPONENT) := by
  rw [← zpow_natCast, ← zpow_add₀ (by norm_num), neg_add_eq_sub]
  rfl

theorem scaled_zero : scaled 0 = some 0 := by
  rw [scaled, clamp_zero, Option.bind_some, zero_mul, roundSig_zero, clamp_zero]

/-- An amount below the smallest number is read as zero. It is positive, so a fraction goes
unnoticed here. -/
theorem scaled_small (hv : 0 < v) (h : v < 10 ^ (-MAX_EXPONENT)) : scaled v = some 0 := by
  rw [scaled, clamp_underflow hv h, Option.bind_some, zero_mul, roundSig_zero, clamp_zero]

/-- An amount whose minor units are out of range has none that are finite. -/
theorem scaled_overflow (h : 10 ^ (-MAX_EXPONENT) ≤ v) (hx : overflowFrom ≤ v * 10 ^ 8) :
    scaled v = none := by
  have hv : 0 < v := lt_of_lt_of_le (zpow_pos (by norm_num) _) h
  rcases lt_or_ge v (10 ^ (MAX_EXPONENT + 1)) with hlt | hge
  · rw [scaled, clamp_of_range h hlt, Option.bind_some,
      clamp_overflow ((roundSig_overflow_iff (by positivity)).mpr hx)]
  · rw [scaled, clamp_overflow hge, Option.bind_none]

/-- Any other amount has minor units with twenty significant digits: the text is read exactly, and
the product is rounded once. -/
theorem scaled_of_range (h : 10 ^ (-MAX_EXPONENT) ≤ v) (hx : v * 10 ^ 8 < overflowFrom) :
    scaled v = some (roundSig 10 PRECISION (v * 10 ^ 8)) := by
  have hv : 0 < v := lt_of_lt_of_le (zpow_pos (by norm_num) _) h
  have hv8 : v ≤ v * 10 ^ 8 := by linarith
  have hR := (roundSig_overflow_iff (x := v * 10 ^ 8) (by positivity)).not.mpr (not_le.mpr hx)
  have hlt : v < 10 ^ (MAX_EXPONENT + 1) := by
    have : 0 < (10 : ℚ) ^ (MAX_EXPONENT + 1 - (PRECISION : Int)) := zpow_pos (by norm_num) _
    rw [overflowFrom] at hx
    linarith
  rw [scaled, clamp_of_range h hlt, Option.bind_some,
    clamp_of_range (le_roundSig_of_le (h.trans hv8)) (not_le.mp hR)]

/-- An amount read from a text is not negative. -/
theorem scaled_nonneg (hv : 0 ≤ v) {n : Int} (h : scaled v = some (n : ℚ)) : 0 ≤ n := by
  rcases hv.eq_or_lt with rfl | hv
  · rw [scaled_zero] at h
    exact_mod_cast (Option.some.inj h).le
  rcases lt_or_ge v (10 ^ (-MAX_EXPONENT)) with hsmall | hlarge
  · rw [scaled_small hv hsmall] at h
    exact_mod_cast (Option.some.inj h).le
  rcases le_or_gt overflowFrom (v * 10 ^ 8) with hover | hrange
  · rw [scaled_overflow hlarge hover] at h
    cases h
  · rw [scaled_of_range hlarge hrange] at h
    have hx : 0 < v * 10 ^ 8 := by positivity
    have := zpow_log_le_roundSig (b := 10) (p := PRECISION) (by norm_num) (by decide) hx
    rw [Option.some.inj h] at this
    exact_mod_cast (zpow_pos (by norm_num) _).le.trans this

/-- A whole number has no fraction. -/
theorem fract_eq_zero_iff : Int.fract x = 0 ↔ ∃ n : Int, x = n := by
  rw [Int.fract_eq_zero_iff]
  exact ⟨fun ⟨n, h⟩ => ⟨n, h.symm⟩, fun ⟨n, h⟩ => ⟨n, h.symm⟩⟩

/-- The scaled number is the exact one exactly if a whole number is kept and any other noticed.
This is all of `toMinorUnits` that is arithmetic, over the rationals. -/
theorem scaled_exact_iff (hv : 0 ≤ v) : (∀ n : Int, scaled v = some (n : ℚ) ↔ v * 10 ^ 8 = n) ↔
    Kept (v * 10 ^ 8) := by
  have hx₀ : 0 ≤ v * 10 ^ 8 := by positivity
  rcases hv.eq_or_lt with rfl | hv
  · -- zero
    rw [scaled_zero, zero_mul]
    have hzero : (0 : ℚ) < 10 ^ (MAX_EXPONENT + 1) := zpow_pos (by norm_num) _
    refine iff_of_true (fun n => Option.some_inj) ⟨fun _ => ⟨⟨0, by simp⟩, hzero⟩, fun h => ?_⟩
    exact absurd (Int.fract_zero) h
  rcases lt_or_ge v (10 ^ (-MAX_EXPONENT)) with hsmall | hlarge
  · -- too small: read as zero
    have hx : v * 10 ^ 8 < 10 ^ (8 - MAX_EXPONENT) := by
      rw [← scale_smallest]
      exact mul_lt_mul_of_pos_right hsmall (by norm_num)
    have hone : (10 : ℚ) ^ (8 - MAX_EXPONENT) ≤ 1 :=
      zpow_le_one_of_nonpos₀ (by norm_num) (by decide)
    have hfract : Int.fract (v * 10 ^ 8) = v * 10 ^ 8 :=
      Int.fract_eq_self.mpr ⟨hx₀, lt_of_lt_of_le hx hone⟩
    have hpos : 0 < v * 10 ^ 8 := by positivity
    have hmax : (10 : ℚ) ^ (8 - MAX_EXPONENT) ≤ 10 ^ MAX_EXPONENT :=
      zpow_le_zpow_right₀ (by norm_num) (by decide)
    rw [scaled_small hv hsmall]
    refine iff_of_false (fun h => ?_) fun h => ?_
    · have := (h 0).mp rfl
      rw [this] at hpos
      exact absurd hpos (by norm_num)
    · rcases h.tail (by rw [hfract]; exact hpos.ne') with h | h
      · exact absurd (overflowFrom_lower.trans h) (not_le.mpr (hx.trans_le hmax))
      · exact absurd h.1 (not_le.mpr hx)
  have hscale : (10 : ℚ) ^ (8 - MAX_EXPONENT) ≤ v * 10 ^ 8 := by
    rw [← scale_smallest]
    exact mul_le_mul_of_nonneg_right hlarge (by norm_num)
  rcases le_or_gt overflowFrom (v * 10 ^ 8) with hover | hrange
  · -- too large: nothing is returned
    rw [scaled_overflow hlarge hover]
    have hR := (roundSig_overflow_iff (by positivity)).mpr hover
    generalize v * 10 ^ 8 = x at *
    refine ⟨fun h => ⟨fun hf => ?_, fun _ => .inl hover⟩, fun h n => ⟨fun hn => (nomatch hn), ?_⟩⟩
    · obtain ⟨n, hn⟩ := fract_eq_zero_iff.mp hf
      cases (h n).mpr hn
    · intro hn
      obtain ⟨⟨k, hk⟩, hlt⟩ := h.whole (fract_eq_zero_iff.mpr ⟨n, hn⟩)
      rw [roundSig_of_multiple (by norm_num) hk] at hR
      exact absurd hlt (not_lt.mpr hR)
  · have hR := (roundSig_overflow_iff (x := v * 10 ^ 8) (by positivity)).not.mpr (not_le.mpr hrange)
    have hint := isInt_roundSig_iff (b := 10) (p := PRECISION) (by norm_num) hx₀
    have hself := roundSig_eq_self_iff (b := 10) (p := PRECISION) (x := v * 10 ^ 8) (by norm_num)
    rw [scaled_of_range hlarge hrange]
    generalize v * 10 ^ 8 = x at *
    simp only [Option.some_inj]
    by_cases hf : Int.fract x = 0
    · -- a whole number stays whole
      obtain ⟨n, hn⟩ := fract_eq_zero_iff.mp hf
      have hu := ulp_pos (b := 10) (p := PRECISION) (by norm_num) x
      obtain ⟨m, hm⟩ := hint.mpr fun h => by rw [hf] at h; linarith [h.1]
      refine ⟨fun h =>
          ⟨fun _ => ⟨hself.mp (hm.trans ((h m).mp hm).symm), ?_⟩, fun h => absurd hf h⟩,
        fun h n => ?_⟩
      · rw [← hm.trans ((h m).mp hm).symm]
        exact not_le.mp hR
      · rw [hself.mpr (h.whole hf).1]
    · -- any other must not become whole
      have hno : ∀ n : Int, x ≠ n := fun n hn => hf (fract_eq_zero_iff.mpr ⟨n, hn⟩)
      refine ⟨fun h => ⟨fun h' => absurd h' hf, fun _ => .inr ⟨hscale, ?_⟩⟩, fun h n => ?_⟩
      · by_contra hc
        obtain ⟨n, hn⟩ := hint.mpr hc
        exact hno n ((h n).mp hn)
      · have hc := (h.tail hf).resolve_left (not_le.mpr hrange)
        exact iff_of_false (fun hn => hint.mp ⟨n, hn⟩ hc.2) (hno n)

end

/-! ## Scaling -/

section
variable [DecimalJs] [LawfulDecimalJs]

theorem value_scale : value MINOR_UNIT_SCALE = some ((10 : ℚ) ^ 8) := by
  have hten : value (ofBigInt 10) = some ((10 : Nat) : ℚ) := by
    rw [LawfulDecimalJs.ofBigInt, clamp_intCast (by decide)]
    rfl
  have := LawfulDecimalJs.pow (k := MINOR_UNIT_DECIMALS) hten (by decide)
  simpa [MINOR_UNIT_SCALE, MINOR_UNIT_DECIMALS] using this

/-- `toMinorUnits` returns the scaled and rounded amount, if that is an integer. From here on only
numbers matter, not texts. -/
theorem toMinorUnits_of_value {amount : DecimalValue} {d : Decimal} {x : ℚ}
    (hd : amount.new = .ok d) (hx : value d = some x) (n : Int) : toMinorUnits amount = .ok n ↔
      clamp (roundSig 10 PRECISION (x * 10 ^ 8)) = some (n : ℚ) := by
  have hscaled := LawfulDecimalJs.mul hx value_scale
  unfold toMinorUnits
  rw [hd]
  change (if _ then _ else _) = _ ↔ _
  rw [← hscaled]
  have hint := LawfulDecimalJs.isInteger (mul d MINOR_UNIT_SCALE)
  split
  · next hno =>
    refine ⟨fun h => (nomatch h), fun h => absurd (hint.mpr ⟨n, h⟩) hno⟩
  · next hyes =>
    obtain ⟨m, hm⟩ := hint.mp (not_not.mp hyes)
    rw [LawfulDecimalJs.toFixed hm, bigInt, bigintOfText?_bigintText, hm]
    simp

/-- An amount that is not finite is no amount. -/
theorem toMinorUnits_not_finite {amount : DecimalValue} {d : Decimal} (hd : amount.new = .ok d)
    (hx : value d = none) (n : Int) : toMinorUnits amount ≠ .ok n := by
  have hscaled := LawfulDecimalJs.mul_not_finite (b := MINOR_UNIT_SCALE) hx
  have hint := LawfulDecimalJs.isInteger (mul d MINOR_UNIT_SCALE)
  unfold toMinorUnits
  rw [hd]
  change (if _ then _ else _) ≠ _
  rw [if_pos]
  · exact fun h => (nomatch h)
  · intro h
    obtain ⟨m, hm⟩ := hint.mp h
    rw [hscaled] at hm
    cases hm

/-! ## Parsing -/

/-- `toMinorUnits` returns `n` for a decimal text just if scaling its value makes `n`. With the
lemmas about `scaled` this says all about texts of the grammar. -/
theorem toMinorUnits_text {s : String} {v : ℚ} (hv : decimalText? s = some v) (n : Int) :
    toMinorUnits (.text s) = .ok n ↔ scaled v = some (n : ℚ) := by
  obtain ⟨d, hd, hvalue⟩ := LawfulDecimalJs.ofText hv
  have hnew : (DecimalValue.text s).new = .ok d := by rw [DecimalValue.new, hd]
  cases hc : clamp v with
  | none =>
    rw [hc] at hvalue
    rw [scaled, hc, Option.bind_none]
    exact iff_of_false (toMinorUnits_not_finite hnew hvalue n) fun h => nomatch h
  | some x =>
    rw [hc] at hvalue
    rw [scaled, hc, Option.bind_some]
    exact toMinorUnits_of_value hnew hvalue n

/-- **Amounts are parsed exactly** where a whole number of minor units is kept and any other is
noticed, and nowhere else. -/
theorem toMinorUnits_exact_iff {s : String} (h : isPositiveDecimal s) :
    ∃ v, decimalText? s = some v ∧
      ((∀ n : Int, toMinorUnits (.text s) = .ok n ↔ v * 10 ^ 8 = n) ↔ Kept (v * 10 ^ 8)) := by
  obtain ⟨v, hv⟩ := decimalText?_of_isPositiveDecimal h
  refine ⟨v, hv, ?_⟩
  simp only [← scaled_exact_iff (decimalText?_nonneg hv), toMinorUnits_text hv]

end

section
open scoped Reference

/-- One and a half units. -/
theorem toMinorUnits_exact_iff_one_and_a_half : ∃ v, decimalText? "1.5" = some v ∧
    ((∀ n : Int, toMinorUnits (.text "1.5") = .ok n ↔ v * 10 ^ 8 = n) ↔ Kept (v * 10 ^ 8)) :=
  toMinorUnits_exact_iff (by decide)

/-- A tail past the twentieth digit is swallowed, and a whole number of more digits is changed. -/
theorem toMinorUnits_loses_digits :
    (isPositiveDecimal "1.00000000000000000000001" ∧
      decimalText? "1.00000000000000000000001" = some (1 + 1 / 10 ^ 23) ∧
      toMinorUnits (.text "1.00000000000000000000001") = .ok 100000000 ∧
      (1 + 1 / 10 ^ 23 : ℚ) * 10 ^ 8 ≠ (100000000 : Int)) ∧
    (isPositiveDecimal "1234567890123.00000001" ∧
      decimalText? "1234567890123.00000001" = some (123456789012300000001 / 10 ^ 8) ∧
      toMinorUnits (.text "1234567890123.00000001") = .ok 123456789012300000000 ∧
      (123456789012300000001 / 10 ^ 8 : ℚ) * 10 ^ 8 ≠ (123456789012300000000 : Int)) := by
  refine ⟨⟨?_, ?_, ?_, by norm_num⟩, ?_, ?_, ?_, by norm_num⟩ <;> decide +kernel

end

/-! ## Pricing -/

/-- What a client owes, exactly `y` minor units at the price `p`, keeps its ceiling: it is whole, or
half a unit of its twentieth digit does not reach down to the whole number below, and neither the
price nor the amount is too small. -/
def OwedKept (p y : ℚ) : Prop :=
  Int.fract y = 0 ∨ ulp 10 PRECISION y / 2 ≤ Int.fract y ∧ 10 ^ (-MAX_EXPONENT) ≤ p ∧
    10 ^ (8 - MAX_EXPONENT) - 10 ^ (8 - MAX_EXPONENT - (PRECISION : Int)) / 2 ≤ y

/-- What a client earns, exactly `y` minor units, keeps its floor: half a unit of its twentieth
digit does not reach up to the whole number above. -/
def EarnedKept (y : ℚ) : Prop := Int.fract y < 1 - ulp 10 PRECISION y / 2

/-- The amount, in minor units, that is rounded to a whole number: `y` in twenty digits, or nothing
where the price or the amount is too small. -/
def quoted (p y : ℚ) : ℚ :=
  if 10 ^ (-MAX_EXPONENT) ≤ p ∧ 10 ^ (8 - MAX_EXPONENT) ≤ roundSig 10 PRECISION y then
    roundSig 10 PRECISION y
  else 0

/-- A number below the range of a bigint does not reach the next power of ten by rounding. -/
theorem roundSig_lt {y : ℚ} (h₀ : 0 ≤ y) (h : y < 2 ^ 63) : roundSig 10 PRECISION y < 10 ^ 19 := by
  rcases h₀.eq_or_lt with rfl | hy
  · rw [roundSig_zero]
    norm_num
  · have := pow_le_roundSig_iff (b := 10) (p := PRECISION) (by norm_num) (by decide) hy 19
    by_contra hc
    have := this.mp (by exact_mod_cast not_lt.mp hc)
    norm_num [PRECISION] at this h
    linarith

/-- The whole number of minor units next to `y`, up or down. -/
def whole (mode : Rounding) (y : ℚ) : Int :=
  match mode with
  | .ROUND_UP => ⌈y⌉
  | .ROUND_DOWN => ⌊y⌋

/-- Rounding to eight places is rounding the minor units to an integer, since the scale is a power
of ten. -/
theorem directed_whole {r : ℚ} (h₀ : 0 ≤ r) (mode : Rounding) :
    directed MINOR_UNIT_DECIMALS r mode = whole mode (r * 10 ^ 8) / 10 ^ 8 := by
  cases mode <;> simp [directed, MINOR_UNIT_DECIMALS, h₀, whole]

/-- Rounding to an integer keeps the sign, in either mode. -/
theorem whole_nonneg {y : ℚ} (h₀ : 0 ≤ y) (mode : Rounding) : 0 ≤ whole mode y := by
  cases mode with
  | ROUND_UP => exact Int.ceil_nonneg h₀
  | ROUND_DOWN => exact Int.floor_nonneg.mpr h₀

theorem whole_intCast (n : Int) (mode : Rounding) : whole mode (n : ℚ) = n := by
  cases mode with
  | ROUND_UP => exact Int.ceil_intCast n
  | ROUND_DOWN => exact Int.floor_intCast n

theorem whole_le {y : ℚ} {n : Int} (h : y ≤ n) (mode : Rounding) : whole mode y ≤ n := by
  cases mode with
  | ROUND_UP => exact Int.ceil_le.mpr h
  | ROUND_DOWN => exact (Int.floor_le_ceil _).trans (Int.ceil_le.mpr h)

/-- So many minor units are a number within range, and it has few enough digits: neither reading
nor dividing rounds it. -/
theorem clamp_minor {m : Int} (hm : |m| < 10 ^ 20) :
    clamp (m / 10 ^ 8 : ℚ) = some (m / 10 ^ 8 : ℚ) ∧
      roundSig 10 PRECISION (m / 10 ^ 8 : ℚ) = m / 10 ^ 8 := by
  have hdigits := roundSig_of_digits (K := ℚ) (b := 10) (p := PRECISION) (by norm_num) hm (-8)
  have hscale : (m : ℚ) * ((10 : ℕ) : ℚ) ^ (-8 : ℤ) = m / 10 ^ 8 := by
    norm_num [div_eq_mul_inv]
  rw [hscale] at hdigits
  refine ⟨?_, hdigits⟩
  by_cases h0 : m = 0
  · subst h0
    norm_num [clamp_zero]
  have hpos : (0 : ℚ) < |(m / 10 ^ 8 : ℚ)| := abs_pos.mpr (by positivity)
  have habs : |(m / 10 ^ 8 : ℚ)| = |(m : ℚ)| / 10 ^ 8 := by rw [abs_div]; norm_num
  have hlow : (-8 : ℤ) ≤ Int.log 10 |(m / 10 ^ 8 : ℚ)| := by
    rw [← Int.zpow_le_iff_le_log (by norm_num) hpos, habs]
    have : (1 : ℚ) ≤ |(m : ℚ)| := by exact_mod_cast Int.one_le_abs h0
    norm_num
    linarith
  have hhigh : Int.log 10 |(m / 10 ^ 8 : ℚ)| < 20 := by
    rw [← Int.lt_zpow_iff_log_lt (by norm_num) hpos, habs]
    have : |(m : ℚ)| < 10 ^ 20 := by exact_mod_cast hm
    norm_num at this ⊢
    linarith
  have hmax : MAX_EXPONENT = 9000000000000000 := rfl
  rw [clamp, if_neg (by positivity), if_neg (by omega), if_neg (by omega)]

section
variable [DecimalJs] [LawfulDecimalJs]

/-- Dividing by the scale is exact, for amounts of up to twenty digits. It only moves the point. -/
theorem value_fromMinorUnits {m : Int} (hm : |m| < 10 ^ 20) :
    value (fromMinorUnits m) = some (m / 10 ^ 8 : ℚ) := by
  have hm' : value (ofBigInt m) = some (m : ℚ) := by
    rw [LawfulDecimalJs.ofBigInt, clamp_intCast hm]
  rw [fromMinorUnits, LawfulDecimalJs.div hm' value_scale (by norm_num), (clamp_minor hm).2,
    (clamp_minor hm).1]

/-- So is the product with the scale, so that an amount that was printed is read back as it was. -/
theorem toMinorUnits_of_minor {m : Int} (hm : |m| < 10 ^ 20) {amount : DecimalValue} {d : Decimal}
    (hd : amount.new = .ok d) (hvalue : value d = some (m / 10 ^ 8 : ℚ)) :
    toMinorUnits amount = .ok m := by
  have hdigits := roundSig_of_digits (K := ℚ) (b := 10) (p := PRECISION) (by norm_num) hm 0
  rw [zpow_zero, mul_one] at hdigits
  rw [toMinorUnits_of_value hd hvalue, div_mul_cancel₀ _ (by norm_num), hdigits, clamp_intCast hm]

/-- A number is rounded to whole minor units exactly, as far as these have few enough digits: the
product after the rounding is a whole number and is kept. -/
theorem roundToMinorUnits_of_directed {amount : DecimalValue} {d : Decimal} {x : ℚ}
    (hd : amount.new = .ok d) (hx : value d = some x) {mode : Rounding} {n : Int}
    (hn : directed MINOR_UNIT_DECIMALS x mode = n / 10 ^ 8) (hlt : |n| < 10 ^ 20) :
    roundToMinorUnits amount mode = .ok n := by
  have hvalue := LawfulDecimalJs.toDecimalPlaces MINOR_UNIT_DECIMALS mode hx
  rw [hn, (clamp_minor hlt).1] at hvalue
  rw [roundToMinorUnits, hd]
  change toMinorUnits (.decimal (toDecimalPlaces d MINOR_UNIT_DECIMALS mode)) = .ok n
  exact toMinorUnits_of_minor hlt rfl hvalue

/-- A number of minor units is rounded to a whole one, up or down, where that one has few enough
digits to be kept and is not too large. -/
theorem roundToMinorUnits_of_kept {d : Decimal} {r : ℚ} (hd : value d = some r) (h₀ : 0 ≤ r)
    {mode : Rounding} {n : Int} (hn : whole mode (r * 10 ^ 8) = n)
    (hkept : roundSig 10 PRECISION (n : ℚ) = n) (hlt : (n : ℚ) < 10 ^ (MAX_EXPONENT + 1)) :
    roundToMinorUnits (.decimal d) mode = .ok n := by
  have hn₀ : 0 ≤ n := hn ▸ whole_nonneg (by positivity) mode
  have hclamp : clamp (n : ℚ) = some (n : ℚ) ∧ clamp (n / 10 ^ 8 : ℚ) = some (n / 10 ^ 8 : ℚ) := by
    rcases hn₀.eq_or_lt with rfl | hpos
    · rw [Int.cast_zero, zero_div]
      exact ⟨clamp_zero, clamp_zero⟩
    have hq : (1 : ℚ) ≤ n := by exact_mod_cast hpos
    have hsmall : (10 : ℚ) ^ (-MAX_EXPONENT) ≤ 10 ^ (-8 : Int) :=
      zpow_le_zpow_right₀ (by norm_num) (by decide)
    have h8 : (10 : ℚ) ^ (-8 : Int) = 1 / 10 ^ 8 := by norm_num
    rw [h8] at hsmall
    exact ⟨clamp_of_range (by linarith) hlt, clamp_of_range (by linarith) (by linarith)⟩
  have hvalue : value (toDecimalPlaces d MINOR_UNIT_DECIMALS mode) = some (n / 10 ^ 8 : ℚ) := by
    rw [LawfulDecimalJs.toDecimalPlaces MINOR_UNIT_DECIMALS mode hd, directed_whole h₀, hn,
      hclamp.2]
  change toMinorUnits (.decimal (toDecimalPlaces d MINOR_UNIT_DECIMALS mode)) = .ok n
  rw [toMinorUnits_of_value rfl hvalue, div_mul_cancel₀ _ (by norm_num), hkept, hclamp.1]

/-- So is one of at most nineteen digits. -/
theorem roundToMinorUnits_of_value {d : Decimal} {r : ℚ} (hd : value d = some r) (h₀ : 0 ≤ r)
    (h : r * 10 ^ 8 < 10 ^ 19) (mode : Rounding) :
    roundToMinorUnits (.decimal d) mode = .ok (whole mode (r * 10 ^ 8)) := by
  have hn₀ := whole_nonneg (y := r * 10 ^ 8) (by positivity) mode
  have hn₁ : whole mode (r * 10 ^ 8) ≤ 10 ^ 19 := whole_le (by exact_mod_cast h.le) mode
  have hlt : |whole mode (r * 10 ^ 8)| < 10 ^ PRECISION := by
    rw [abs_of_nonneg hn₀]
    exact lt_of_le_of_lt hn₁ (by decide)
  exact roundToMinorUnits_of_directed rfl hd (directed_whole h₀ mode) hlt

/-- The product of the base amount and the price, read, multiplied and rounded. Every step may
round, and which do is decided by the number of digits. -/
theorem value_rawQuoteAmount {base : Int} (h₁ : 1 ≤ base) (h₂ : base < 10 ^ 19) {price : String}
    {p : ℚ} (hp : decimalText? price = some p) (hp₀ : 0 ≤ p) (hy : base * p < 2 ^ 63) :
    ∃ d, (DecimalValue.text price).new = .ok d ∧
      value (mul (fromMinorUnits base) d) = some (quoted p (base * p) * 10 ^ (-8 : Int)) := by
  obtain ⟨d, hd, hvalue⟩ := LawfulDecimalJs.ofText hp
  have hb : (1 : ℚ) ≤ base := by exact_mod_cast h₁
  have hbase : value (fromMinorUnits base) = some (base * 10 ^ (-8 : Int) : ℚ) := by
    rw [value_fromMinorUnits (by rw [abs_of_pos (by omega)]; omega), div_eq_mul_inv]
    norm_num
  refine ⟨d, by rw [DecimalValue.new, hd], ?_⟩
  rcases lt_or_ge p (10 ^ (-MAX_EXPONENT)) with hsmall | hlarge
  · -- the price is read as zero
    have hzero : clamp p = some 0 := by
      rcases hp₀.eq_or_lt with rfl | hpos
      · exact clamp_zero
      · exact clamp_underflow hpos hsmall
    rw [LawfulDecimalJs.mul hbase (hvalue.trans hzero), mul_zero,
      roundSig_zero, clamp_zero, quoted, if_neg fun h => absurd h.1 (not_le.mpr hsmall), zero_mul]
  · have hpos : 0 < p := lt_of_lt_of_le (zpow_pos (by norm_num) _) hlarge
    have hypos : 0 < base * p := by positivity
    have hbig : (10 : ℚ) ^ (19 : Int) ≤ 10 ^ (MAX_EXPONENT + 1) :=
      zpow_le_zpow_right₀ (by norm_num) (by decide)
    have hrange : p < 10 ^ (MAX_EXPONENT + 1) := by
      norm_num at hbig hy ⊢
      nlinarith
    rw [LawfulDecimalJs.mul hbase (hvalue.trans (clamp_of_range hlarge hrange)),
      mul_right_comm]
    have hround := roundSig_mul_zpow (b := 10) (p := PRECISION) (by norm_num) ((base : ℚ) * p) (-8)
    rw [show roundSig 10 PRECISION ((base : ℚ) * p * 10 ^ (-8 : Int)) =
      roundSig 10 PRECISION (base * p) * 10 ^ (-8 : Int) by exact_mod_cast hround]
    have hlt := roundSig_lt hypos.le hy
    have hRpos : 0 < roundSig 10 PRECISION (base * p) := lt_of_lt_of_le
      (zpow_pos (by norm_num) _) (zpow_log_le_roundSig (b := 10) (by norm_num) (by decide) hypos)
    rw [quoted]
    generalize roundSig 10 PRECISION (base * p) = R at *
    have hscale : (10 : ℚ) ^ (8 - MAX_EXPONENT) * 10 ^ (-8 : Int) = 10 ^ (-MAX_EXPONENT) := by
      rw [← zpow_add₀ (by norm_num)]
      rfl
    have h8 : (0 : ℚ) < 10 ^ (-8 : Int) := zpow_pos (by norm_num) _
    by_cases hR : 10 ^ (8 - MAX_EXPONENT) ≤ R
    · rw [if_pos ⟨hlarge, hR⟩, clamp_of_range]
      · rw [← hscale]
        exact mul_le_mul_of_nonneg_right hR h8.le
      · norm_num at hbig hlt ⊢
        linarith
    · rw [if_neg fun h => hR h.2, zero_mul, clamp_underflow (mul_pos hRpos h8)]
      rw [← hscale]
      exact mul_lt_mul_of_pos_right (not_le.mp hR) h8

/-- What a quote is computed to be: the rounded product, in minor units and in the direction of the
side. -/
theorem computeQuoteAmount_of_price {base : Int} (h₁ : 1 ≤ base) (h₂ : base < 10 ^ 19)
    (side : TradeSide) {ask bid price : String}
    (hprice : (match side with | .BUY => ask | .SELL => bid) = price) {p : ℚ}
    (hp : decimalText? price = some p) (hy : base * p < 2 ^ 63) :
    computeQuoteAmount side base ask bid = .ok ⟨price, match side with
      | .BUY => ⌈quoted p (base * p)⌉
      | .SELL => ⌊quoted p (base * p)⌋⟩ := by
  have hp₀ := decimalText?_nonneg hp
  have hb : (1 : ℚ) ≤ base := by exact_mod_cast h₁
  have hypos : 0 ≤ base * p := mul_nonneg (by linarith) hp₀
  obtain ⟨d, hd, hvalue⟩ := value_rawQuoteAmount h₁ h₂ hp hp₀ hy
  have hq₀ : 0 ≤ quoted p (base * p) := by
    rw [quoted]
    split
    · next h => exact (zpow_pos (by norm_num) _).le.trans h.2
    · exact le_refl 0
  have hq : quoted p (base * p) < 10 ^ 19 := by
    rw [quoted]
    split
    · exact roundSig_lt hypos hy
    · norm_num
  have hback : quoted p (base * p) * 10 ^ (-8 : Int) * 10 ^ 8 = quoted p (base * p) := by
    rw [mul_assoc]
    norm_num
  have h8 : (0 : ℚ) ≤ 10 ^ (-8 : Int) := by norm_num
  have hround := roundToMinorUnits_of_value hvalue (mul_nonneg hq₀ h8) (hback.symm ▸ hq)
  rw [hback] at hround
  subst hprice
  cases side with
  | BUY =>
    simp only [computeQuoteAmount, hd, hround, whole, Bind.bind, Except.bind, Pure.pure,
      Except.pure]
  | SELL =>
    simp only [computeQuoteAmount, hd, hround, whole, Bind.bind, Except.bind, Pure.pure,
      Except.pure]

end

/-- Below `2 ^ 63` the last place is a fraction of one. -/
theorem ulp_of_lt {y : ℚ} (h₀ : 0 ≤ y) (h : y < 2 ^ 63) :
    ulp 10 PRECISION y ≤ 1 / 10 ∧ ∃ m : Nat, (m : ℚ) * ulp 10 PRECISION y = 1 := by
  have hlog : Int.log 10 |y| ≤ 18 := by
    rw [abs_of_nonneg h₀]
    rcases h₀.eq_or_lt with rfl | hy
    · simp
    · have := (Int.lt_zpow_iff_log_lt (b := 10) (x := 19) (by norm_num) hy).mp
        (by norm_num at h ⊢; linarith)
      omega
  have hle : ulp 10 PRECISION y ≤ 1 / 10 := by
    rw [ulp, show (1 / 10 : ℚ) = ((10 : Nat) : ℚ) ^ (-1 : Int) by norm_num]
    refine zpow_le_zpow_right₀ (by norm_num) ?_
    have : ((PRECISION : Nat) : Int) = 20 := rfl
    omega
  refine ⟨hle, (ulp_whole_or (b := 10) (by norm_num) PRECISION y).resolve_left ?_⟩
  rintro ⟨n, hn, hu⟩
  have : (1 : ℚ) ≤ n := by exact_mod_cast hn
  linarith

section
variable {p : ℚ} {base : Int}

/-- Where nothing is quoted, there is less than a minor unit to quote: the product is below the
numbers there are, or the price is. -/
theorem lt_one_of_not_quoted (h₁ : 1 ≤ base) (h₂ : base < 10 ^ 19) (hp₀ : 0 ≤ p)
    (h : ¬ (10 ^ (-MAX_EXPONENT) ≤ p ∧
      10 ^ (8 - MAX_EXPONENT) ≤ roundSig 10 PRECISION (base * p))) :
    base * p < 1 / 2 := by
  have hb : (1 : ℚ) ≤ base := by exact_mod_cast h₁
  have hb' : (base : ℚ) < 10 ^ 19 := by exact_mod_cast h₂
  rcases not_and_or.mp h with h | h
  · have hsmall : (10 : ℚ) ^ (-MAX_EXPONENT) ≤ 10 ^ (-20 : Int) :=
      zpow_le_zpow_right₀ (by norm_num) (by decide)
    rw [not_le] at h
    norm_num at hsmall h hb' ⊢
    nlinarith
  · have hsmall : (10 : ℚ) ^ (8 - MAX_EXPONENT) ≤ 10 ^ (-1 : Int) :=
      zpow_le_zpow_right₀ (by norm_num) (by decide)
    by_contra hc
    refine h (le_trans ?_ (le_roundSig_of_le (k := -1) ?_))
    · exact hsmall
    · norm_num at hc ⊢
      linarith

/-- The ceiling is kept exactly under `OwedKept`: the rounded product has the same least whole
number above it. -/
theorem ceil_quoted_eq_iff (h₁ : 1 ≤ base) (h₂ : base < 10 ^ 19) (hp₀ : 0 ≤ p)
    (hy : base * p < 2 ^ 63) :
    ⌈quoted p (base * p)⌉ = ⌈base * p⌉ ↔ OwedKept p (base * p) := by
  have hb : (1 : ℚ) ≤ base := by exact_mod_cast h₁
  have hy₀ : 0 ≤ base * p := mul_nonneg (by linarith) hp₀
  obtain ⟨-, m, hm⟩ := ulp_of_lt hy₀ hy
  have hceil := ceil_roundSig_eq_iff (b := 10) (by norm_num) hy₀ hm
  by_cases h : 10 ^ (-MAX_EXPONENT) ≤ p ∧
      10 ^ (8 - MAX_EXPONENT) ≤ roundSig 10 PRECISION (base * p)
  · rw [quoted, if_pos h, hceil, OwedKept]
    refine or_congr_right ⟨fun hu => ⟨hu, h.1, ?_⟩, fun hu => hu.1⟩
    have hpos : 0 < base * p := by
      have : 0 < p := lt_of_lt_of_le (zpow_pos (by norm_num) _) h.1
      positivity
    have := (pow_le_roundSig_iff (b := 10) (p := PRECISION) (by norm_num) (by decide) hpos
      (8 - MAX_EXPONENT)).mp (by exact_mod_cast h.2)
    exact_mod_cast this
  · have hlt := lt_one_of_not_quoted h₁ h₂ hp₀ h
    have hfract : Int.fract (base * p) = base * p := Int.fract_eq_self.mpr ⟨hy₀, by linarith⟩
    rw [quoted, if_neg h, Int.ceil_zero, OwedKept, hfract]
    rcases hy₀.eq_or_lt with hzero | hpos
    · rw [← hzero]
      simp
    · refine iff_of_false (fun hc => ?_) fun hc => ?_
      · exact absurd (Int.ceil_pos.mpr hpos) (by rw [← hc]; exact lt_irrefl 0)
      · obtain ⟨-, hp, hy⟩ := hc.resolve_left hpos.ne'
        refine h ⟨hp, ?_⟩
        have := (pow_le_roundSig_iff (b := 10) (p := PRECISION) (by norm_num) (by decide) hpos
          (8 - MAX_EXPONENT)).mpr (by exact_mod_cast hy)
        exact_mod_cast this

/-- The floor is kept exactly under `EarnedKept`: the rounded product has not reached the next
whole number. -/
theorem floor_quoted_eq_iff (h₁ : 1 ≤ base) (h₂ : base < 10 ^ 19) (hp₀ : 0 ≤ p)
    (hy : base * p < 2 ^ 63) :
    ⌊quoted p (base * p)⌋ = ⌊base * p⌋ ↔ EarnedKept (base * p) := by
  have hb : (1 : ℚ) ≤ base := by exact_mod_cast h₁
  have hy₀ : 0 ≤ base * p := mul_nonneg (by linarith) hp₀
  obtain ⟨hu, m, hm⟩ := ulp_of_lt hy₀ hy
  by_cases h : 10 ^ (-MAX_EXPONENT) ≤ p ∧
      10 ^ (8 - MAX_EXPONENT) ≤ roundSig 10 PRECISION (base * p)
  · rw [quoted, if_pos h, floor_roundSig_eq_iff (b := 10) (by norm_num) hy₀ hm, EarnedKept]
  · have hlt := lt_one_of_not_quoted h₁ h₂ hp₀ h
    have hfract : Int.fract (base * p) = base * p := Int.fract_eq_self.mpr ⟨hy₀, by linarith⟩
    have hfloor : ⌊base * p⌋ = 0 := Int.floor_eq_zero_iff.mpr ⟨hy₀, by linarith⟩
    rw [quoted, if_neg h, Int.floor_zero, hfloor, EarnedKept, hfract]
    exact iff_of_true rfl (by linarith)

/-- The least integer not below a number is its ceiling. -/
theorem isLeast_iff {y : ℚ} {n : Int} : IsLeast {m : Int | y ≤ m} n ↔ n = ⌈y⌉ := by
  have : IsLeast {m : Int | y ≤ m} ⌈y⌉ := ⟨Int.le_ceil y, fun m hm => Int.ceil_le.mpr hm⟩
  exact ⟨fun h => h.unique this, fun h => h ▸ this⟩

/-- The greatest integer not above a number is its floor. -/
theorem isGreatest_iff {y : ℚ} {n : Int} : IsGreatest {m : Int | (m : ℚ) ≤ y} n ↔ n = ⌊y⌋ := by
  have : IsGreatest {m : Int | (m : ℚ) ≤ y} ⌊y⌋ := ⟨Int.floor_le y, fun m hm => Int.le_floor.mpr hm⟩
  exact ⟨fun h => h.unique this, fun h => h ▸ this⟩

end

/-- **Quotes favour the house by less than a minor unit** exactly where the twenty digits keep the
ceiling of what is owed and the floor of what is earned. -/
theorem computeQuoteAmount_exact_iff [DecimalJs] [LawfulDecimalJs] {base : Int} (h₁ : 1 ≤ base)
    (h₂ : base ≤ 2 ^ 63 - 1)
    {price other : String} {p : ℚ} (hp : decimalText? price = some p) (hy : base * p < 2 ^ 63) :
    ((∃ n, computeQuoteAmount .BUY base price other = .ok ⟨price, n⟩ ∧
        IsLeast {m : Int | base * p ≤ m} n) ↔ OwedKept p (base * p)) ∧
      ((∃ n, computeQuoteAmount .SELL base other price = .ok ⟨price, n⟩ ∧
        IsGreatest {m : Int | (m : ℚ) ≤ base * p} n) ↔ EarnedKept (base * p)) := by
  have h₂ : base < 10 ^ 19 := by omega
  have hp₀ := decimalText?_nonneg hp
  rw [computeQuoteAmount_of_price h₁ h₂ .BUY rfl hp hy,
    computeQuoteAmount_of_price h₁ h₂ .SELL rfl hp hy,
    ← ceil_quoted_eq_iff h₁ h₂ hp₀ hy, ← floor_quoted_eq_iff h₁ h₂ hp₀ hy]
  simp only [isLeast_iff, isGreatest_iff, Except.ok.injEq, QuoteAmount.mk.injEq, true_and,
    exists_eq_left']

section
open scoped Reference

/-- One unit at 50000.5. -/
theorem computeQuoteAmount_exact_iff_one :
    ((∃ n, computeQuoteAmount .BUY 100000000 "50000.5" "0" = .ok ⟨"50000.5", n⟩ ∧
        IsLeast {m : Int | ((100000000 : Int) : ℚ) * (100001 / 2) ≤ m} n) ↔
          OwedKept (100001 / 2) (((100000000 : Int) : ℚ) * (100001 / 2))) ∧
      ((∃ n, computeQuoteAmount .SELL 100000000 "0" "50000.5" = .ok ⟨"50000.5", n⟩ ∧
        IsGreatest {m : Int | (m : ℚ) ≤ ((100000000 : Int) : ℚ) * (100001 / 2)} n) ↔
          EarnedKept (((100000000 : Int) : ℚ) * (100001 / 2))) :=
  computeQuoteAmount_exact_iff (by decide) (by decide) (by decide +kernel) (by norm_num)

/-- A client that buys pays less than it owes, and one that sells receives more than it earned. -/
theorem computeQuoteAmount_favours_client : decimalText? "1.00000001" = some (1 + 1 / 10 ^ 8) ∧
    (computeQuoteAmount .BUY 1000000000000000001 "1.00000001" "0" =
        .ok ⟨"1.00000001", 1000000010000000001⟩ ∧
      (1000000010000000001 : ℚ) < 1000000000000000001 * (1 + 1 / 10 ^ 8)) ∧
    computeQuoteAmount .SELL 999999999999999999 "0" "1.00000001" =
        .ok ⟨"1.00000001", 1000000009999999999⟩ ∧
      999999999999999999 * (1 + 1 / 10 ^ 8) < (1000000009999999999 : ℚ) := by
  refine ⟨?_, ⟨?_, by norm_num⟩, ?_, by norm_num⟩ <;> decide +kernel

end

end MiniOpenFX
