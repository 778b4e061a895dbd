import MiniOpenFX.Domain.Notation
import MiniOpenFX.Guarantees.Amounts
import Mathlib.Data.Sign.Basic

/-!
# Amounts to texts and back

Amounts of fewer than twenty-one digits never meet the limit of twenty significant digits: dividing
by the scale is exact, and so is the product that undoes it. So the text of an amount is read as
that amount (`formatMinorUnits_roundtrip`), and rounding to whole minor units goes exactly one way
(`roundToMinorUnits_directed`). The texts of the smallest amounts have an exponent, which the fields
of the requests do not accept (`formatMinorUnits_isPositiveDecimal_iff`).
-/

namespace MiniOpenFX

open Js DecimalJs Significant

/-! ## Minor units -/

/-- An integer of minor units is a finite decimal: it has eight places at most, so printing it
loses nothing. -/
theorem finiteDecimal_minor (m : Int) : FiniteDecimal (m / 10 ^ 8 : ℚ) :=
  ⟨m, -8, by norm_num [div_eq_mul_inv]⟩

section
variable [DecimalJs] [LawfulDecimalJs] [LawfulDecimalText] {m : Int}

/-- `formatMinorUnits` prints the exact quotient: it has at most twenty digits, as many as the
precision. -/
theorem formatMinorUnits_eq (hm : |m| < 10 ^ 20) :
    formatMinorUnits m = Reference.toText (some (m / 10 ^ 8)) :=
  LawfulDecimalText.toText (value_fromMinorUnits hm)

/-- What is printed is read back as the amount it was printed from: the division and the product
with the scale are exact for so few digits. -/
theorem toMinorUnits_formatMinorUnits (hm : |m| < 10 ^ 20) :
    toMinorUnits (.text (formatMinorUnits m)) = .ok m := by
  obtain ⟨d, hd, hvalue⟩ := ofText?_toText (finiteDecimal_minor m) (clamp_minor hm).1
  refine toMinorUnits_of_minor hm (d := d) ?_ hvalue
  rw [DecimalValue.new, formatMinorUnits_eq hm, hd]

end

/-- **The round trip of money.** Dividing by the scale loses no digit, the text is read as the
amount it was written for, and no two amounts share a text. -/
theorem formatMinorUnits_roundtrip [DecimalJs] [LawfulDecimalJs] [LawfulDecimalText] {m : Int}
    (hm : |m| < 10 ^ 20) :
    value (fromMinorUnits m) = some (m / 10 ^ 8 : ℚ) ∧
      toMinorUnits (.text (formatMinorUnits m)) = .ok m ∧
      ∀ n : Int, |n| < 10 ^ 20 → formatMinorUnits n = formatMinorUnits m → n = m := by
  refine ⟨value_fromMinorUnits hm, toMinorUnits_formatMinorUnits hm, fun n hn htext => ?_⟩
  have hback := toMinorUnits_formatMinorUnits hn
  rw [htext, toMinorUnits_formatMinorUnits hm] at hback
  exact (Except.ok.inj hback).symm

section
open scoped Reference

/-- The smallest amount a client can be short of. -/
theorem formatMinorUnits_roundtrip_neg_one :
    value (fromMinorUnits (-1)) = some (((-1 : Int) : ℚ) / 10 ^ 8) ∧
      toMinorUnits (.text (formatMinorUnits (-1))) = .ok (-1) ∧
      ∀ n : Int, |n| < 10 ^ 20 → formatMinorUnits n = formatMinorUnits (-1) → n = -1 :=
  formatMinorUnits_roundtrip (by decide)

end

/-! ## The grammar of amount fields -/

/-- A text that the pattern accepts consists of digits and points: no sign and no exponent. -/
theorem mem_of_isPositiveDecimal {s : String} (h : isPositiveDecimal s) {c : Char}
    (hc : c ∈ s.toList) : c.isDigit = true ∨ c = '.' := by
  rw [← List.takeWhile_append_dropWhile (p := Char.isDigit) (l := s.toList), List.mem_append] at hc
  rcases hc with hc | hc
  · exact .inl (List.mem_takeWhile_imp hc)
  · unfold isPositiveDecimal at h
    split at h
    · next hrest =>
      rw [hrest] at hc
      cases hc
    · next fraction hrest =>
      simp only [Bool.and_eq_true] at h
      rw [hrest] at hc
      rcases List.mem_cons.mp hc with rfl | hc
      · exact .inr rfl
      · exact .inl (List.all_eq_true.mp h.2 c hc)
    · cases h

/-- Plain notation is what the amount fields accept. -/
theorem isPositiveDecimal_plain (n k : Nat) : isPositiveDecimal (Reference.plain n k) := by
  have hdigits : ∀ c ∈ Nat.toDigits 10 (n / 10 ^ k), c.isDigit = true := fun c =>
    isDigit_of_mem_toDigits
  have hne : Nat.toDigits 10 (n / 10 ^ k) ≠ [] := Nat.toDigits_ne_nil
  unfold isPositiveDecimal
  rw [toList_plain]
  by_cases hk : k = 0
  · obtain ⟨h₁, h₂⟩ := takeWhile_isDigit hdigits [] (by simp)
    simp only [hk, if_true] at h₁ h₂ ⊢
    simp only [h₁, h₂]
    simp
  · obtain ⟨h₁, h₂⟩ := takeWhile_isDigit hdigits ('.' :: padded k (n % 10 ^ k))
      fun c hc => by cases hc; rfl
    have hpadded : padded k (n % 10 ^ k) ≠ [] := by
      intro h
      have := congrArg List.length h
      rw [padded_length] at this
      exact hk this
    have hall := List.all_eq_true.mpr (padded_isDigit k (n % 10 ^ k))
    simp only [hk, if_false, h₁, h₂, hall, List.isEmpty_eq_false_iff.mpr hne,
      List.isEmpty_eq_false_iff.mpr hpadded, Bool.not_false, Bool.and_self]

/-- The texts of numbers that are not negative are accepted exactly in plain notation, which
decimal.js leaves below `1e-7` and from `1e21` on. -/
theorem isPositiveDecimal_toText_iff {x : ℚ} (h : FiniteDecimal x) (hx : 0 ≤ x) :
    isPositiveDecimal (Reference.toText (some x)) ↔
      x = 0 ∨ -7 < Int.log 10 |x| ∧ Int.log 10 |x| < 21 := by
  simp only [Reference.toText]
  split
  · next hplain =>
    obtain ⟨n, hn, -⟩ := h.plain_eq hx
    rw [hn]
    exact iff_of_true (isPositiveDecimal_plain n _) hplain
  · next hplain =>
    refine iff_of_false (fun hpos => ?_) hplain
    have := mem_of_isPositiveDecimal hpos (c := 'e') (by simp [String.toList_append])
    exact absurd this (by decide)

/-- **Amounts are texts that the requests accept**, but for the smallest: from one minor unit to
ninety-nine they have an exponent. -/
theorem formatMinorUnits_isPositiveDecimal_iff [DecimalJs] [LawfulDecimalJs] [LawfulDecimalText]
    {m : Int} (h₀ : 0 ≤ m) (h : m < 2 ^ 63) :
    isPositiveDecimal (formatMinorUnits m) ↔ m = 0 ∨ 100 ≤ m := by
  have hm : |m| < 10 ^ 20 := by
    rw [abs_of_nonneg h₀]
    exact h.trans (by decide)
  have hx : (0 : ℚ) ≤ m / 10 ^ 8 := by positivity
  have hzero : (m / 10 ^ 8 : ℚ) = 0 ↔ m = 0 := by simp
  rw [formatMinorUnits_eq hm, isPositiveDecimal_toText_iff (finiteDecimal_minor m) hx, hzero]
  refine or_congr_right' fun hne => ?_
  have hpos : (0 : ℚ) < m / 10 ^ 8 := lt_of_le_of_ne hx (Ne.symm (hzero.not.mpr hne))
  -- below the exponent of 10 ^ 21, and from the exponent of a hundred minor units on
  have hhigh : Int.log 10 |(m / 10 ^ 8 : ℚ)| < 21 := by
    rw [abs_of_pos hpos, ← Int.lt_zpow_iff_log_lt (by norm_num) hpos]
    have : (m : ℚ) < 2 ^ 63 := by exact_mod_cast h
    norm_num at this ⊢
    linarith
  have hlow : -7 < Int.log 10 |(m / 10 ^ 8 : ℚ)| ↔ 100 ≤ m := by
    rw [abs_of_pos hpos, ← Int.add_one_le_iff, ← Int.zpow_le_iff_le_log (by norm_num) hpos,
      le_div_iff₀ (by norm_num)]
    norm_num
    exact_mod_cast Iff.rfl
  rw [hlow]
  exact and_iff_left hhigh

section
open scoped Reference

/-- A hundred minor units, printed without an exponent. -/
theorem formatMinorUnits_isPositiveDecimal_iff_hundred :
    isPositiveDecimal (formatMinorUnits 100) ↔ (100 : Int) = 0 ∨ 100 ≤ (100 : Int) :=
  formatMinorUnits_isPositiveDecimal_iff (by decide) (by decide)

/-- One minor unit is not accepted. -/
theorem formatMinorUnits_one : formatMinorUnits 1 = "1e-8" ∧
    ¬ (∀ m : Int, 0 ≤ m → m < 2 ^ 63 → isPositiveDecimal (formatMinorUnits m)) := by
  refine ⟨by decide +kernel, fun h => ?_⟩
  exact absurd (h 1 (by decide) (by decide)) (by decide +kernel)

end

/-! ## Rounding one way -/

/-- The whole number of minor units, with the sign of `x`, that is nearest to `x` away from zero or
towards it. -/
def DirectedMinor (mode : Rounding) (x : ℚ) (n : Int) : Prop :=
  ∃ k : ℕ, n = SignType.sign x * k ∧ match mode with
    | .ROUND_UP => IsLeast {j : ℕ | |x| * 10 ^ 8 ≤ j} k
    | .ROUND_DOWN => IsGreatest {j : ℕ | (j : ℚ) ≤ |x| * 10 ^ 8} k

/-- Rounding the absolute value and giving it the sign again is directed rounding. -/
theorem directedMinor_whole (mode : Rounding) (x : ℚ) :
    DirectedMinor mode x (SignType.sign x * whole mode (|x| * 10 ^ 8)) := by
  obtain ⟨k, hk⟩ := Int.eq_ofNat_of_zero_le (whole_nonneg (y := |x| * 10 ^ 8) (by positivity) mode)
  refine ⟨k, by rw [hk], ?_⟩
  cases mode with
  | ROUND_UP =>
    have hceil : ⌈|x| * 10 ^ 8⌉ = (k : Int) := hk
    refine ⟨?_, fun j hj => ?_⟩
    · have := Int.le_ceil (|x| * 10 ^ 8)
      rw [hceil] at this
      exact_mod_cast this
    · have : ⌈|x| * 10 ^ 8⌉ ≤ (j : Int) := Int.ceil_le.mpr (by exact_mod_cast hj)
      omega
  | ROUND_DOWN =>
    have hfloor : ⌊|x| * 10 ^ 8⌋ = (k : Int) := hk
    refine ⟨?_, fun j hj => ?_⟩
    · have := Int.floor_le (|x| * 10 ^ 8)
      rw [hfloor] at this
      exact_mod_cast this
    · have : (j : Int) ≤ ⌊|x| * 10 ^ 8⌋ := Int.le_floor.mpr (by exact_mod_cast hj)
      omega

/-- Rounding to places works on the magnitude and keeps the sign. Up is away from zero, down is
towards it. -/
theorem directed_eq_sign (x : ℚ) (mode : Rounding) : directed MINOR_UNIT_DECIMALS x mode =
    ((SignType.sign x * whole mode (|x| * 10 ^ 8) : Int) : ℚ) / 10 ^ 8 := by
  rcases lt_trichotomy x 0 with hx | rfl | hx
  · have hneg : ¬ 0 ≤ x := not_le.mpr hx
    have hmul : |x| * 10 ^ 8 = -(x * 10 ^ 8) := by rw [abs_of_neg hx, neg_mul]
    cases mode <;>
      simp [directed, MINOR_UNIT_DECIMALS, hneg, sign_neg hx, whole, hmul, Int.ceil_neg,
        Int.floor_neg]
  · cases mode <;> simp [directed]
  · rw [directed_whole hx.le, sign_pos hx, abs_of_pos hx, SignType.coe_one, one_mul]

/-- A number rounds up and down to the same integer just if it is one, and otherwise to two
neighbours. -/
theorem ceil_eq_floor_iff {y : ℚ} : ⌈y⌉ = ⌊y⌋ ↔ ∃ z : Int, y = z := by
  constructor
  · intro h
    refine ⟨⌊y⌋, le_antisymm ?_ (Int.floor_le y)⟩
    rw [← h]
    exact Int.le_ceil y
  · rintro ⟨z, rfl⟩
    rw [Int.ceil_intCast, Int.floor_intCast]

/-- Whether minor units are whole does not depend on the sign. -/
theorem abs_isInt_iff {x : ℚ} : (∃ z : Int, |x| * 10 ^ 8 = z) ↔ ∃ z : Int, x * 10 ^ 8 = z := by
  rcases abs_choice x with h | h
  · rw [h]
  · rw [h]
    constructor
    · rintro ⟨z, hz⟩
      exact ⟨-z, by push_cast; linarith⟩
    · rintro ⟨z, hz⟩
      exact ⟨-z, by push_cast; linarith⟩

/-- **Rounding goes exactly one way**: to the nearest whole number of minor units away from zero or
towards it, where that one has at most twenty digits. The two are neighbours, and the same for a
whole number. -/
theorem roundToMinorUnits_directed [DecimalJs] [LawfulDecimalJs] {amount : DecimalValue}
    {d : Decimal} {x : ℚ} (hd : amount.new = .ok d) (hx : value d = some x) :
    ∃ up down : Int, DirectedMinor .ROUND_UP x up ∧ DirectedMinor .ROUND_DOWN x down ∧
      (|up| < 10 ^ 20 → roundToMinorUnits amount .ROUND_UP = .ok up) ∧
      (|down| < 10 ^ 20 → roundToMinorUnits amount .ROUND_DOWN = .ok down) ∧
      |up - down| ≤ 1 ∧ (up = down ↔ ∃ z : Int, x * 10 ^ 8 = z) := by
  have hcover : ⌈|x| * 10 ^ 8⌉ ≤ ⌊|x| * 10 ^ 8⌋ + 1 := Int.ceil_le_floor_add_one _
  have horder : ⌊|x| * 10 ^ 8⌋ ≤ ⌈|x| * 10 ^ 8⌉ := Int.floor_le_ceil _
  refine ⟨_, _, directedMinor_whole .ROUND_UP x, directedMinor_whole .ROUND_DOWN x,
    roundToMinorUnits_of_directed hd hx (directed_eq_sign x .ROUND_UP),
    roundToMinorUnits_of_directed hd hx (directed_eq_sign x .ROUND_DOWN), ?_, ?_⟩
  · simp only [whole]
    rw [← mul_sub, abs_mul]
    have hsign : |(SignType.sign x : Int)| ≤ 1 := by
      cases SignType.sign x <;> decide
    have hgap : |⌈|x| * 10 ^ 8⌉ - ⌊|x| * 10 ^ 8⌋| ≤ 1 := by
      rw [abs_of_nonneg (by omega)]
      omega
    exact mul_le_one₀ hsign (abs_nonneg _) hgap
  · simp only [whole]
    rw [← abs_isInt_iff, ← ceil_eq_floor_iff]
    rcases eq_or_ne x 0 with rfl | hne
    · simp
    · refine mul_right_inj' ?_
      rcases hne.lt_or_gt with hx | hx
      · rw [sign_neg hx]
        decide
      · rw [sign_pos hx]
        decide

section
open scoped Reference

/-- A tail past the eighth place. -/
theorem roundToMinorUnits_directed_tail : ∃ up down : Int,
    DirectedMinor .ROUND_UP (-1000000005 / 10 ^ 9) up ∧
      DirectedMinor .ROUND_DOWN (-1000000005 / 10 ^ 9) down ∧
      (|up| < 10 ^ 20 → roundToMinorUnits (.decimal (some (-1000000005 / 10 ^ 9))) .ROUND_UP =
        .ok up) ∧
      (|down| < 10 ^ 20 → roundToMinorUnits (.decimal (some (-1000000005 / 10 ^ 9))) .ROUND_DOWN =
        .ok down) ∧
      |up - down| ≤ 1 ∧ (up = down ↔ ∃ z : Int, (-1000000005 / 10 ^ 9 : ℚ) * 10 ^ 8 = z) :=
  roundToMinorUnits_directed (d := some (-1000000005 / 10 ^ 9)) rfl rfl

end

end MiniOpenFX
