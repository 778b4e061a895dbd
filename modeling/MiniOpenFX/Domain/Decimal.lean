import MiniOpenFX.Domain.Money
import MiniOpenFX.Rounding.Significant

/-!
# What is assumed of decimal.js

`LawfulDecimalJs` states what the documentation of decimal.js says of the operations the services
use, at the default configuration: products and quotients are rounded half up to `PRECISION`
significant digits, the constructor keeps all digits, and whatever has an exponent beyond
`MAX_EXPONENT` becomes an infinity or zero (`clamp`). `Reference` is an executable instance.
-/

namespace MiniOpenFX

open Js DecimalJs Significant

/-! ## Numbers and texts -/

/-- The significant digits of a result, at the default configuration. -/
def PRECISION : Nat := 20

/-- The largest exponent, at the default configuration; the smallest is its negative. -/
def MAX_EXPONENT : Int := 9000000000000000

/-- The last step of every operation: too large an exponent makes an infinity, too small a zero. -/
def clamp (x : ℚ) : Option ℚ :=
  if x = 0 then some 0
  else if MAX_EXPONENT < Int.log 10 |x| then none
  else if Int.log 10 |x| < -MAX_EXPONENT then some 0
  else some x

/-- Rounding to a number of decimal places, away from zero or towards it. -/
def directed (places : Nat) (x : ℚ) : Rounding → ℚ
  | .ROUND_UP => (if 0 ≤ x then ⌈x * 10 ^ places⌉ else ⌊x * 10 ^ places⌋) / 10 ^ places
  | .ROUND_DOWN => (if 0 ≤ x then ⌊x * 10 ^ places⌋ else ⌈x * 10 ^ places⌉) / 10 ^ places

/-- The exponent part of a decimal text. -/
def exponent? : List Char → Option Int
  | [] => some 0
  | c :: cs =>
    if c ≠ 'e' ∧ c ≠ 'E' then none
    else match cs with
      | '+' :: ds => (digits? ds).map fun n : Nat => (n : Int)
      | '-' :: ds => (digits? ds).map fun n : Nat => -(n : Int)
      | ds => (digits? ds).map fun n : Nat => (n : Int)

/-- The number an unsigned decimal text stands for: digits with at most one point among them, and
possibly an exponent. -/
def decimalText? (s : String) : Option ℚ :=
  let whole := s.toList.takeWhile Char.isDigit
  let (fraction, rest) := match s.toList.dropWhile Char.isDigit with
    | '.' :: cs => (cs.takeWhile Char.isDigit, cs.dropWhile Char.isDigit)
    | cs => ([], cs)
  if whole = [] ∧ fraction = [] then none
  else (exponent? rest).map fun e : Int =>
    (Nat.ofDigitChars 10 (whole ++ fraction) 0 : ℚ) * 10 ^ (e - (fraction.length : Int))

/-- A sign is none of it. -/
theorem decimalText?_of_sign {s : String} {cs : List Char} (hs : s.toList = '-' :: cs) :
    decimalText? s = none := by
  have hdigit : Char.isDigit '-' = false := rfl
  simp [decimalText?, hs, hdigit]

section
variable {x y : ℚ}

theorem clamp_zero : clamp 0 = some 0 := rfl

/-- Numbers too large. -/
theorem clamp_overflow (h : (10 : ℚ) ^ (MAX_EXPONENT + 1) ≤ x) : clamp x = none := by
  have hx : 0 < x := lt_of_lt_of_le (zpow_pos (by norm_num) _) h
  have := (Int.zpow_le_iff_le_log (b := 10) (by norm_num) hx).mp h
  rw [clamp, if_neg hx.ne', abs_of_pos hx, if_pos (by omega)]

/-- Numbers too small. -/
theorem clamp_underflow (hx : 0 < x) (h : x < (10 : ℚ) ^ (-MAX_EXPONENT)) : clamp x = some 0 := by
  have := (Int.lt_zpow_iff_log_lt (b := 10) (by norm_num) hx).mp h
  have hneg : -MAX_EXPONENT < MAX_EXPONENT := by decide
  rw [clamp, if_neg hx.ne', abs_of_pos hx, if_neg (by omega), if_pos this]

/-- Numbers within range. -/
theorem clamp_of_range (h : (10 : ℚ) ^ (-MAX_EXPONENT) ≤ x)
    (h' : x < (10 : ℚ) ^ (MAX_EXPONENT + 1)) : clamp x = some x := by
  have hx : 0 < x := lt_of_lt_of_le (zpow_pos (by norm_num) _) h
  have h₁ := (Int.zpow_le_iff_le_log (b := 10) (by norm_num) hx).mp h
  have h₂ := (Int.lt_zpow_iff_log_lt (b := 10) (by norm_num) hx).mp h'
  rw [clamp, if_neg hx.ne', abs_of_pos hx, if_neg (by omega), if_neg (by omega)]

/-- Integers of at most twenty digits are within range. -/
theorem clamp_intCast {n : Int} (h : |n| < 10 ^ PRECISION) : clamp (n : ℚ) = some (n : ℚ) := by
  by_cases hn : n = 0
  · subst hn
    rfl
  have hpos : (0 : ℚ) < |(n : ℚ)| := abs_pos.mpr (Int.cast_ne_zero.mpr hn)
  have h₁ : Int.log 10 |(n : ℚ)| < (PRECISION : Int) := by
    rw [← Int.lt_zpow_iff_log_lt (b := 10) (by norm_num) hpos, zpow_natCast]
    exact_mod_cast h
  have h₂ : 0 ≤ Int.log 10 |(n : ℚ)| := by
    rw [← Int.zpow_le_iff_le_log (b := 10) (by norm_num) hpos, zpow_zero]
    exact_mod_cast Int.one_le_abs hn
  have h₃ : (PRECISION : Int) ≤ MAX_EXPONENT := by decide
  rw [clamp, if_neg (Int.cast_ne_zero.mpr hn), if_neg (by omega), if_neg (by omega)]

/-- A number within range, where one too small is read as zero. -/
def flush (x : ℚ) : ℚ := if x < 10 ^ (-MAX_EXPONENT) then 0 else x

/-- A number that is not too large is itself, or zero if it is too small. -/
theorem clamp_of_lt (h₀ : 0 ≤ x) (h : x < 10 ^ (MAX_EXPONENT + 1)) : clamp x = some (flush x) := by
  rw [flush]
  split
  · next hsmall =>
    rcases h₀.eq_or_lt with rfl | hx
    · exact clamp_zero
    · exact clamp_underflow hx hsmall
  · next hlarge => exact clamp_of_range (not_lt.mp hlarge) h

theorem flush_nonneg (h : 0 ≤ x) : 0 ≤ flush x := by
  rw [flush]
  split
  · exact le_refl 0
  · exact h

/-- Rounding to zero what is too small keeps the order. -/
theorem flush_mono (h : 0 ≤ x) (hxy : x ≤ y) : flush x ≤ flush y := by
  by_cases hx : x < 10 ^ (-MAX_EXPONENT)
  · rw [flush, if_pos hx]
    exact flush_nonneg (h.trans hxy)
  · rw [flush, flush, if_neg hx, if_neg fun hy => hx (lt_of_le_of_lt hxy hy)]
    exact hxy

/-- A number of any sign that is not too large goes towards zero, if anywhere. -/
theorem clamp_of_abs_lt (h : |x| < 10 ^ (MAX_EXPONENT + 1)) :
    ∃ y, clamp x = some y ∧ |y| ≤ |x| ∧ (0 < y → 0 < x) := by
  by_cases hx : x = 0
  · subst hx
    exact ⟨0, clamp_zero, le_refl _, id⟩
  have hlog := (Int.lt_zpow_iff_log_lt (b := 10) (by norm_num) (abs_pos.mpr hx)).mp h
  rw [clamp, if_neg hx, if_neg (by omega)]
  split
  · exact ⟨0, rfl, by simp, fun h => absurd h (lt_irrefl 0)⟩
  · exact ⟨x, rfl, le_refl _, id⟩

end

/-! ## The laws -/

/-- What is assumed of decimal.js. -/
class LawfulDecimalJs [DecimalJs] : Prop where
  ofText : ∀ {s x}, decimalText? s = some x → ∃ d, ofText? s = some d ∧ value d = clamp x
  ofBigInt : ∀ n : Int, value (DecimalJs.ofBigInt n) = clamp n
  mul : ∀ {a b x y}, value a = some x → value b = some y →
    value (DecimalJs.mul a b) = clamp (roundSig 10 PRECISION (x * y))
  mul_not_finite : ∀ {a b}, value a = none → value (DecimalJs.mul a b) = none
  div : ∀ {a b x y}, value a = some x → value b = some y → y ≠ 0 →
    value (DecimalJs.div a b) = clamp (roundSig 10 PRECISION (x / y))
  pow : ∀ {a} {m k : Nat}, value a = some (m : ℚ) → m ^ k < 10 ^ PRECISION →
    value (DecimalJs.pow a k) = some ((m : ℚ) ^ k)
  toDecimalPlaces : ∀ {a x} (places : Nat) (mode : Rounding), value a = some x →
    value (DecimalJs.toDecimalPlaces a places mode) = clamp (directed places x mode)
  isInteger : ∀ a, DecimalJs.isInteger a = true ↔ ∃ n : Int, value a = some (n : ℚ)
  toFixed : ∀ {a} {n : Int}, value a = some (n : ℚ) → DecimalJs.toFixed a 0 = bigintText n

/-- What is assumed of infinities and `NaN`: no operation makes a number of them. -/
class LawfulInfinity [DecimalJs] : Prop where
  mul : ∀ {a b}, value b = none → value (DecimalJs.mul a b) = none
  div : ∀ {a b}, value a = none → value (DecimalJs.div a b) = none
  toDecimalPlaces : ∀ {a} (places : Nat) (mode : Rounding), value a = none →
    value (DecimalJs.toDecimalPlaces a places mode) = none

/-! ## An executable instance -/

namespace Reference

/-- The fewest decimal places that show all of a terminating number. -/
def places (x : ℚ) : Nat :=
  ((List.range (Nat.log2 x.den + 1)).find? fun k => 10 ^ k % x.den = 0).getD 0

/-- `n / 10 ^ places` in plain notation. -/
def plain (n : Int) (places : Nat) : String :=
  if places = 0 then bigintText n
  else (if n < 0 then "-" else "") ++ bigintText (n.natAbs / 10 ^ places : Nat) ++ "." ++
    String.ofList (padded places (n.natAbs % 10 ^ places))

/-- Exponents from -7 down and from 21 up are written out. -/
def toText : Option ℚ → String
  | none => "NaN"
  | some x =>
    let e := Int.log 10 |x|
    if x = 0 ∨ (-7 < e ∧ e < 21) then plain ⌊x * 10 ^ places x⌋ (places x)
    else
      let c := x / 10 ^ e
      plain ⌊c * 10 ^ places c⌋ (places c) ++ "e" ++ (if 0 ≤ e then "+" else "") ++ bigintText e

/-- decimal.js over the rational numbers. It is a model for decimal texts only, which is what the
API lets through and what the services print: of the other texts that the constructor of decimal.js
takes (`NaN`, `Infinity`, `+5`, `0x10`) it reads none. -/
scoped instance decimalJs : DecimalJs where
  Decimal := Option ℚ
  value := id
  ofText? s := match s.toList with
    | '-' :: cs => (decimalText? (String.ofList cs)).map fun x => clamp (-x)
    | _ => (decimalText? s).map clamp
  ofBigInt n := clamp n
  mul a b := a.bind fun x => b.bind fun y => clamp (roundSig 10 PRECISION (x * y))
  div a b := a.bind fun x => b.bind fun y =>
    if y = 0 then none else clamp (roundSig 10 PRECISION (x / y))
  pow a k := a.bind fun x => clamp (roundSig 10 PRECISION (x ^ k))
  toDecimalPlaces a places mode := a.bind fun x => clamp (directed places x mode)
  isInteger
    | none => false
    | some x => x.den = 1
  toFixed
    | none, _ => "NaN"
    | some x, places => plain (halfUp (x * 10 ^ places)) places
  toText := toText

instance lawful : LawfulDecimalJs where
  ofText {s x} h := by
    refine ⟨clamp x, ?_, rfl⟩
    simp only [DecimalJs.ofText?]
    split
    · next cs hs =>
      rw [decimalText?_of_sign hs] at h
      cases h
    · rw [h]
      rfl
  ofBigInt _ := rfl
  mul {a b x y} ha hb := by
    obtain rfl : a = some x := ha
    obtain rfl : b = some y := hb
    rfl
  mul_not_finite {a b} ha := by
    obtain rfl : a = none := ha
    rfl
  div {a b x y} ha hb hy := by
    obtain rfl : a = some x := ha
    obtain rfl : b = some y := hb
    exact if_neg hy
  pow {a m k} ha hk := by
    obtain rfl : a = some (m : ℚ) := ha
    have hlt : |((m ^ k : Nat) : Int)| < 10 ^ PRECISION := by
      rw [Int.abs_natCast]
      exact_mod_cast hk
    have hround := roundSig_of_digits (K := ℚ) (b := 10) (by norm_num) hlt 0
    have hclamp := clamp_intCast hlt
    push_cast at hround hclamp
    simp only [mul_one] at hround
    change clamp (roundSig 10 PRECISION ((m : ℚ) ^ k)) = _
    rw [hround, hclamp]
  toDecimalPlaces {a x} places mode ha := by
    obtain rfl : a = some x := ha
    rfl
  isInteger a := by
    cases a with
    | none => exact ⟨fun h => (nomatch h), fun ⟨_, h⟩ => (nomatch h)⟩
    | some x =>
      change decide (x.den = 1) = true ↔ ∃ n : Int, some x = some (n : ℚ)
      rw [decide_eq_true_eq]
      rw [Rat.den_eq_one_iff]
      refine ⟨fun h => ⟨x.num, congrArg some h.symm⟩, ?_⟩
      rintro ⟨n, hn⟩
      rw [Option.some.inj hn, Rat.num_intCast]
  toFixed {a n} ha := by
    obtain rfl : a = some (n : ℚ) := ha
    change plain (halfUp ((n : ℚ) * 10 ^ 0)) 0 = _
    rw [pow_zero, mul_one, halfUp_intCast]
    rfl

instance lawfulInfinity : LawfulInfinity where
  mul {a b} hb := by
    obtain rfl : b = none := hb
    cases a with
    | none => rfl
    | some x => rfl
  div {a b} ha := by
    obtain rfl : a = none := ha
    rfl
  toDecimalPlaces {a} places mode ha := by
    obtain rfl : a = none := ha
    rfl

end Reference

end MiniOpenFX
