import MiniOpenFX.Domain.Decimal
import Mathlib.Algebra.Order.Field.Power
import Mathlib.Data.List.TakeWhile
import Mathlib.Data.Nat.Prime.Basic
import Mathlib.Tactic.NormNum.Prime

/-!
# Decimal notation

decimal.js writes a number in plain notation, and from exponent 21 up and from -7 down with an
exponent (`Reference.toText`). Either text is read as the number it was written for
(`decimalText?_toText`). `LawfulDecimalText` is what is assumed of the texts of decimal.js.
-/

namespace MiniOpenFX

open Js DecimalJs
open Reference (places plain)

/-! ## Finite decimals -/

/-- A number with finitely many decimal places. -/
def FiniteDecimal (x : ℚ) : Prop := ∃ n e : ℤ, x = n * 10 ^ e

section
variable {x : ℚ}

theorem FiniteDecimal.mul_zpow (h : FiniteDecimal x) (k : ℤ) : FiniteDecimal (x * 10 ^ k) := by
  obtain ⟨n, e, rfl⟩ := h
  exact ⟨n, e + k, by rw [mul_assoc, ← zpow_add₀ (by norm_num)]⟩

/-- The denominator of a finite decimal divides a power of ten. -/
theorem FiniteDecimal.den_dvd (h : FiniteDecimal x) : ∃ k : ℕ, x.den ∣ 10 ^ k := by
  obtain ⟨n, e, rfl⟩ := h
  obtain ⟨k, rfl | rfl⟩ := e.eq_nat_or_neg
  · have hint : (n : ℚ) * 10 ^ (k : ℤ) = ((n * 10 ^ k : ℤ) : ℚ) := by
      push_cast
      rw [zpow_natCast]
    exact ⟨0, by rw [hint, Rat.den_intCast]; exact one_dvd _⟩
  · have hdiv : (n : ℚ) * 10 ^ (-(k : ℤ)) = Rat.divInt n ((10 ^ k : ℕ) : ℤ) := by
      rw [zpow_neg, zpow_natCast, ← div_eq_mul_inv, Rat.divInt_eq_div]
      push_cast
      rfl
    refine ⟨k, ?_⟩
    rw [hdiv]
    exact_mod_cast Rat.den_dvd n ((10 ^ k : ℕ) : ℤ)

/-- What divides a power of ten divides one with no more digits than it has bits. -/
theorem exists_le_log2_dvd {d k : ℕ} (h : d ∣ 10 ^ k) : ∃ j ≤ Nat.log2 d, d ∣ 10 ^ j := by
  rw [show 10 = 2 * 5 from rfl, Nat.mul_pow, Nat.dvd_mul] at h
  obtain ⟨u, v, hu, hv, rfl⟩ := h
  obtain ⟨a, -, rfl⟩ := (Nat.dvd_prime_pow Nat.prime_two).mp hu
  obtain ⟨b, -, rfl⟩ := (Nat.dvd_prime_pow Nat.prime_five).mp hv
  have hne : 2 ^ a * 5 ^ b ≠ 0 := by positivity
  refine ⟨a + b, (Nat.le_log2 hne).mpr ?_, ?_⟩
  · rw [pow_add]
    exact Nat.mul_le_mul_left _ (Nat.pow_le_pow_left (by decide) b)
  · rw [show 10 = 2 * 5 from rfl, Nat.mul_pow]
    exact mul_dvd_mul (pow_dvd_pow 2 (Nat.le_add_right a b)) (pow_dvd_pow 5 (Nat.le_add_left b a))

/-- `places` are places enough: with so many digits after the point a finite decimal is written
exactly. -/
theorem FiniteDecimal.den_dvd_places (h : FiniteDecimal x) : x.den ∣ 10 ^ places x := by
  obtain ⟨k, hk⟩ := h.den_dvd
  obtain ⟨j, hj, hdvd⟩ := exists_le_log2_dvd hk
  unfold places
  cases hfind : (List.range (Nat.log2 x.den + 1)).find? fun k => 10 ^ k % x.den = 0 with
  | none =>
    have := List.find?_eq_none.mp hfind j (List.mem_range.mpr (by omega))
    exact absurd (Nat.mod_eq_zero_of_dvd hdvd) (by simpa using this)
  | some i =>
    have := List.find?_some hfind
    exact Nat.dvd_of_mod_eq_zero (by simpa using this)

/-- All of its digits are before the places shown. -/
theorem FiniteDecimal.floor_mul_places (h : FiniteDecimal x) :
    (⌊x * 10 ^ places x⌋ : ℚ) = x * 10 ^ places x := by
  obtain ⟨c, hc⟩ := h.den_dvd_places
  have hint : x * 10 ^ places x = ((x.num * c : ℤ) : ℚ) := by
    have hpow : (10 : ℚ) ^ places x = x.den * c := by exact_mod_cast hc
    rw [hpow, ← mul_assoc, Rat.mul_den_eq_num]
    push_cast
    rfl
  rw [hint, Int.floor_intCast]

end

/-! ## Plain notation -/

theorem bigintText_natCast (n : Nat) : (bigintText n).toList = Nat.toDigits 10 n :=
  String.toList_ofList

/-- The characters of `n / 10 ^ k`. -/
theorem toList_plain (n k : Nat) : (plain n k).toList =
    Nat.toDigits 10 (n / 10 ^ k) ++ if k = 0 then [] else '.' :: padded k (n % 10 ^ k) := by
  unfold plain
  split
  · next hk => simp [hk, bigintText_natCast]
  · next hk =>
    have hneg : ¬ ((n : Int) < 0) := by omega
    simp only [hneg, if_false, String.toList_append, Int.natAbs_natCast, bigintText_natCast,
      String.toList_ofList]
    simp

theorem isDigit_of_mem_toDigits {n : Nat} {c : Char} (h : c ∈ Nat.toDigits 10 n) :
    c.isDigit = true := Nat.isDigit_of_mem_toDigits (by decide) (by decide) h

/-- Leading digits are told from what follows them by its first character. -/
theorem takeWhile_isDigit {ds : List Char} (hds : ∀ c ∈ ds, c.isDigit = true) (rest : List Char)
    (hrest : ∀ c ∈ rest.head?, c.isDigit = false) :
    (ds ++ rest).takeWhile Char.isDigit = ds ∧ (ds ++ rest).dropWhile Char.isDigit = rest := by
  rw [List.takeWhile_append_of_pos hds, List.dropWhile_append_of_pos hds]
  cases rest with
  | nil => simp
  | cons c cs => simp [hrest c rfl]

/-- The digits of a number, split anywhere, are the number. -/
theorem ofDigitChars_split (n k : Nat) :
    Nat.ofDigitChars 10 (Nat.toDigits 10 (n / 10 ^ k) ++ padded k (n % 10 ^ k)) 0 = n := by
  rw [Nat.ofDigitChars_append, Nat.ofDigitChars_ten_toDigits, Nat.ofDigitChars_eq_ofDigitChars_zero,
    padded_length, ofDigitChars_padded _ _ (Nat.mod_lt n (by positivity))]
  exact Nat.div_add_mod n (10 ^ k)

/-- Plain notation, with or without an exponent after it, is read back. -/
theorem decimalText?_plain (n k : Nat) {s : String} {rest : List Char}
    (hs : s.toList = (plain n k).toList ++ rest)
    (hrest : ∀ c ∈ rest.head?, c.isDigit = false ∧ c ≠ '.') :
    decimalText? s = (exponent? rest).map fun e : Int => (n : ℚ) * 10 ^ (e - (k : Int)) := by
  have hne : Nat.toDigits 10 (n / 10 ^ k) ≠ [] := Nat.toDigits_ne_nil
  have hdigits : ∀ c ∈ Nat.toDigits 10 (n / 10 ^ k), c.isDigit = true := fun c =>
    isDigit_of_mem_toDigits
  have hsplit := ofDigitChars_split n k
  rw [toList_plain, List.append_assoc] at hs
  unfold decimalText?
  rw [hs]
  by_cases hk : k = 0
  · obtain ⟨h₁, h₂⟩ := takeWhile_isDigit hdigits rest fun c hc => (hrest c hc).1
    subst hk
    simp only [if_true, List.nil_append, h₁, h₂]
    split
    · next cs => exact absurd rfl (hrest '.' rfl).2
    · simp
  · obtain ⟨h₁, h₂⟩ := takeWhile_isDigit hdigits ('.' :: padded k (n % 10 ^ k) ++ rest)
      fun c hc => by cases hc; rfl
    obtain ⟨h₃, h₄⟩ := takeWhile_isDigit (padded_isDigit k (n % 10 ^ k)) rest
      fun c hc => (hrest c hc).1
    simp only [hk, if_false, h₁, h₂]
    simp only [List.cons_append, h₃, h₄]
    simp [hne, hsplit]

/-! ## With an exponent -/

/-- The text of a negative integer is a sign and the digits of its absolute value. -/
theorem toList_bigintText_of_neg {e : ℤ} (he : e < 0) :
    (bigintText e).toList = '-' :: Nat.toDigits 10 e.natAbs := by
  cases e with
  | ofNat n => exact absurd he (by simp)
  | negSucc n => exact String.toList_ofList

/-- The exponent that is written is read back. -/
theorem exponent?_text (e : ℤ) :
    exponent? ('e' :: ((if 0 ≤ e then "+" else "").toList ++ (bigintText e).toList)) = some e := by
  rcases lt_or_ge e 0 with he | he
  · rw [if_neg (not_le.mpr he), toList_bigintText_of_neg he]
    change (digits? _).map (fun n : Nat => -(n : Int)) = some e
    rw [digits?_toDigits, Option.map_some, Int.ofNat_natAbs_of_nonpos he.le, neg_neg]
  · obtain ⟨n, rfl⟩ := Int.eq_ofNat_of_zero_le he
    rw [if_pos he, bigintText_natCast]
    change (digits? (Nat.toDigits 10 n)).map (fun n : Nat => (n : Int)) = some (n : Int)
    rw [digits?_toDigits, Option.map_some]

section
variable {x : ℚ}

/-- A finite decimal that is not negative, in plain notation. -/
theorem FiniteDecimal.plain_eq (h : FiniteDecimal x) (hx : 0 ≤ x) :
    ∃ n : Nat, ⌊x * 10 ^ places x⌋ = n ∧ (n : ℚ) * 10 ^ (-(places x : ℤ)) = x := by
  have hnonneg : 0 ≤ ⌊x * 10 ^ places x⌋ := Int.floor_nonneg.mpr (by positivity)
  obtain ⟨n, hn⟩ := Int.eq_ofNat_of_zero_le hnonneg
  refine ⟨n, hn, ?_⟩
  have hfloor := h.floor_mul_places
  rw [hn, Int.cast_natCast] at hfloor
  rw [hfloor, zpow_neg, zpow_natCast, mul_assoc, mul_inv_cancel₀ (by positivity), mul_one]

/-- **What is written is read back**, in either notation. -/
theorem decimalText?_toText (h : FiniteDecimal x) (hx : 0 ≤ x) :
    decimalText? (Reference.toText (some x)) = some x := by
  simp only [Reference.toText]
  split
  · obtain ⟨n, hn, hvalue⟩ := h.plain_eq hx
    rw [hn, decimalText?_plain n (places x) (List.append_nil _).symm (by simp), exponent?,
      Option.map_some, zero_sub, hvalue]
  · set e := Int.log 10 |x|
    obtain ⟨n, hn, hvalue⟩ := (h.mul_zpow (-e)).plain_eq (mul_nonneg hx (by positivity))
    have hscale : x / 10 ^ e = x * 10 ^ (-e) := by rw [zpow_neg, div_eq_mul_inv]
    have htext := decimalText?_plain n (places (x * 10 ^ (-e)))
      (show (plain n (places (x * 10 ^ (-e))) ++ "e" ++ (if 0 ≤ e then "+" else "") ++
        bigintText e).toList = _ ++ 'e' :: ((if 0 ≤ e then "+" else "").toList ++
          (bigintText e).toList) by simp [String.toList_append]) (by simp)
    rw [hscale, hn, htext, exponent?_text, Option.map_some, sub_eq_add_neg,
      add_comm e, zpow_add₀ (by norm_num), ← mul_assoc, hvalue, mul_assoc,
      ← zpow_add₀ (by norm_num), neg_add_cancel, zpow_zero, mul_one]

end

/-! ## Signs -/

/-- The plain notation of a negative number is a sign and that of its absolute value. -/
theorem plain_neg {n : Nat} (hn : 0 < n) (k : Nat) : plain (-n) k = "-" ++ plain n k := by
  have hneg : (-(n : Int)) < 0 := by omega
  have hpos : ¬ ((n : Int) < 0) := by omega
  rw [plain, plain, if_pos hneg, if_neg hpos]
  split
  · apply String.toList_inj.mp
    rw [toList_bigintText_of_neg hneg, String.toList_append, bigintText_natCast, Int.natAbs_neg,
      Int.natAbs_natCast]
    rfl
  · simp only [Int.natAbs_neg, Int.natAbs_natCast, String.append_assoc, String.empty_append]

/-- The sign does not matter for the places that are needed. -/
theorem places_neg (x : ℚ) : places (-x) = places x := by rw [places, places, Rat.den_neg_eq_den]

/-- The digits shown of a number and of its opposite. -/
theorem FiniteDecimal.floor_neg {x : ℚ} (h : FiniteDecimal x) :
    ⌊-x * 10 ^ places x⌋ = -⌊x * 10 ^ places x⌋ := by
  rw [neg_mul, ← h.floor_mul_places, ← Int.cast_neg, Int.floor_intCast, Int.floor_intCast]

/-- The plain notation of `-x`, with the places that it needs, is a sign and that of `x`. -/
theorem FiniteDecimal.plain_neg {x : ℚ} (h : FiniteDecimal x) (hx : 0 < x) :
    plain ⌊-x * 10 ^ places (-x)⌋ (places (-x)) = "-" ++ plain ⌊x * 10 ^ places x⌋ (places x) := by
  obtain ⟨n, hn, hvalue⟩ := h.plain_eq hx.le
  have hpos : 0 < n := by
    apply Nat.pos_of_ne_zero
    rintro rfl
    simp at hvalue
    exact hx.ne hvalue
  rw [places_neg, h.floor_neg, hn, MiniOpenFX.plain_neg hpos]

/-- `toString` of `-x` is a sign and that of `x`, in either of its notations. -/
theorem toText_neg {x : ℚ} (h : FiniteDecimal x) (hx : 0 < x) :
    Reference.toText (some (-x)) = "-" ++ Reference.toText (some x) := by
  simp only [Reference.toText, abs_neg, neg_eq_zero]
  split
  · exact h.plain_neg hx
  · set e := Int.log 10 |x|
    have hscale : ∀ y : ℚ, y / 10 ^ e = y * 10 ^ (-e) := fun y => by
      rw [zpow_neg, div_eq_mul_inv]
    have := (h.mul_zpow (-e)).plain_neg (mul_pos hx (by positivity))
    rw [hscale, hscale, neg_mul, this]
    simp only [String.append_assoc]

/-! ## The laws -/

/-- What is assumed of the texts of decimal.js: how a number is written, and that the constructor
accepts a sign. -/
class LawfulDecimalText [DecimalJs] : Prop where
  toText : ∀ {a x}, value a = some x → DecimalJs.toText a = Reference.toText (some x)
  ofText_neg : ∀ {s x}, decimalText? s = some x →
    ∃ d, ofText? ("-" ++ s) = some d ∧ value d = clamp (-x)

namespace Reference

instance lawfulDecimalText : LawfulDecimalText where
  toText {a x} ha := by
    obtain rfl : a = some x := ha
    rfl
  ofText_neg {s x} h := by
    refine ⟨clamp (-x), ?_, rfl⟩
    have hs : ("-" ++ s).toList = '-' :: s.toList := String.toList_append
    simp only [DecimalJs.ofText?]
    rw [hs]
    simp only [String.ofList_toList, h, Option.map_some]

end Reference

section
variable [DecimalJs] [LawfulDecimalJs] [LawfulDecimalText] {x : ℚ}

/-- The constructor reads what `toString` writes. -/
theorem ofText?_toText (h : FiniteDecimal x) (hclamp : clamp x = some x) :
    ∃ d, ofText? (Reference.toText (some x)) = some d ∧ value d = some x := by
  rcases le_or_gt 0 x with hx | hx
  · have := LawfulDecimalJs.ofText (decimalText?_toText h hx)
    rwa [hclamp] at this
  · have hneg : FiniteDecimal (-x) := by
      obtain ⟨n, e, rfl⟩ := h
      exact ⟨-n, e, by push_cast; ring⟩
    have := LawfulDecimalText.ofText_neg (decimalText?_toText hneg (by linarith))
    rw [neg_neg, hclamp] at this
    rwa [← toText_neg hneg (by linarith), neg_neg] at this

end

end MiniOpenFX
