import Mathlib.Data.Int.Log
import Mathlib.Data.Rat.Floor
import Mathlib.Tactic.Linarith
import Mathlib.Tactic.FieldSimp
import Mathlib.Tactic.LinearCombination
import Mathlib.Tactic.Ring
import Mathlib.Tactic.Positivity

/-!
# Rounding to significant digits

Rounding half away from zero to `p` significant digits in base `b` (`roundSig`), over any ordered
field with a floor. The distance between neighbours at `x` is `ulp b p x`. Rounding leaves numbers
of at most `p` digits alone (`roundSig_of_digits`) and commutes with powers of the base
(`roundSig_mul_zpow`). What it does to the integers around `x` depends on the fraction of `x` alone
(`exists_roundSig`): whether it keeps the ceiling (`ceil_roundSig_eq_iff`), the floor
(`floor_roundSig_eq_iff`), and whether it makes an integer of `x` (`isInt_roundSig_iff`). It is
monotone (`roundSig_mono`), and the integers around a rounded number are left alone by rounding
(`roundSig_ceil_roundSig`, `roundSig_floor_roundSig`).
-/

namespace Significant

variable {K : Type} [Field K] [LinearOrder K] [IsStrictOrderedRing K] [FloorRing K]

/-- The nearest integer; a tie goes away from zero. -/
def halfUp (x : K) : ℤ := if 0 ≤ x then ⌊x + 1 / 2⌋ else -⌊-x + 1 / 2⌋

/-- The unit of the last of `p` significant digits of `x` in base `b`: a power of the base, by the
length of the number. -/
def ulp (b p : ℕ) (x : K) : K := (b : K) ^ (Int.log b |x| + 1 - p)

/-- `x` rounded to `p` significant digits in base `b`: so many of its last units, to the nearest
integer. -/
def roundSig (b p : ℕ) (x : K) : K := halfUp (x / ulp b p x) * ulp b p x

variable {b p : ℕ} {x : K}

omit [IsStrictOrderedRing K] in
/-- Half up is the usual rounding where the number is not negative. -/
theorem halfUp_of_nonneg (hx : 0 ≤ x) : halfUp x = ⌊x + 1 / 2⌋ := if_pos hx

theorem halfUp_intCast (n : ℤ) : halfUp (n : K) = n := by
  have h : ∀ m : ℤ, ⌊(m : K) + 1 / 2⌋ = m := fun m => by
    rw [Int.floor_eq_iff]
    constructor <;> linarith
  unfold halfUp
  split
  · exact h n
  · have := h (-n)
    push_cast at this
    rw [this, neg_neg]

theorem ulp_pos (hb : 1 < b) (x : K) : 0 < ulp b p x := by
  have : (0 : K) < b := by exact_mod_cast (by omega : 0 < b)
  exact zpow_pos this _

/-! ## Numbers that stay -/

/-- A multiple of the last place stays. -/
theorem roundSig_of_multiple (hb : 1 < b) {k : ℤ} (h : x = k * ulp b p x) :
    roundSig b p x = x := by
  have hu := (ulp_pos (p := p) hb x).ne'
  have : x / ulp b p x = k := by rw [div_eq_iff hu]; exact h
  rw [roundSig, this, halfUp_intCast]
  exact h.symm

/-- Only multiples of the last place stay. -/
theorem roundSig_eq_self_iff (hb : 1 < b) :
    roundSig b p x = x ↔ ∃ k : ℤ, x = k * ulp b p x :=
  ⟨fun h => ⟨_, h.symm⟩, fun ⟨_, h⟩ => roundSig_of_multiple hb h⟩

theorem roundSig_zero : roundSig b p (0 : K) = 0 := by
  simpa [roundSig] using Or.inl (halfUp_intCast (K := K) 0)

/-- Moving the point by `k` places adds `k` to the exponent. -/
theorem log_mul_zpow (hb : 1 < b) (hx : 0 < x) (k : ℤ) :
    Int.log b (x * (b : K) ^ k) = Int.log b x + k := by
  have hb0 : (0 : K) < b := by exact_mod_cast (by omega : 0 < b)
  have hpos : 0 < x * (b : K) ^ k := mul_pos hx (zpow_pos hb0 k)
  apply le_antisymm
  · rw [← Int.lt_add_one_iff, ← Int.lt_zpow_iff_log_lt hb hpos, add_right_comm,
      zpow_add₀ hb0.ne']
    exact mul_lt_mul_of_pos_right (Int.lt_zpow_succ_log_self hb x) (zpow_pos hb0 k)
  · rw [← Int.zpow_le_iff_le_log hb hpos, zpow_add₀ hb0.ne']
    exact mul_le_mul_of_nonneg_right (Int.zpow_log_le_self hb hx) (zpow_pos hb0 k).le

/-- Moving the point moves the unit in the last place with it. -/
theorem ulp_mul_zpow (hb : 1 < b) (hx : x ≠ 0) (k : ℤ) :
    ulp b p (x * (b : K) ^ k) = ulp b p x * (b : K) ^ k := by
  have hb0 : (0 : K) < b := by exact_mod_cast (by omega : 0 < b)
  rw [ulp, abs_mul, abs_of_pos (zpow_pos hb0 k), log_mul_zpow hb (abs_pos.mpr hx), ulp,
    ← zpow_add₀ hb0.ne']
  congr 1
  ring

/-- Rounding does not see powers of the base. -/
theorem roundSig_mul_zpow (hb : 1 < b) (x : K) (k : ℤ) :
    roundSig b p (x * (b : K) ^ k) = roundSig b p x * (b : K) ^ k := by
  have hb0 : (0 : K) < b := by exact_mod_cast (by omega : 0 < b)
  by_cases hx : x = 0
  · rw [hx, zero_mul, roundSig_zero, zero_mul]
  · rw [roundSig, ulp_mul_zpow hb hx, mul_div_mul_right _ _ (zpow_pos hb0 k).ne', roundSig,
      mul_assoc]

/-- Numbers of at most `p` digits stay, wherever their point is. Amounts that fit the precision are
so never rounded. -/
theorem roundSig_of_digits (hb : 1 < b) {k : ℤ} (hk : |k| < (b : ℤ) ^ p) (e : ℤ) :
    roundSig b p ((k : K) * (b : K) ^ e) = k * (b : K) ^ e := by
  have hb0 : (0 : K) < b := by exact_mod_cast (by omega : 0 < b)
  rw [roundSig_mul_zpow hb]
  congr 1
  by_cases hk0 : k = 0
  · rw [hk0, Int.cast_zero, roundSig_zero]
  have hpos : 0 < |(k : K)| := abs_pos.mpr (Int.cast_ne_zero.mpr hk0)
  have hlog : Int.log b |(k : K)| < p := by
    rw [← Int.lt_zpow_iff_log_lt hb hpos, zpow_natCast]
    exact_mod_cast hk
  -- the last place is a whole fraction of one
  obtain ⟨j, hj⟩ : ∃ j : ℕ, (p : ℤ) - 1 - Int.log b |(k : K)| = j :=
    ⟨_, (Int.toNat_of_nonneg (by omega)).symm⟩
  refine roundSig_of_multiple hb (k := k * b ^ j) ?_
  have hexp : Int.log b |(k : K)| + 1 - p = -(j : ℤ) := by omega
  rw [ulp, hexp, zpow_neg, zpow_natCast]
  push_cast
  field_simp

/-! ## Integers around a number -/

/-- Where the last place is a whole fraction of one, rounding goes to one of the places from the
floor to the next integer: to the floor itself where the fraction is less than half a place, and to
the next integer where it lacks no more than half a place. -/
theorem exists_roundSig (hb : 1 < b) (hx : 0 ≤ x) {m : ℕ} (hm : (m : K) * ulp b p x = 1) :
    ∃ j : ℤ, 0 ≤ j ∧ j ≤ m ∧ roundSig b p x = ⌊x⌋ + j * ulp b p x ∧
      (j = 0 ↔ Int.fract x < ulp b p x / 2) ∧ (j = m ↔ 1 - ulp b p x / 2 ≤ Int.fract x) := by
  have hu := ulp_pos (p := p) hb x
  unfold roundSig
  generalize ulp b p x = u at hm hu ⊢
  have hm0 : (0 : K) < m := pos_of_mul_pos_left (hm ▸ one_pos) hu.le
  have hdiv : x / u = ((⌊x⌋ * m : ℤ) : K) + Int.fract x * m := by
    rw [div_eq_iff hu.ne']
    push_cast
    rw [← add_mul, Int.floor_add_fract, mul_assoc, hm, mul_one]
  have hround : halfUp (x / u) = ⌊x⌋ * m + ⌊Int.fract x * m + 1 / 2⌋ := by
    rw [halfUp_of_nonneg (div_nonneg hx hu.le), hdiv, add_assoc, Int.floor_intCast_add]
  have hf₀ := Int.fract_nonneg x
  have hf₁ := Int.fract_lt_one x
  have hle : Int.fract x * m ≤ m := mul_le_of_le_one_left hm0.le hf₁.le
  -- both comparisons, scaled by the number of places
  have hscale : ∀ y : K, Int.fract x < y * u ↔ Int.fract x * m < y := fun y => by
    rw [← mul_lt_mul_iff_of_pos_right hm0, mul_assoc, mul_comm u, hm, mul_one]
  refine ⟨⌊Int.fract x * m + 1 / 2⌋, ?_, ?_, ?_, ?_, ?_⟩
  · exact Int.floor_nonneg.mpr (by positivity)
  · rw [← Int.lt_add_one_iff, Int.floor_lt]
    push_cast
    linarith
  · rw [hround]
    push_cast
    linear_combination (⌊x⌋ : K) * hm
  · have h0 : (0 : ℤ) ≤ ⌊Int.fract x * m + 1 / 2⌋ := Int.floor_nonneg.mpr (by positivity)
    have := hscale (1 / 2)
    rw [show u / 2 = 1 / 2 * u by ring, this]
    constructor
    · intro h
      have := Int.lt_floor_add_one (Int.fract x * m + 1 / 2)
      rw [h] at this
      push_cast at this
      linarith
    · intro h
      rw [Int.floor_eq_iff]
      push_cast
      constructor
      · positivity
      · linarith
  · have := hscale (m - 1 / 2)
    rw [← not_lt, show 1 - u / 2 = (m - 1 / 2) * u by linear_combination -hm, this, not_lt,
      Int.floor_eq_iff]
    push_cast
    constructor
    · rintro ⟨h, -⟩
      linarith
    · intro h
      exact ⟨by linarith, by linarith⟩

/-- Rounding keeps the ceiling of an integer, and of any number it does not round to the floor,
provided that the last place is a fraction of one. -/
theorem ceil_roundSig_eq_iff (hb : 1 < b) (hx : 0 ≤ x) {m : ℕ} (hm : (m : K) * ulp b p x = 1) :
    ⌈roundSig b p x⌉ = ⌈x⌉ ↔ Int.fract x = 0 ∨ ulp b p x / 2 ≤ Int.fract x := by
  obtain ⟨j, hj₀, hjm, hR, hz, -⟩ := exists_roundSig (p := p) hb hx hm
  have hu := ulp_pos (p := p) hb x
  have hju : (j : K) * ulp b p x ≤ 1 := by
    rw [← hm]
    exact mul_le_mul_of_nonneg_right (by exact_mod_cast hjm) hu.le
  have hx' := Int.floor_add_fract x
  rcases (Int.fract_nonneg x).eq_or_lt with hf | hf
  · rw [hz.mpr (by rw [← hf]; positivity), Int.cast_zero, zero_mul] at hR
    rw [← hf, add_zero] at hx'
    simp [hR, hx', ← hf]
  · have hceil : ⌈x⌉ = ⌊x⌋ + 1 := by
      rw [Int.ceil_eq_iff]
      push_cast
      constructor
      · linarith
      · linarith [Int.fract_lt_one x]
    rw [hceil, hR, add_comm (⌊x⌋ : K), Int.ceil_add_intCast, or_iff_right hf.ne', ← not_lt, ← hz]
    rcases hj₀.eq_or_lt with rfl | hj
    · simp
    · have hpos : 0 < (j : K) * ulp b p x := mul_pos (by exact_mod_cast hj) hu
      have : ⌈(j : K) * ulp b p x⌉ = 1 := by
        rw [Int.ceil_eq_iff]
        push_cast
        exact ⟨by linarith, hju⟩
      rw [this]
      constructor
      · intro _
        omega
      · intro _
        ring

/-- Rounding keeps the floor unless it carries to the next integer. -/
theorem floor_roundSig_eq_iff (hb : 1 < b) (hx : 0 ≤ x) {m : ℕ} (hm : (m : K) * ulp b p x = 1) :
    ⌊roundSig b p x⌋ = ⌊x⌋ ↔ Int.fract x < 1 - ulp b p x / 2 := by
  obtain ⟨j, hj₀, hjm, hR, -, hz⟩ := exists_roundSig (p := p) hb hx hm
  have hu := ulp_pos (p := p) hb x
  rw [hR, Int.floor_intCast_add, ← not_le, ← hz]
  rcases hjm.eq_or_lt with rfl | hj
  · simp [hm]
  · have hlt : (j : K) * ulp b p x < 1 := by
      rw [← hm]
      exact mul_lt_mul_of_pos_right (by exact_mod_cast hj) hu
    have : ⌊(j : K) * ulp b p x⌋ = 0 := by
      rw [Int.floor_eq_iff, Int.cast_zero]
      exact ⟨mul_nonneg (by exact_mod_cast hj₀) hu.le, by linarith⟩
    rw [this]
    constructor
    · intro _
      exact hj.ne
    · intro _
      exact add_zero _

omit [IsStrictOrderedRing K] in
/-- The last place is a whole number of ones, or a whole fraction of one. In the first case every
rounded number is an integer. -/
theorem ulp_whole_or (hb : 1 < b) (p : ℕ) (x : K) :
    (∃ n : ℕ, 1 ≤ n ∧ ulp b p x = n) ∨ ∃ m : ℕ, (m : K) * ulp b p x = 1 := by
  have hb0 : (b : K) ≠ 0 := by exact_mod_cast (by omega : b ≠ 0)
  obtain ⟨n, hn | hn⟩ := Int.eq_nat_or_neg (Int.log b |x| + 1 - p)
  · refine .inl ⟨b ^ n, Nat.one_le_pow _ _ (by omega), ?_⟩
    rw [ulp, hn, zpow_natCast, Nat.cast_pow]
  · refine .inr ⟨b ^ n, ?_⟩
    rw [ulp, hn, zpow_neg, zpow_natCast, Nat.cast_pow, mul_inv_cancel₀ (pow_ne_zero _ hb0)]

/-- Rounding makes an integer of a number exactly if half a place around it reaches one: a fraction
is lost if it is that near. -/
theorem isInt_roundSig_iff (hb : 1 < b) (hx : 0 ≤ x) :
    (∃ n : ℤ, roundSig b p x = n) ↔
      ¬ (ulp b p x / 2 ≤ Int.fract x ∧ Int.fract x < 1 - ulp b p x / 2) := by
  rcases ulp_whole_or hb p x with ⟨n, hn, hu⟩ | ⟨m, hm⟩
  · have hn : (1 : K) ≤ n := by exact_mod_cast hn
    refine iff_of_true ⟨halfUp (x / ulp b p x) * n, ?_⟩ fun h => ?_
    · rw [roundSig, hu]
      push_cast
      ring
    · rw [hu] at h
      linarith [h.1, h.2]
  · obtain ⟨j, hj₀, hjm, hR, hz, hz'⟩ := exists_roundSig (p := p) hb hx hm
    have hu := ulp_pos (p := p) hb x
    rw [← not_lt, ← hz, ← not_le, ← hz', hR]
    constructor
    · rintro ⟨n, hn⟩ ⟨hj0, hjm'⟩
      -- strictly between two integers
      have h₀ : 0 < (j : K) * ulp b p x := mul_pos (by exact_mod_cast by omega) hu
      have h₁ : (j : K) * ulp b p x < 1 := by
        rw [← hm]
        exact mul_lt_mul_of_pos_right (by exact_mod_cast by omega) hu
      have h₂ : (⌊x⌋ : K) < n := by linarith
      have h₃ : (n : K) < ⌊x⌋ + 1 := by linarith
      norm_cast at h₂ h₃
      omega
    · intro h
      by_cases hj : j = 0
      · exact ⟨⌊x⌋, by simp [hj]⟩
      · obtain rfl : j = m := by
          by_contra hne
          exact h ⟨hj, hne⟩
        refine ⟨⌊x⌋ + 1, ?_⟩
        push_cast
        rw [hm]

/-- Rounding never goes past the next power of the base. -/
theorem roundSig_le_zpow (hb : 1 < b) (hx : 0 < x) :
    roundSig b p x ≤ (b : K) ^ (Int.log b x + 1) := by
  have hb0 : (0 : K) < b := by exact_mod_cast (by omega : 0 < b)
  have hu := ulp_pos (p := p) hb x
  have hux : (b : K) ^ p * ulp b p x = (b : K) ^ (Int.log b x + 1) := by
    rw [ulp, abs_of_pos hx, ← zpow_natCast, ← zpow_add₀ hb0.ne']
    congr 1
    ring
  have hlt : x / ulp b p x < (b : K) ^ p := by
    rw [div_lt_iff₀ hu, hux]
    exact Int.lt_zpow_succ_log_self hb x
  have hle : halfUp (x / ulp b p x) ≤ ((b ^ p : ℕ) : ℤ) := by
    rw [halfUp_of_nonneg (div_nonneg hx.le hu.le), ← Int.lt_add_one_iff, Int.floor_lt]
    push_cast
    linarith
  rw [← hux, roundSig]
  refine mul_le_mul_of_nonneg_right ?_ hu.le
  exact_mod_cast hle

/-- Rounding keeps the leading digit's place, or moves up. -/
theorem zpow_log_le_roundSig (hb : 1 < b) (hp : 1 ≤ p) (hx : 0 < x) :
    (b : K) ^ Int.log b x ≤ roundSig b p x := by
  have hb0 : (0 : K) < b := by exact_mod_cast (by omega : 0 < b)
  have hu := ulp_pos (p := p) hb x
  obtain ⟨q, rfl⟩ : ∃ q, p = q + 1 := ⟨p - 1, by omega⟩
  have hux : ((b ^ q : ℕ) : K) * ulp b (q + 1) x = (b : K) ^ Int.log b x := by
    rw [ulp, abs_of_pos hx, Nat.cast_pow, ← zpow_natCast, ← zpow_add₀ hb0.ne']
    congr 1
    push_cast
    ring
  rw [← hux, roundSig, halfUp_of_nonneg (div_nonneg hx.le hu.le)]
  refine mul_le_mul_of_nonneg_right ?_ hu.le
  rw [← Int.cast_natCast, Int.cast_le, Int.le_floor, Int.cast_natCast, ← sub_le_iff_le_add,
    le_div_iff₀ hu, sub_mul, hux]
  have := Int.zpow_log_le_self hb hx
  linarith

/-- The last place of the numbers of a given length. -/
theorem ulp_of_log_eq (hx : 0 < x) {e : ℤ} (h : Int.log b x = e + p - 1) :
    ulp b p x = (b : K) ^ e := by
  rw [ulp, abs_of_pos hx, h]
  congr 1
  ring

omit [FloorRing K] in
/-- Where the numbers of `p` digits that end at `e` begin. -/
theorem digits_lower (hb : 1 < b) (hp : 1 ≤ p) {k : ℕ} (hk : b ^ (p - 1) ≤ k) (e : ℤ) :
    (b : K) ^ (e + p - 1) ≤ k * (b : K) ^ e := by
  have hb0 : (0 : K) < b := by exact_mod_cast (by omega : 0 < b)
  have hk : ((b ^ (p - 1) : ℕ) : K) ≤ k := by exact_mod_cast hk
  calc (b : K) ^ (e + p - 1) = ((b ^ (p - 1) : ℕ) : K) * (b : K) ^ e := by
        rw [Nat.cast_pow, ← zpow_natCast, ← zpow_add₀ hb0.ne']
        congr 1
        omega
    _ ≤ k * (b : K) ^ e := mul_le_mul_of_nonneg_right hk (zpow_pos hb0 e).le

omit [FloorRing K] in
/-- Where the numbers of `p` digits that end at `e` are over. -/
theorem digits_upper (hb : 1 < b) {k : ℕ} (hk : k ≤ b ^ p) (e : ℤ) :
    k * (b : K) ^ e ≤ (b : K) ^ (e + p) := by
  have hb0 : (0 : K) < b := by exact_mod_cast (by omega : 0 < b)
  have hk : (k : K) ≤ ((b ^ p : ℕ) : K) := by exact_mod_cast hk
  calc k * (b : K) ^ e ≤ ((b ^ p : ℕ) : K) * (b : K) ^ e :=
        mul_le_mul_of_nonneg_right hk (zpow_pos hb0 e).le
    _ = (b : K) ^ (e + p) := by rw [add_comm, zpow_add₀ hb0.ne', zpow_natCast, Nat.cast_pow]

/-- Rounding reaches a number of `p` digits, other than the least of its length, from half a unit
of its last digit below it on. -/
theorem le_roundSig_iff (hb : 1 < b) (hp : 1 ≤ p) (hx : 0 < x) {k : ℕ} (hk : b ^ (p - 1) < k)
    (hk' : k ≤ b ^ p) (e : ℤ) :
    k * (b : K) ^ e ≤ roundSig b p x ↔ k * (b : K) ^ e - (b : K) ^ e / 2 ≤ x := by
  have hb0 : (0 : K) < b := by exact_mod_cast (by omega : 0 < b)
  have hb1 : (1 : K) ≤ b := by exact_mod_cast hb.le
  have he : (0 : K) < (b : K) ^ e := zpow_pos hb0 e
  rcases lt_trichotomy (Int.log b x) (e + p - 1) with hlog | hlog | hlog
  · -- below its length, both miss it
    obtain ⟨m, rfl⟩ : ∃ m, k = m + 1 := ⟨k - 1, by omega⟩
    have hlow := digits_lower (K := K) hb hp (Nat.le_of_lt_succ hk) e
    have hpow : (b : K) ^ (Int.log b x + 1) ≤ (b : K) ^ (e + p - 1) :=
      zpow_le_zpow_right₀ hb1 (by omega)
    have hR := roundSig_le_zpow (p := p) hb hx
    have hx' := Int.lt_zpow_succ_log_self hb x
    rw [Nat.cast_succ, add_one_mul]
    exact iff_of_false (by linarith) (by linarith)
  · rw [roundSig, ulp_of_log_eq hx hlog, halfUp_of_nonneg (div_nonneg hx.le he.le),
      mul_le_mul_iff_left₀ he, ← Int.cast_natCast, Int.cast_le, Int.le_floor, Int.cast_natCast,
      ← sub_le_iff_le_add, le_div_iff₀ he, sub_mul, one_div_mul_eq_div]
  · have hhigh := digits_upper (K := K) hb hk' e
    have hpow : (b : K) ^ (e + p) ≤ (b : K) ^ Int.log b x := zpow_le_zpow_right₀ hb1 (by omega)
    have hR := zpow_log_le_roundSig hb hp hx
    have hx' := Int.zpow_log_le_self hb hx
    exact iff_of_true (by linarith) (by linarith)

/-- Rounding stays at a number of `p` digits up to half a unit of its last digit above it. -/
theorem roundSig_le_iff (hb : 1 < b) (hp : 1 ≤ p) (hx : 0 < x) {k : ℕ} (hk : b ^ (p - 1) ≤ k)
    (hk' : k < b ^ p) (e : ℤ) :
    roundSig b p x ≤ k * (b : K) ^ e ↔ x < k * (b : K) ^ e + (b : K) ^ e / 2 := by
  have hb0 : (0 : K) < b := by exact_mod_cast (by omega : 0 < b)
  have hb1 : (1 : K) ≤ b := by exact_mod_cast hb.le
  have he : (0 : K) < (b : K) ^ e := zpow_pos hb0 e
  rcases lt_trichotomy (Int.log b x) (e + p - 1) with hlog | hlog | hlog
  · have hlow := digits_lower (K := K) hb hp hk e
    have hpow : (b : K) ^ (Int.log b x + 1) ≤ (b : K) ^ (e + p - 1) :=
      zpow_le_zpow_right₀ hb1 (by omega)
    have hR := roundSig_le_zpow (p := p) hb hx
    have hx' := Int.lt_zpow_succ_log_self hb x
    exact iff_of_true (by linarith) (by linarith)
  · rw [roundSig, ulp_of_log_eq hx hlog, halfUp_of_nonneg (div_nonneg hx.le he.le),
      mul_le_mul_iff_left₀ he, ← Int.cast_natCast (R := K) k, Int.cast_le, ← Int.lt_add_one_iff,
      Int.floor_lt, ← lt_sub_iff_add_lt, div_lt_iff₀ he]
    push_cast
    constructor <;> intro h <;> linarith
  · -- above its length, both pass it
    have hhigh := digits_upper (K := K) (k := k + 1) hb hk' e
    have hpow : (b : K) ^ (e + p) ≤ (b : K) ^ Int.log b x := zpow_le_zpow_right₀ hb1 (by omega)
    have hR := zpow_log_le_roundSig hb hp hx
    have hx' := Int.zpow_log_le_self hb hx
    rw [Nat.cast_succ, add_one_mul] at hhigh
    exact iff_of_false (by linarith) (by linarith)

/-- Rounding reaches a power of the base from half a place of the numbers below it on. It says
where a rounded number leaves a range. -/
theorem pow_le_roundSig_iff (hb : 1 < b) (hp : 1 ≤ p) (hx : 0 < x) (k : ℤ) :
    (b : K) ^ k ≤ roundSig b p x ↔ (b : K) ^ k - (b : K) ^ (k - p) / 2 ≤ x := by
  have hb0 : (b : K) ≠ 0 := by exact_mod_cast (by omega : b ≠ 0)
  have hpow : ((b ^ p : ℕ) : K) * (b : K) ^ (k - p) = (b : K) ^ k := by
    rw [Nat.cast_pow, ← zpow_natCast, ← zpow_add₀ hb0]
    congr 1
    ring
  have := le_roundSig_iff hb hp hx (Nat.pow_lt_pow_right hb (by omega : p - 1 < p)) (le_refl _)
    (k - p)
  rwa [hpow] at this

/-! ## Order -/

/-- Rounding half up keeps the order of numbers that are not negative. -/
theorem halfUp_mono_of_nonneg {x y : K} (hx : 0 ≤ x) (h : x ≤ y) : halfUp x ≤ halfUp y := by
  rw [halfUp_of_nonneg hx, halfUp_of_nonneg (hx.trans h)]
  exact Int.floor_le_floor (by linarith)

theorem roundSig_nonneg (hb : 1 < b) (hx : 0 ≤ x) : 0 ≤ roundSig b p x := by
  have hu := ulp_pos (p := p) hb x
  have : 0 ≤ halfUp (x / ulp b p x) := by
    rw [halfUp_of_nonneg (div_nonneg hx hu.le)]
    have := div_nonneg hx hu.le
    positivity
  exact mul_nonneg (by exact_mod_cast this) hu.le

/-- Rounding is monotone, also where the last place changes: the power of the base between the two
numbers separates what they are rounded to. -/
theorem roundSig_mono (hb : 1 < b) (hp : 1 ≤ p) {x y : K} (hx : 0 ≤ x) (h : x ≤ y) :
    roundSig b p x ≤ roundSig b p y := by
  rcases hx.eq_or_lt with rfl | hx
  · rw [roundSig_zero]
    exact roundSig_nonneg hb h
  have hy := hx.trans_le h
  have hb1 : (1 : K) < b := by exact_mod_cast hb
  rcases (Int.log_mono_right (b := b) hx h).eq_or_lt with hlog | hlog
  · have hu : ulp b p x = ulp b p y := by rw [ulp, ulp, abs_of_pos hx, abs_of_pos hy, hlog]
    have hpos := ulp_pos (p := p) hb y
    rw [roundSig, roundSig, hu]
    refine mul_le_mul_of_nonneg_right ?_ hpos.le
    exact_mod_cast halfUp_mono_of_nonneg (div_nonneg hx.le hpos.le)
      (div_le_div_of_nonneg_right h hpos.le)
  · calc roundSig b p x ≤ (b : K) ^ (Int.log b x + 1) := roundSig_le_zpow hb hx
      _ ≤ (b : K) ^ Int.log b y := zpow_le_zpow_right₀ hb1.le (by omega)
      _ ≤ roundSig b p y := zpow_log_le_roundSig hb hp hy

/-- A rounded number has at most `p` digits, so rounding it once more changes nothing. -/
theorem roundSig_roundSig (hb : 1 < b) (hp : 1 ≤ p) (hx : 0 ≤ x) :
    roundSig b p (roundSig b p x) = roundSig b p x := by
  rcases hx.eq_or_lt with rfl | hx
  · rw [roundSig_zero, roundSig_zero]
  have hb0 : (0 : K) < b := by exact_mod_cast (by omega : 0 < b)
  rcases (roundSig_le_zpow (p := p) hb hx).eq_or_lt with heq | hlt
  · have := roundSig_of_digits (K := K) (p := p) hb (k := 1) (by
      rw [abs_one]
      exact one_lt_pow₀ (by exact_mod_cast hb) (by omega)) (Int.log b x + 1)
    rw [Int.cast_one, one_mul] at this
    rw [heq, this]
  · have hlow := zpow_log_le_roundSig hb hp hx
    have hpos := (zpow_pos hb0 _).trans_le hlow
    have hlog : Int.log b (roundSig b p x) = Int.log b x :=
      le_antisymm (Int.lt_add_one_iff.mp ((Int.lt_zpow_iff_log_lt hb hpos).mp hlt))
        ((Int.zpow_le_iff_le_log hb hpos).mp hlow)
    have hu : ulp b p (roundSig b p x) = ulp b p x := by
      rw [ulp, ulp, abs_of_pos hpos, abs_of_pos hx, hlog]
    refine roundSig_of_multiple hb (k := halfUp (x / ulp b p x)) ?_
    rw [hu]
    rfl

/-- Rounding half up is symmetric: it goes away from zero on both sides. -/
theorem halfUp_neg (x : K) : halfUp (-x) = -halfUp x := by
  rcases lt_trichotomy x 0 with hx | rfl | hx
  · rw [halfUp, halfUp, if_pos (by linarith), if_neg (not_le.mpr hx), neg_neg]
  · rw [neg_zero, ← Int.cast_zero, halfUp_intCast, neg_zero]
  · rw [halfUp, halfUp, if_neg (by linarith), if_pos hx.le, neg_neg]

theorem roundSig_neg (x : K) : roundSig b p (-x) = -roundSig b p x := by
  have hu : ulp b p (-x) = ulp b p x := by rw [ulp, ulp, abs_neg]
  rw [roundSig, roundSig, hu, neg_div, halfUp_neg, Int.cast_neg, neg_mul]

/-- Rounding works on the magnitude. -/
theorem abs_roundSig (hb : 1 < b) (x : K) : |roundSig b p x| = roundSig b p |x| := by
  rcases le_total 0 x with hx | hx
  · rw [abs_of_nonneg hx, abs_of_nonneg (roundSig_nonneg hb hx)]
  · have hround := roundSig_nonneg (p := p) hb (neg_nonneg.mpr hx)
    rw [abs_of_nonpos hx, ← abs_of_nonneg hround, roundSig_neg, abs_neg]

/-- Only positive numbers are rounded to positive ones. -/
theorem pos_of_roundSig_pos (hb : 1 < b) (h : 0 < roundSig b p x) : 0 < x := by
  by_contra hx
  have hround := roundSig_nonneg (p := p) hb (neg_nonneg.mpr (not_lt.mp hx))
  rw [roundSig_neg] at hround
  linarith

/-- A rounded number is whole, or small enough for the integers around it to have at most `p`
digits. -/
theorem roundSig_isInt_or_lt (hb : 1 < b) (hx : 0 ≤ x) :
    (∃ n : ℤ, roundSig b p x = n) ∨ roundSig b p x ≤ (b : K) ^ (p - 1 : ℤ) := by
  have hb1 : (1 : K) < b := by exact_mod_cast hb
  rcases ulp_whole_or hb p x with ⟨n, hn, hu⟩ | ⟨m, hm⟩
  · refine .inl ⟨halfUp (x / ulp b p x) * n, ?_⟩
    rw [roundSig, hu]
    push_cast
    ring
  · rcases hx.eq_or_lt with rfl | hx
    · exact .inl ⟨0, by rw [roundSig_zero, Int.cast_zero]⟩
    rcases lt_or_ge (Int.log b x + 1 - (p : ℤ)) 0 with hlt | hge
    · exact .inr ((roundSig_le_zpow hb hx).trans (zpow_le_zpow_right₀ hb1.le (by omega)))
    · obtain ⟨k, hk⟩ := Int.eq_ofNat_of_zero_le hge
      refine .inl ⟨halfUp (x / ulp b p x) * b ^ k, ?_⟩
      have hu : ulp b p x = (b : K) ^ k := by rw [ulp, abs_of_pos hx, hk]; exact zpow_natCast _ _
      rw [roundSig, hu]
      push_cast
      rfl

section
variable {n : ℤ}

/-- Rounding leaves an integer next to a rounded number alone. -/
theorem roundSig_of_isInt_or_lt (hb : 1 < b) (hp : 1 ≤ p) (hx : 0 ≤ x)
    (hn : (∃ m : ℤ, roundSig b p x = m) → roundSig b p x = n) (hn₀ : 0 ≤ n)
    (hle : roundSig b p x ≤ (b : K) ^ (p - 1 : ℤ) → (n : K) ≤ (b : K) ^ (p - 1 : ℤ)) :
    roundSig b p (n : K) = n := by
  rcases roundSig_isInt_or_lt (p := p) hb hx with hint | hlt
  · rw [← hn hint]
    exact roundSig_roundSig hb hp hx
  · have hlt : |n| < (b : ℤ) ^ p := by
      have h₁ := hle hlt
      rw [show (p : ℤ) - 1 = ((p - 1 : ℕ) : ℤ) by omega, zpow_natCast] at h₁
      rw [abs_of_nonneg hn₀]
      have h₂ : n ≤ (b : ℤ) ^ (p - 1) := by exact_mod_cast h₁
      exact h₂.trans_lt (pow_lt_pow_right₀ (by exact_mod_cast hb) (by omega))
    have := roundSig_of_digits (K := K) hb hlt 0
    rwa [zpow_zero, mul_one] at this

/-- The next integer above a rounded number has no more significant digits than that, so that
rounding it again does not change it. -/
theorem roundSig_ceil_roundSig (hb : 1 < b) (hp : 1 ≤ p) (hx : 0 ≤ x) :
    roundSig b p (⌈roundSig b p x⌉ : K) = ⌈roundSig b p x⌉ := by
  refine roundSig_of_isInt_or_lt hb hp hx ?_ (Int.ceil_nonneg (roundSig_nonneg hb hx)) fun h => ?_
  · rintro ⟨m, hm⟩
    rw [hm, Int.ceil_intCast]
  · rw [show (p : ℤ) - 1 = ((p - 1 : ℕ) : ℤ) by omega, zpow_natCast] at h ⊢
    have : ⌈roundSig b p x⌉ ≤ (b : ℤ) ^ (p - 1) := Int.ceil_le.mpr (by push_cast; exact h)
    exact_mod_cast this

/-- The next integer below a rounded number has no more significant digits than that, so that
rounding it again does not change it. -/
theorem roundSig_floor_roundSig (hb : 1 < b) (hp : 1 ≤ p) (hx : 0 ≤ x) :
    roundSig b p (⌊roundSig b p x⌋ : K) = ⌊roundSig b p x⌋ := by
  refine roundSig_of_isInt_or_lt hb hp hx ?_ (Int.floor_nonneg.mpr (roundSig_nonneg hb hx))
    fun h => (Int.floor_le _).trans h
  rintro ⟨m, hm⟩
  rw [hm, Int.floor_intCast]

end

end Significant
