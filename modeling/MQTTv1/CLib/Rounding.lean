import Mathlib.Algebra.Order.Field.Basic
import Mathlib.Algebra.Order.Field.Power
import Mathlib.Data.Rat.Cast.Order
import Mathlib.Tactic.FieldSimp
import Mathlib.Tactic.GCongr
import Mathlib.Tactic.Linarith
import Mathlib.Tactic.NormNum
import Mathlib.Tactic.Positivity
import Mathlib.Tactic.Ring
import MQTTv1.CLib.Binary32

/-!
# Rounding errors

The exact numbers behind single precision.  As long as neither overflow nor
underflow is near, a result is off by a factor of at most one part in `2 ^ 24`.
-/

namespace MQTTv1
namespace CLib

/-!
# One rounding
-/

theorem roundHalfEven_bounds {den : Nat} (hden : 0 < den) (num : Nat) :
    2 * (den * roundHalfEven num den) ≤ 2 * num + den ∧
      2 * num ≤ 2 * (den * roundHalfEven num den) + den := by
  have hsplit := Nat.div_add_mod num den
  have hmod := Nat.mod_lt num hden
  unfold roundHalfEven
  split
  · lia
  · rw [Nat.mul_succ]
    lia

theorem roundHalfEven_error {den : Nat} (hden : 0 < den) (num : Nat) :
    |(roundHalfEven num den : ℚ) - num / den| ≤ 1 / 2 := by
  have hden' : (0 : ℚ) < den := Nat.cast_pos.mpr hden
  rcases roundHalfEven_bounds hden num with ⟨hlow, hhigh⟩
  have hlow' : 2 * ((den : ℚ) * roundHalfEven num den) ≤ 2 * num + den := by
    exact_mod_cast hlow
  have hhigh' : 2 * (num : ℚ) ≤ 2 * (den * roundHalfEven num den) + den := by
    exact_mod_cast hhigh
  have hratio : (num : ℚ) = den * (num / den) := by
    field_simp
  rw [hratio] at hlow' hhigh'
  rw [abs_le]
  constructor
  · have h := le_of_mul_le_mul_left
      (show (den : ℚ) * (num / den) ≤ den * (roundHalfEven num den + 1 / 2)
        by linarith) hden'
    linarith
  · have h := le_of_mul_le_mul_left
      (show (den : ℚ) * roundHalfEven num den ≤ den * (num / den + 1 / 2)
        by linarith) hden'
    linarith

/-!
# Significands and exponents
-/

def magnitude (significand : Nat) (exponent : Int) : ℚ :=
  significand * 2 ^ exponent

theorem two_zpow_toNat (e : Int) :
    (2 : ℚ) ^ e * 2 ^ (-e).toNat = 2 ^ e.toNat := by
  rcases e.eq_nat_or_neg with ⟨n, rfl | rfl⟩
  · simp
  · simp

theorem scaleBy_ratio (num : Nat) {den : Nat} (hden : 0 < den)
    (exponent : Int) :
    0 < (scaleBy num den exponent).2 ∧
      ((scaleBy num den exponent).1 : ℚ) / (scaleBy num den exponent).2 =
        num / den / 2 ^ exponent := by
  unfold scaleBy
  have hden' : (den : ℚ) ≠ 0 := Nat.cast_ne_zero.mpr hden.ne'
  have hpow : (2 : ℚ) ^ exponent ≠ 0 := zpow_ne_zero _ two_ne_zero
  have hsplit := two_zpow_toNat exponent
  constructor
  · exact Nat.mul_pos hden (Nat.two_pow_pos _)
  · push_cast
    rw [← hsplit]
    have hpos : (2 : ℚ) ^ (-exponent).toNat ≠ 0 := by positivity
    field_simp

theorem log2_bounds {n : Nat} (hn : 0 < n) :
    (2 : ℚ) ^ (n.log2 : Int) ≤ n ∧ (n : ℚ) < 2 * 2 ^ (n.log2 : Int) := by
  rw [zpow_natCast]
  constructor
  · exact_mod_cast Nat.log2_self_le hn.ne'
  · have h := Nat.lt_log2_self (n := n)
    rw [Nat.pow_succ, Nat.mul_comm] at h
    exact_mod_cast h

theorem low_bounds {num den : Nat} (hnum : 0 < num) (hden : 0 < den) :
    2 ^ 23 * (2 : ℚ) ^ ((num.log2 : Int) - den.log2 - 24) ≤ num / den ∧
      (num : ℚ) / den < 2 ^ 25 * 2 ^ ((num.log2 : Int) - den.log2 - 24) := by
  rcases log2_bounds hnum with ⟨hnumLow, hnumHigh⟩
  rcases log2_bounds hden with ⟨hdenLow, hdenHigh⟩
  have hpos : (0 : ℚ) < 2 ^ (den.log2 : Int) := by positivity
  have hden' : (0 : ℚ) < den := Nat.cast_pos.mpr hden
  rw [zpow_sub₀ two_ne_zero, zpow_sub₀ two_ne_zero]
  constructor
  · rw [le_div_iff₀ hden']
    calc 2 ^ 23 * ((2 : ℚ) ^ (num.log2 : Int) / 2 ^ (den.log2 : Int) /
          2 ^ (24 : Int)) * den
        ≤ 2 ^ 23 * ((2 : ℚ) ^ (num.log2 : Int) / 2 ^ (den.log2 : Int) /
          2 ^ (24 : Int)) * (2 * 2 ^ (den.log2 : Int)) := by gcongr
      _ = 2 ^ (num.log2 : Int) := by
          field_simp
      _ ≤ num := hnumLow
  · rw [div_lt_iff₀ hden']
    calc (num : ℚ) < 2 * 2 ^ (num.log2 : Int) := hnumHigh
      _ = 2 ^ 25 * ((2 : ℚ) ^ (num.log2 : Int) / 2 ^ (den.log2 : Int) /
          2 ^ (24 : Int)) * 2 ^ (den.log2 : Int) := by
          field_simp
      _ ≤ _ := by gcongr

/-- Neither the operands nor the results of a report come near these bounds. -/
structure Moderate (q : ℚ) : Prop where
  low : 2 ^ (-100 : Int) ≤ q
  high : q ≤ 2 ^ (100 : Int)

theorem exponentOf_bounds {num den : Nat} (hnum : 0 < num) (hden : 0 < den)
    (hq : Moderate (num / den)) :
    2 ^ 23 * (2 : ℚ) ^ exponentOf num den ≤ num / den ∧
      (num : ℚ) / den < 2 ^ 24 * 2 ^ exponentOf num den := by
  rcases low_bounds hnum hden with ⟨hlow, hhigh⟩
  unfold exponentOf
  generalize hexp : (num.log2 : Int) - den.log2 - 24 = low at hlow hhigh
  -- the bound of the subnormal numbers is far away
  have hfar : -149 < low := by
    have hlt : (2 : ℚ) ^ (-100 : Int) < 2 ^ (25 + low) := by
      rw [zpow_add₀ two_ne_zero]
      exact lt_of_le_of_lt hq.low hhigh
    have := (zpow_lt_zpow_iff_right₀ one_lt_two).mp hlt
    lia
  rcases scaleBy_ratio num hden low with ⟨hpos, hratio⟩
  have hpow : (0 : ℚ) < 2 ^ low := by positivity
  have hfits : (scaleBy num den low).1 / (scaleBy num den low).2 < 2 ^ 24 <->
      (num : ℚ) / den < 2 ^ 24 * 2 ^ low := by
    have hpos' : (0 : ℚ) < (scaleBy num den low).2 := Nat.cast_pos.mpr hpos
    rw [Nat.div_lt_iff_lt_mul hpos, ← div_lt_iff₀ hpow, ← hratio,
      div_lt_iff₀ hpos']
    exact_mod_cast Iff.rfl
  by_cases hshort : (scaleBy num den low).1 / (scaleBy num den low).2 < 2 ^ 24
  · simp only [if_pos hshort]
    rw [max_eq_right (by lia)]
    exact ⟨hlow, hfits.mp hshort⟩
  · simp only [if_neg hshort]
    rw [max_eq_right (by lia), zpow_add₀ two_ne_zero, zpow_one]
    have hge := le_of_not_gt (mt hfits.mpr hshort)
    constructor
    · linarith
    · linarith

/-!
# Approximations
-/

/-- The relative error of one operation. -/
def ulp : ℚ := 1 / 2 ^ 24

/-- The value is finite and not negative, and it is this number. -/
def Binary32.Is (x : Binary32) (c : ℚ) : Prop :=
  exists (m : Nat) (e : Int), x = .finite false m e ∧ magnitude m e = c

/-- The value is the number but for one rounding. -/
def Binary32.Approximates (x : Binary32) (q : ℚ) : Prop :=
  exists c, x.Is c ∧ |c - q| ≤ q * ulp

theorem Binary32.ofRatio_zero (den : Nat) :
    (ofRatio false 0 den).Approximates 0 := by
  refine ⟨0, ⟨0, 0, rfl, ?_⟩, ?_⟩
  · simp [magnitude]
  · simp

theorem Binary32.ofRatio_approximates {num den : Nat} (hnum : 0 < num)
    (hden : 0 < den) (hq : Moderate (num / den)) :
    (ofRatio false num den).Approximates (num / den) := by
  rcases exponentOf_bounds hnum hden hq with ⟨hlow, hhigh⟩
  generalize hexp : exponentOf num den = e at hlow hhigh
  rcases scaleBy_ratio num hden e with ⟨hpos, hratio⟩
  have hpow : (0 : ℚ) < 2 ^ e := by positivity
  have herror := roundHalfEven_error hpos (scaleBy num den e).1
  rw [hratio] at herror
  generalize hsig : roundHalfEven (scaleBy num den e).1 (scaleBy num den e).2 =
    significand at herror
  rw [abs_le] at herror
  have hbig : significand ≤ 2 ^ 24 := by
    have hlt : (num : ℚ) / den / 2 ^ e < 2 ^ 24 := by
      rw [div_lt_iff₀ hpow]
      exact hhigh
    have hle : (significand : ℚ) < 2 ^ 24 + 1 := by linarith
    exact Nat.lt_succ_iff.mp (by exact_mod_cast hle)
  have hsmall : e.toNat ≤ 77 := by
    have hle : (2 : ℚ) ^ (23 + e) ≤ 2 ^ (100 : Int) := by
      rw [zpow_add₀ two_ne_zero]
      exact le_trans hlow hq.high
    have := (zpow_le_zpow_iff_right₀ one_lt_two).mp hle
    lia
  have hfinite : ¬ 2 ^ 128 ≤ significand * 2 ^ e.toNat := by
    have hle : significand * 2 ^ e.toNat ≤ 2 ^ 24 * 2 ^ 77 :=
      Nat.mul_le_mul hbig (Nat.pow_le_pow_right (by decide) hsmall)
    intro hover
    exact absurd (le_trans hover hle) (by decide)
  refine ⟨magnitude significand e, ⟨significand, e, ?_, rfl⟩, ?_⟩
  · unfold ofRatio
    rw [if_neg hnum.ne', hexp]
    simp only [hsig, if_neg hfinite]
  · have hscaled : (num : ℚ) / den = num / den / 2 ^ e * 2 ^ e := by
      field_simp
    unfold magnitude ulp
    rw [abs_le]
    generalize (num : ℚ) / den / 2 ^ e = y at herror hscaled
    rw [hscaled] at hlow ⊢
    have hy : 2 ^ 23 ≤ y := le_of_mul_le_mul_right hlow hpow
    constructor
    · nlinarith
    · nlinarith

/-!
## Operations
-/

namespace Binary32

variable {x y : Binary32} {a b : ℚ}

theorem ofInt_approximates {v : Int} (hv : 0 ≤ v) (hhigh : v ≤ 2 ^ 100) :
    (ofInt v).Approximates v := by
  unfold ofInt
  rw [decide_eq_false (not_lt.mpr hv)]
  rcases hv.eq_or_lt with rfl | hpos
  · simpa using ofRatio_zero 1
  · have habs : ((v.natAbs : Nat) : ℚ) / (1 : Nat) = v := by
      rw [Nat.cast_one, div_one, Nat.cast_natAbs, abs_of_nonneg hv]
    have hq : Moderate ((v.natAbs : Nat) / (1 : Nat)) := by
      rw [habs]
      constructor
      · have hone : (1 : ℚ) ≤ v := by exact_mod_cast hpos
        exact le_trans (zpow_le_one_of_nonpos₀ one_le_two (by decide)) hone
      · exact_mod_cast hhigh
    rw [← habs]
    exact ofRatio_approximates (Int.natAbs_pos.mpr hpos.ne') one_pos hq

theorem two_zpow_sub (e f : Int) :
    (2 : ℚ) ^ (e - f).toNat / 2 ^ (f - e).toNat = 2 ^ e / 2 ^ f := by
  have h := two_zpow_toNat (e - f)
  rw [neg_sub] at h
  rw [← h, zpow_sub₀ two_ne_zero, mul_div_assoc, div_self, mul_one]
  positivity

theorem div_approximates (hx : x.Is a) (hy : y.Is b) (hb : 0 < b)
    (hq : a / b = 0 ∨ Moderate (a / b)) : (div x y).Approximates (a / b) := by
  rcases hx with ⟨m, e, rfl, rfl⟩
  rcases hy with ⟨n, f, rfl, rfl⟩
  have hn : n ≠ 0 := by
    rintro rfl
    simp [magnitude] at hb
  have hden : 0 < n * 2 ^ (f - e).toNat :=
    Nat.mul_pos (Nat.pos_of_ne_zero hn) (Nat.two_pow_pos _)
  have hratio : ((m * 2 ^ (e - f).toNat : Nat) : ℚ) /
      ((n * 2 ^ (f - e).toNat : Nat) : ℚ) = magnitude m e / magnitude n f := by
    unfold magnitude
    push_cast
    rw [mul_div_mul_comm, two_zpow_sub, mul_div_mul_comm]
  show Binary32.Approximates (if n = 0 then _ else _) _
  rw [if_neg hn, ← hratio]
  by_cases hm : m = 0
  · subst hm
    simpa using ofRatio_zero (n * 2 ^ (f - e).toNat)
  · apply ofRatio_approximates (Nat.mul_pos (Nat.pos_of_ne_zero hm)
      (Nat.two_pow_pos _)) hden
    rw [hratio]
    rcases hq with hzero | hq
    · have hpos : 0 < magnitude m e := by
        unfold magnitude
        positivity
      exact absurd hzero (div_pos hpos hb).ne'
    · exact hq

theorem mul_approximates (hx : x.Is a) (hy : y.Is b)
    (hq : a * b = 0 ∨ Moderate (a * b)) : (mul x y).Approximates (a * b) := by
  rcases hx with ⟨m, e, rfl, rfl⟩
  rcases hy with ⟨n, f, rfl, rfl⟩
  have hratio : ((m * n * 2 ^ (e + f).toNat : Nat) : ℚ) /
      ((2 ^ (-(e + f)).toNat : Nat) : ℚ) = magnitude m e * magnitude n f := by
    unfold magnitude
    push_cast
    rw [← two_zpow_toNat (e + f), zpow_add₀ two_ne_zero]
    have hpos : (2 : ℚ) ^ (-(e + f)).toNat ≠ 0 := by positivity
    field_simp
  show Binary32.Approximates (ofRatio false _ _) _
  rw [← hratio]
  by_cases hmn : m * n = 0
  · rw [hmn]
    simpa using ofRatio_zero (2 ^ (-(e + f)).toNat)
  · apply ofRatio_approximates (Nat.mul_pos (Nat.pos_of_ne_zero hmn)
      (Nat.two_pow_pos _)) (Nat.two_pow_pos _)
    rw [hratio]
    rcases hq with hzero | hq
    · rw [← hratio] at hzero
      have hpos : (0 : ℚ) < ((m * n * 2 ^ (e + f).toNat : Nat) : ℚ) /
          ((2 ^ (-(e + f)).toNat : Nat) : ℚ) := by
        have := Nat.pos_of_ne_zero hmn
        positivity
      exact absurd hzero hpos.ne'
    · exact hq

end Binary32

/-!
## Several roundings
-/

theorem ulp_pos : 0 < ulp := by
  unfold ulp
  norm_num

theorem ulp_small : ulp ≤ 1 / 10000000 := by
  unfold ulp
  norm_num

/-- Both operands of a quotient may be rounded. -/
theorem rounded_div {a b u t : ℚ} (hu : 0 ≤ u) (ht : 0 < t)
    (ha : |a - u| ≤ u * ulp) (hb : |b - t| ≤ t * ulp) :
    0 < b ∧ |a / b - u / t| ≤ u / t * (3 * ulp) := by
  have hpos := ulp_pos
  have hsmall := ulp_small
  rw [abs_le] at ha hb
  have hbpos : 0 < b := by nlinarith
  refine ⟨hbpos, ?_⟩
  have hr : 0 ≤ u / t := by positivity
  have hu' : u = u / t * t := by field_simp
  generalize u / t = r at hr hu'
  subst hu'
  -- the distance, times the divisor
  have hover : |a - r * b| ≤ r * t * (2 * ulp) := by
    rw [abs_le]
    constructor
    · nlinarith [mul_le_mul_of_nonneg_left hb.2 hr]
    · nlinarith [mul_le_mul_of_nonneg_left hb.1 hr]
  have hwide : t * (2 * ulp) ≤ b * (3 * ulp) := by nlinarith
  calc |a / b - r| = |a - r * b| / b := by
        rw [div_sub' hbpos.ne', abs_div, abs_of_pos hbpos, mul_comm b r]
    _ ≤ r * (3 * ulp) := by
        rw [div_le_iff₀ hbpos]
        calc |a - r * b| ≤ r * (t * (2 * ulp)) := by linarith
          _ ≤ r * (b * (3 * ulp)) := by gcongr
          _ = r * (3 * ulp) * b := by ring

theorem rounded_again {a c r k : ℚ} (hr : 0 ≤ r) (hk : k ≤ 10)
    (ha : |a - r| ≤ r * (k * ulp)) (hc : |c - a| ≤ a * ulp) :
    |c - r| ≤ r * ((k + 2) * ulp) := by
  have hpos := ulp_pos
  have hsmall := ulp_small
  have hgrown : a ≤ 2 * r := by
    have hku : k * ulp ≤ 1 := by nlinarith
    have hle := le_trans (le_abs_self _) ha
    nlinarith
  calc |c - r| ≤ |c - a| + |a - r| := abs_sub_le c a r
    _ ≤ 2 * r * ulp + r * (k * ulp) := by
        apply add_le_add _ ha
        exact le_trans hc (by gcongr)
    _ = r * ((k + 2) * ulp) := by ring

/-!
# Decimal texts
-/

theorem digitChar_value (d : Nat) : (digitChar d).toNat - 48 = d % 10 := by
  have hdigit : forall r, r < 10 -> ((48 + r).toUInt8).toNat - 48 = r := by
    decide
  exact hdigit (d % 10) (Nat.mod_lt d (by decide))

theorem decimalValue_append_digit (s : CStr) (d : Nat) :
    decimalValue (s ++ [digitChar d]) = 10 * decimalValue s + d % 10 := by
  unfold decimalValue
  rw [List.foldl_append, List.foldl_cons, List.foldl_nil, digitChar_value]

theorem decimalValue_lastDigits (width n : Nat) :
    decimalValue (lastDigits width n) = n % 10 ^ width := by
  induction width generalizing n with
  | zero => simp [lastDigits, decimalValue, Nat.mod_one]
  | succ width ih =>
      rw [lastDigits, decimalValue_append_digit, ih, Nat.pow_succ',
        Nat.mod_mul]
      lia

theorem length_decimal (n : Nat) :
    (decimal n).length = (Nat.toDigits 10 n).length :=
  length_lastDigits _ n

theorem length_decimal_le {n k : Nat} (hk : 0 < k) :
    (decimal n).length ≤ k <-> n < 10 ^ k := by
  rw [length_decimal]
  exact Nat.length_toDigits_le_iff (by decide) hk

theorem decimalValue_decimal (n : Nat) : decimalValue (decimal n) = n := by
  have hlong : n < 10 ^ (Nat.toDigits 10 n).length :=
    (Nat.length_toDigits_le_iff (by decide) Nat.length_toDigits_pos).mp le_rfl
  unfold decimal
  rw [decimalValue_lastDigits, Nat.mod_eq_of_lt hlong]

/-- The text of a number in fixed notation, and how far it is off. -/
theorem Binary32.Is.fixed4_digits {x : Binary32} {p : ℚ} (h : x.Is p) :
    exists n : Nat,
      x.fixed4 = decimal (n / 10000) ++ lit "." ++ lastDigits 4 n ∧
        |(n : ℚ) - p * 10000| ≤ 1 / 2 := by
  rcases h with ⟨m, e, rfl, rfl⟩
  rcases scaleBy_ratio (m * 10000) one_pos (-e) with ⟨hpos, hratio⟩
  have herror := roundHalfEven_error hpos (scaleBy (m * 10000) 1 (-e)).1
  refine ⟨roundHalfEven (scaleBy (m * 10000) 1 (-e)).1
    (scaleBy (m * 10000) 1 (-e)).2, rfl, ?_⟩
  have hscaled : magnitude m e * 10000 =
      ((m * 10000 : Nat) : ℚ) / (1 : Nat) / 2 ^ (-e) := by
    unfold magnitude
    rw [zpow_neg]
    push_cast
    field_simp
  rw [hscaled, ← hratio]
  exact herror

end CLib
end MQTTv1
