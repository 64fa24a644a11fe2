import MQTTv1.CLib.Rounding
import MQTTv1.Publisher.Columns

/-!
# The accuracy of the memory percentage

Two conversions, a quotient, a product and a conversion to text each round.
What they lose together stays below one unit of the last place shown.
-/

namespace MQTTv1
namespace Publisher

open CLib

/-!
# Four roundings
-/

theorem strtol_le (s : CStr) : strtol s ≤ LONG_MAX := by
  unfold strtol
  exact max_le (by decide) (min_le_left _ _)

theorem ofInt_hundred : (Binary32.ofInt 100).Is 100 := by
  refine ⟨13107200, -17, by decide, ?_⟩
  norm_num [magnitude]

theorem moderate_near {r c k : ℚ} (hlow : 2 ^ (-64 : Int) ≤ r)
    (hhigh : r ≤ 10000) (hk : k ≤ 10) (hnear : |c - r| ≤ r * (k * ulp)) :
    Moderate c := by
  have hpos := ulp_pos
  have hsmall := ulp_small
  have hr : 0 < r := lt_of_lt_of_le (by positivity) hlow
  have hhalf : |c - r| ≤ r * (1 / 2) := by
    refine le_trans hnear ?_
    have : k * ulp ≤ 1 / 2 := by nlinarith
    gcongr
  rw [abs_le] at hhalf
  constructor
  · calc (2 : ℚ) ^ (-100 : Int) ≤ 2 ^ (-64 : Int) * (1 / 2) := by norm_num
      _ ≤ r * (1 / 2) := by gcongr
      _ ≤ c := by linarith
  · calc c ≤ 2 * r := by linarith
      _ ≤ 2 * 10000 := by gcongr
      _ ≤ 2 ^ (100 : Int) := by norm_num

theorem zero_or_moderate {r c k : ℚ} (hr : r = 0 ∨ 2 ^ (-64 : Int) ≤ r)
    (hhigh : r ≤ 10000) (hk : k ≤ 10) (hnear : |c - r| ≤ r * (k * ulp)) :
    c = 0 ∨ Moderate c := by
  rcases hr with rfl | hlow
  · rw [zero_mul, sub_zero] at hnear
    exact Or.inl (abs_nonpos_iff.mp hnear)
  · exact Or.inr (moderate_near hlow hhigh hk hnear)

theorem share_bounds {u t : Int} (hu : 0 ≤ u) (ht : 0 < t) (htop : t ≤ LONG_MAX)
    (hle : u ≤ 99 * t) :
    ((u : ℚ) / t = 0 ∨ 2 ^ (-64 : Int) ≤ (u : ℚ) / t) ∧ (u : ℚ) / t ≤ 99 := by
  have ht' : (0 : ℚ) < t := by exact_mod_cast ht
  constructor
  · rcases hu.eq_or_lt with rfl | hpos
    · simp
    · right
      have hone : (1 : ℚ) ≤ u := by exact_mod_cast hpos
      have htop' : (t : ℚ) ≤ 2 ^ 64 := by
        have hle' : t ≤ 2 ^ 64 := le_trans htop (by decide)
        exact_mod_cast hle'
      calc (2 : ℚ) ^ (-64 : Int) = 1 / 2 ^ 64 := by norm_num
        _ ≤ u / t := by gcongr
  · rw [div_le_iff₀ ht']
    exact_mod_cast hle

/-- The value that `parse_info` prints, against the exact percentage. -/
theorem percentage_near {u t : Int} (hu : 0 ≤ u) (ht : 0 < t)
    (htop : t ≤ LONG_MAX) (hle : u ≤ 99 * t) :
    exists p, (Binary32.mul (Binary32.div (Binary32.ofInt u)
        (Binary32.ofInt t)) (Binary32.ofInt 100)).Is p ∧
      |p - (u : ℚ) / t * 100| ≤ (u : ℚ) / t * 100 * (7 * ulp) := by
  have hfits : LONG_MAX * 99 ≤ 2 ^ 100 := by decide
  rcases Binary32.ofInt_approximates hu (by lia) with ⟨a, hxa, ha⟩
  rcases Binary32.ofInt_approximates ht.le (by lia) with ⟨b, hyb, hb⟩
  have hu' : (0 : ℚ) ≤ u := by exact_mod_cast hu
  have ht' : (0 : ℚ) < t := by exact_mod_cast ht
  rcases share_bounds hu ht htop hle with ⟨hlow, hhigh⟩
  rcases rounded_div hu' ht' ha hb with ⟨hbpos, hquotient⟩
  generalize (u : ℚ) / t = r at hlow hhigh hquotient ⊢
  have hr : 0 ≤ r := by
    rcases hlow with rfl | hlow
    · exact le_rfl
    · exact le_trans (by positivity) hlow
  rcases Binary32.div_approximates hxa hyb hbpos
    (zero_or_moderate hlow (by linarith) (by norm_num) hquotient)
    with ⟨c, hzc, hc⟩
  have hthree := rounded_again hr (by norm_num) hquotient hc
  have hscaled : |c * 100 - r * 100| ≤ r * 100 * ((3 + 2) * ulp) := by
    rw [← sub_mul, abs_mul, abs_of_pos (by norm_num : (0 : ℚ) < 100)]
    linarith
  have hlow' : r * 100 = 0 ∨ 2 ^ (-64 : Int) ≤ r * 100 := by
    rcases hlow with rfl | hlow
    · exact Or.inl (zero_mul _)
    · exact Or.inr (by linarith)
  rcases Binary32.mul_approximates hzc ofInt_hundred
    (zero_or_moderate hlow' (by linarith) (by norm_num) hscaled)
    with ⟨p, hp, hproduct⟩
  have hfive := rounded_again (by linarith) (by norm_num) hscaled hproduct
  refine ⟨p, hp, ?_⟩
  norm_num at hfive ⊢
  exact hfive

/-!
# The text
-/

/-- The text shows a number of ten-thousandths, with four places. -/
structure FourPlaces (text whole frac : CStr) (n : Nat) : Prop where
  split : text = whole ++ lit "." ++ frac
  whole_ne : whole ≠ []
  frac_length : frac.length = 4
  digits : forall b, b ∈ whole ++ frac -> isDigit b
  value : 10000 * decimalValue whole + decimalValue frac = n

theorem fourPlaces_digits (n : Nat) :
    FourPlaces (decimal (n / 10000) ++ lit "." ++ lastDigits 4 n)
      (decimal (n / 10000)) (lastDigits 4 n) n where
  split := rfl
  whole_ne := by
    intro hnil
    have hlen := length_decimal (n / 10000)
    rw [hnil] at hlen
    exact absurd hlen.symm Nat.length_toDigits_pos.ne'
  frac_length := length_lastDigits 4 n
  digits := by
    intro b hb
    rcases List.mem_append.mp hb with hb | hb
    · exact lastDigits_isDigit _ _ b hb
    · exact lastDigits_isDigit _ _ b hb
  value := by
    rw [decimalValue_decimal, decimalValue_lastDigits]
    exact Nat.div_add_mod n 10000

/-- Nine characters are enough below a factor of one hundred. -/
theorem take_fourPlaces {n : Nat} (hn : n < 100000000) :
    (decimal (n / 10000) ++ lit "." ++ lastDigits 4 n).take 9 =
      decimal (n / 10000) ++ lit "." ++ lastDigits 4 n := by
  have hwhole : (decimal (n / 10000)).length ≤ 4 :=
    (length_decimal_le (by decide)).mpr (by lia)
  apply List.take_of_length_le
  rw [List.length_append, List.length_append, length_lastDigits]
  change _ + 1 + 4 ≤ 9
  lia

theorem shown_near {u t : Int} {n : Nat} {p : ℚ} (ht : 0 < t)
    (hp : |p - (u : ℚ) / t * 100| ≤ (u : ℚ) / t * 100 * (7 * ulp))
    (hn : |(n : ℚ) - p * 10000| ≤ 1 / 2) :
    2 ^ 25 * |n * t - 1000000 * u| ≤ 2 ^ 24 * t + 14000000 * u := by
  have ht' : (0 : ℚ) < t := by exact_mod_cast ht
  have hu' : (u : ℚ) = u / t * t := by field_simp
  have htotal : |(n : ℚ) - u / t * 1000000| ≤
      1 / 2 + (u : ℚ) / t * 1000000 * (7 * ulp) := by
    have hscaled : |p * 10000 - (u : ℚ) / t * 1000000| ≤
        (u : ℚ) / t * 1000000 * (7 * ulp) := by
      have hfactor : p * 10000 - (u : ℚ) / t * 1000000 =
          (p - (u : ℚ) / t * 100) * 10000 := by ring
      rw [hfactor, abs_mul, abs_of_pos (by norm_num : (0 : ℚ) < 10000)]
      linarith
    exact le_trans (abs_sub_le _ _ _) (add_le_add hn hscaled)
  have hover : |(n : ℚ) * t - 1000000 * u| =
      |(n : ℚ) - u / t * 1000000| * t := by
    have hfactor : (n : ℚ) * t - 1000000 * u =
        (n - u / t * 1000000) * t := by field_simp
    rw [hfactor, abs_mul, abs_of_pos ht']
  have hcast : 2 ^ 25 * |(n : ℚ) * t - 1000000 * u| ≤
      2 ^ 24 * t + 14000000 * u := by
    rw [hover]
    calc 2 ^ 25 * (|(n : ℚ) - u / t * 1000000| * (t : ℚ))
        ≤ 2 ^ 25 * ((1 / 2 + (u : ℚ) / t * 1000000 * (7 * ulp)) *
          (t : ℚ)) := by gcongr
      _ = 2 ^ 24 * (t : ℚ) + 14000000 * ((u : ℚ) / t * t) := by
          unfold ulp
          generalize (u : ℚ) / t = r
          ring
      _ = 2 ^ 24 * (t : ℚ) + 14000000 * u := by rw [← hu']
  exact_mod_cast hcast

/-- The text shows the exact percentage, to less than one unit of its last
place as long as no more is used than there is. -/
theorem memoryPercentage_accurate {used available : CStr}
    (hused : 0 ≤ strtol used) (havailable : 0 < strtol available)
    (hle : strtol used ≤ 99 * strtol available) :
    exists (whole : CStr) (frac : CStr) (n : Nat),
      FourPlaces (memoryPercentage used available) whole frac n ∧
        2 ^ 25 * |n * strtol available - 1000000 * strtol used| ≤
          2 ^ 24 * strtol available + 14000000 * strtol used ∧
        (strtol used ≤ strtol available ->
          n ≤ 1000000 ∧
            |n * strtol available - 1000000 * strtol used| <
              strtol available) := by
  rcases percentage_near hused havailable (strtol_le available) hle
    with ⟨p, hp, hnear⟩
  rcases hp.fixed4_digits with ⟨n, htext, hn⟩
  have hbound := shown_near havailable hnear hn
  have hupper := le_abs_self (n * strtol available - 1000000 * strtol used)
  have hshort : n < 100000000 := by
    have hlt : (n : Int) * strtol available <
        100000000 * strtol available := by lia
    exact_mod_cast lt_of_mul_lt_mul_right hlt havailable.le
  refine ⟨decimal (n / 10000), lastDigits 4 n, n, ?_, hbound, ?_⟩
  · unfold memoryPercentage
    simp only
    rw [htext, take_fourPlaces hshort]
    exact fourPlaces_digits n
  · intro hless
    have hclose : |n * strtol available - 1000000 * strtol used| <
        strtol available := by lia
    refine ⟨?_, hclose⟩
    have hlt : (n : Int) * strtol available <
        1000001 * strtol available := by lia
    have := lt_of_mul_lt_mul_right hlt havailable.le
    lia

theorem memoryPercentage_accurate_sample :
    exists (whole : CStr) (frac : CStr) (n : Nat),
      FourPlaces (memoryPercentage (lit "8964.2") (lit "15934.9"))
          whole frac n ∧
        2 ^ 25 * |(n : Int) * 15934 - 1000000 * 8964| ≤
          2 ^ 24 * 15934 + 14000000 * 8964 ∧
        ((8964 : Int) ≤ 15934 ->
          n ≤ 1000000 ∧ |(n : Int) * 15934 - 1000000 * 8964| < 15934) := by
  have hused : strtol (lit "8964.2") = 8964 := by decide
  have havailable : strtol (lit "15934.9") = 15934 := by decide
  have hnonneg : 0 ≤ strtol (lit "8964.2") := by
    rw [hused]
    decide
  have hpos : 0 < strtol (lit "15934.9") := by
    rw [havailable]
    decide
  have hle : strtol (lit "8964.2") ≤ 99 * strtol (lit "15934.9") := by
    rw [hused, havailable]
    decide
  have h := memoryPercentage_accurate hnonneg hpos hle
  rw [hused, havailable] at h
  exact h

end Publisher
end MQTTv1
