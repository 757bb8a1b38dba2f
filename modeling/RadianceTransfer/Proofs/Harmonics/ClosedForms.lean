import Mathlib
import RadianceTransfer.Proofs.Harmonics.Legendre

/-!
# The polynomials of the low degrees

Up to degree two a basis function can be evaluated in two ways: by a polynomial in the components of
a unit vector, or from spherical coordinates as a product of a factor, a Legendre function and a
function of the azimuth. Both give the same value. The Legendre functions of these degrees are
polynomials in the sine and the cosine of the polar angle, the functions of the azimuth are
polynomials in its sine and cosine, and the factors differ from the constants of the polynomials by
what the Legendre functions and double angles contribute.

## Main statements

* `sqrt_mul_normalization`: the factors in front of the functions.
* `evalGeneral_zero`, `evalGeneral_natCast`, `evalGeneral_neg_natCast`: the three kinds of orders.
* `evalPolynomial_eq_evalGeneral`: both ways of evaluating agree.
-/

namespace RadianceTransfer.Harmonics

/-! ### Orders -/

section Orders

variable {l k : Nat} {phi theta : ℝ}

theorem evalGeneral_zero (l : Nat) (phi theta : ℝ) :
    evalGeneral l 0 phi theta = normalization l 0 * legendre l 0 (Real.cos theta) :=
  rfl

theorem evalGeneral_natCast (hk : 0 < k) : evalGeneral l k phi theta =
    Real.sqrt 2 * normalization l k * Real.cos (k * phi) * legendre l k (Real.cos theta) := by
  have htwo : ((2 : ℕ) : ℝ) = 2 := Nat.cast_ofNat
  rw [evalGeneral, if_pos (Int.natCast_pos.2 hk), ← htwo]
  rfl

theorem evalGeneral_neg_natCast (hk : 0 < k) : evalGeneral l (-k) phi theta =
    Real.sqrt 2 * normalization l k * Real.sin (k * phi) * legendre l k (Real.cos theta) := by
  have htwo : ((2 : ℕ) : ℝ) = 2 := Nat.cast_ofNat
  rw [evalGeneral, if_neg (by omega), if_pos (by omega), Int.natAbs_neg, ← htwo]
  rfl

end Orders

/-! ### Factors -/

/-- A factor as a root over the area of the unit disk. -/
theorem sqrt_mul_normalization {q a b : ℝ} (hq : 0 ≤ q) (hb : 0 < b) (l k : Nat)
    (h : q * (2 * l + 1) * (l - k).factorial * b ^ 2 = 4 * a * (l + k).factorial) :
    Real.sqrt q * normalization l k = Real.sqrt (a / Real.pi) / b := by
  have hpi := Real.pi_pos
  have hsquare : q * ((2 * l + 1) * (l - k).factorial / (4 * Real.pi * (l + k).factorial)) =
      a / Real.pi / b ^ 2 := by
    field_simp
    linear_combination h
  rw [normalization_eq, ← Real.sqrt_mul hq, hsquare, Real.sqrt_div' _ (sq_nonneg b),
    Real.sqrt_sq hb.le]

theorem sqrt_div_four_pi (a : ℝ) : Real.sqrt (a / (4 * Real.pi)) = Real.sqrt (a / Real.pi) / 2 := by
  have hfour : a / (4 * Real.pi) = a / Real.pi / 2 ^ 2 := by
    rw [div_div, mul_comm Real.pi]
    norm_num
  rw [hfour, Real.sqrt_div' _ (sq_nonneg 2), Real.sqrt_sq zero_le_two]

theorem normalization_zero_zero : normalization 0 0 = (k00 : ℝ) := by
  have h := sqrt_mul_normalization (a := 1) zero_le_one two_pos 0 0 (by norm_num)
  rw [Real.sqrt_one, one_mul, ← sqrt_div_four_pi] at h
  rw [h, k00, FieldFunctions.one_eq]
  rfl

theorem normalization_one_zero : normalization 1 0 = (k1 : ℝ) := by
  have h := sqrt_mul_normalization (a := 3) zero_le_one two_pos 1 0 (by norm_num)
  rw [Real.sqrt_one, one_mul, ← sqrt_div_four_pi] at h
  exact h

theorem normalization_one_one : Real.sqrt 2 * normalization 1 1 = k1 := by
  rw [sqrt_mul_normalization (a := 3) zero_le_two two_pos 1 1 (by norm_num), ← sqrt_div_four_pi]
  rfl

theorem k20_eq : (k20 : ℝ) = Real.sqrt (5 / Real.pi) / 4 :=
  rfl

theorem k22_eq : (k22 : ℝ) = Real.sqrt (15 / Real.pi) / 4 :=
  rfl

theorem k2_eq : (k2 : ℝ) = 2 * k22 := by
  have h : (k2 : ℝ) = Real.sqrt (15 / Real.pi) / 2 := rfl
  rw [h, k22_eq]
  ring

theorem normalization_two_zero : normalization 2 0 = 2 * (k20 : ℝ) := by
  have h := sqrt_mul_normalization (a := 5) zero_le_one two_pos 2 0 (by norm_num)
  rw [Real.sqrt_one, one_mul] at h
  rw [h, k20_eq]
  ring

theorem normalization_two_one : Real.sqrt 2 * normalization 2 1 = 2 * k22 / 3 := by
  rw [sqrt_mul_normalization (a := 15) (b := 6) zero_le_two (by norm_num) 2 1
    (by norm_num [Nat.factorial]), k22_eq]
  ring

theorem normalization_two_two : Real.sqrt 2 * normalization 2 2 = k22 / 3 := by
  rw [sqrt_mul_normalization (a := 15) (b := 12) zero_le_two (by norm_num) 2 2
    (by norm_num [Nat.factorial]), k22_eq]
  ring

/-! ### Legendre functions -/

section Legendre

variable {x s : ℝ}

theorem legendre_zero_zero (hs : 0 ≤ s) (h : s ^ 2 + x ^ 2 = 1) : legendre 0 0 x = 1 := by
  rw [legendre_self, legendreDiagonal_eq 0 hs h]
  norm_num

theorem legendre_one_zero (hs : 0 ≤ s) (h : s ^ 2 + x ^ 2 = 1) : legendre 1 0 x = x := by
  rw [legendre_succ_self 0, legendre_zero_zero hs h]
  norm_num

theorem legendre_one_one (hs : 0 ≤ s) (h : s ^ 2 + x ^ 2 = 1) : legendre 1 1 x = -s := by
  rw [legendre_self, legendreDiagonal_eq 1 hs h]
  norm_num

theorem legendre_two_zero (hs : 0 ≤ s) (h : s ^ 2 + x ^ 2 = 1) :
    legendre 2 0 x = (3 * x ^ 2 - 1) / 2 := by
  rw [legendre_add_two 0 0, legendre_one_zero hs h, legendre_zero_zero hs h]
  norm_num
  ring

theorem legendre_two_one (hs : 0 ≤ s) (h : s ^ 2 + x ^ 2 = 1) : legendre 2 1 x = -3 * x * s := by
  rw [legendre_succ_self 1, legendre_one_one hs h, Nat.cast_one]
  ring

theorem legendre_two_two (hs : 0 ≤ s) (h : s ^ 2 + x ^ 2 = 1) : legendre 2 2 x = 3 * s ^ 2 := by
  rw [legendre_self, legendreDiagonal_eq 2 hs h]
  norm_num [Nat.doubleFactorial]

end Legendre

/-! ### Degrees -/

section Degrees

variable {theta : ℝ} {m : Int}

theorem evalPolynomial_degree_zero (hsin : 0 ≤ Real.sin theta) (phi : ℝ) :
    evalPolynomial 0 0 (toVector phi theta) = evalGeneral 0 0 phi theta := by
  have hunit := Real.sin_sq_add_cos_sq theta
  rw [evalGeneral_zero, normalization_zero_zero, legendre_zero_zero hsin hunit]
  exact (mul_one _).symm

theorem evalPolynomial_degree_one (hm : m = -1 ∨ m = 0 ∨ m = 1) (hsin : 0 ≤ Real.sin theta)
    (phi : ℝ) : evalPolynomial 1 m (toVector phi theta) = evalGeneral 1 m phi theta := by
  have hunit := Real.sin_sq_add_cos_sq theta
  rcases hm with rfl | rfl | rfl
  · refine Eq.trans ?_ (evalGeneral_neg_natCast one_pos).symm
    rw [normalization_one_one, legendre_one_one hsin hunit, Nat.cast_one, one_mul]
    show -k1 * (Real.sin theta * Real.sin phi) = _
    ring
  · rw [evalGeneral_zero, normalization_one_zero, legendre_one_zero hsin hunit]
    rfl
  · refine Eq.trans ?_ (evalGeneral_natCast one_pos).symm
    rw [normalization_one_one, legendre_one_one hsin hunit, Nat.cast_one, one_mul]
    show -k1 * (Real.sin theta * Real.cos phi) = _
    ring

theorem evalPolynomial_degree_two (hm : m = -2 ∨ m = -1 ∨ m = 0 ∨ m = 1 ∨ m = 2)
    (hsin : 0 ≤ Real.sin theta) (phi : ℝ) :
    evalPolynomial 2 m (toVector phi theta) = evalGeneral 2 m phi theta := by
  have hunit := Real.sin_sq_add_cos_sq theta
  have hcircle := Real.sin_sq_add_cos_sq phi
  -- the components of the direction, with a single letter each
  obtain ⟨x, hx⟩ : ∃ x, x = Real.sin theta * Real.cos phi := ⟨_, rfl⟩
  obtain ⟨y, hy⟩ : ∃ y, y = Real.sin theta * Real.sin phi := ⟨_, rfl⟩
  have hdirection : toVector phi theta = ⟨x, y, Real.cos theta⟩ := by
    rw [hx, hy]
    rfl
  rw [hdirection]
  rcases hm with rfl | rfl | rfl | rfl | rfl
  · refine Eq.trans ?_ (evalGeneral_neg_natCast two_pos).symm
    rw [normalization_two_two, legendre_two_two hsin hunit, Nat.cast_ofNat, Real.sin_two_mul]
    show k2 * x * y = _
    rw [k2_eq, hx, hy]
    ring
  · refine Eq.trans ?_ (evalGeneral_neg_natCast one_pos).symm
    rw [normalization_two_one, legendre_two_one hsin hunit, Nat.cast_one, one_mul]
    show -k2 * y * Real.cos theta = _
    rw [k2_eq, hy]
    ring
  · rw [evalGeneral_zero, normalization_two_zero, legendre_two_zero hsin hunit]
    show k20 * (-x * x - y * y + (2 : ℕ) * Real.cos theta * Real.cos theta) = _
    rw [hx, hy, Nat.cast_ofNat]
    linear_combination -k20 * Real.sin theta ^ 2 * hcircle - k20 * hunit
  · refine Eq.trans ?_ (evalGeneral_natCast one_pos).symm
    rw [normalization_two_one, legendre_two_one hsin hunit, Nat.cast_one, one_mul]
    show -k2 * x * Real.cos theta = _
    rw [k2_eq, hx]
    ring
  · refine Eq.trans ?_ (evalGeneral_natCast two_pos).symm
    rw [normalization_two_two, legendre_two_two hsin hunit, Nat.cast_ofNat, Real.cos_two_mul']
    show k22 * (x * x - y * y) = _
    rw [hx, hy]
    ring

end Degrees

/-- **Both ways of evaluating agree.** Up to degree two a polynomial at the direction of spherical
coordinates has the value that the general path computes from the coordinates themselves. -/
theorem evalPolynomial_eq_evalGeneral {l : Nat} (hl : l ≤ 2) {m : Int} (hm : m.natAbs ≤ l) (phi : ℝ)
    {theta : ℝ} (htheta : theta ∈ Set.Icc 0 Real.pi) :
    evalPolynomial l m (toVector phi theta) = evalGeneral l m phi theta := by
  have hsin : 0 ≤ Real.sin theta := Real.sin_nonneg_of_mem_Icc htheta
  interval_cases l
  · obtain rfl : m = 0 := by omega
    exact evalPolynomial_degree_zero hsin phi
  · exact evalPolynomial_degree_one (by omega) hsin phi
  · exact evalPolynomial_degree_two (by omega) hsin phi

/-- Below the equator, and at an azimuth of more than a turn. -/
theorem evalPolynomial_eq_evalGeneral_below :
    2 ≤ 2 ∧ (-1 : Int).natAbs ≤ 2 ∧ (3 : ℝ) ∈ Set.Icc 0 Real.pi ∧
      evalPolynomial 2 (-1) (toVector (-7 : ℝ) 3) = evalGeneral 2 (-1) (-7 : ℝ) 3 := by
  have htheta : (3 : ℝ) ∈ Set.Icc 0 Real.pi := ⟨by norm_num, Real.pi_gt_three.le⟩
  exact ⟨le_rfl, by decide, htheta, evalPolynomial_eq_evalGeneral le_rfl (by decide) (-7) htheta⟩

end RadianceTransfer.Harmonics
