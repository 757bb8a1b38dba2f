import Mathlib
import RadianceTransfer.Harmonics.Spherical
import RadianceTransfer.Proofs.Geometry.UnitVector

/-!
# Spherical coordinates

Over the real numbers every direction has an azimuth and a polar angle, and they give back its unit
vector. The azimuth is the argument of a complex number, moved by a full turn if it is negative, so
it is less than a full turn. Off the third axis there is only one azimuth and one polar angle for a
direction. On the axis any azimuth would do.

## Main definitions

* `azimuth`: the argument of a complex number, from zero up.

## Main statements

* `toSpherical_of_unit`: the coordinates of a unit vector.
* `toVector_toSpherical`, `toSpherical_toVector`: there and back.
* `spherical_round_trip`: both, with the ranges of the coordinates.
-/

namespace RadianceTransfer

theorem Scalar.maxNumber_eq (a b : ℝ) : maxNumber a b = max a b := by
  rw [maxNumber]
  split_ifs with h h'
  · rw [max_eq_left h.le]
  · simp at h'
  · rw [max_eq_right (not_lt.1 h)]

theorem Scalar.minNumber_eq (a b : ℝ) : minNumber a b = min a b := by
  rw [minNumber]
  split_ifs with h h'
  · rw [min_eq_left h.le]
  · simp at h'
  · rw [min_eq_right (not_lt.1 h)]

namespace Harmonics

/-! ### The azimuth -/

/-- The argument of a complex number, moved by a full turn if it is negative. -/
noncomputable def azimuth (w : ℂ) : ℝ :=
  if w.arg < 0 then w.arg + 2 * Real.pi else w.arg

theorem azimuth_mem (w : ℂ) : azimuth w ∈ Set.Ico 0 (2 * Real.pi) := by
  have hlower := Complex.neg_pi_lt_arg w
  have hupper := Complex.arg_le_pi w
  have hpi := Real.pi_pos
  rw [azimuth, Set.mem_Ico]
  split_ifs with hneg
  · constructor <;> linarith
  · constructor <;> linarith

theorem norm_mul_exp_azimuth (w : ℂ) : (‖w‖ : ℂ) * Complex.exp (azimuth w * Complex.I) = w := by
  have hturn : Complex.exp (azimuth w * Complex.I) = Complex.exp (w.arg * Complex.I) := by
    rw [azimuth]
    split_ifs
    · push_cast
      exact Complex.exp_mul_I_periodic w.arg
    · rfl
  rw [hturn, Complex.norm_mul_exp_arg_mul_I]

/-- The azimuth of a point that is given by one. -/
theorem azimuth_polar {r phi : ℝ} (hr : 0 < r) (hphi : phi ∈ Set.Ico 0 (2 * Real.pi)) :
    azimuth ⟨r * Real.cos phi, r * Real.sin phi⟩ = phi := by
  have hpoint (t : ℝ) (ht : t ∈ Set.Ioc (-Real.pi) Real.pi) :
      Complex.arg ⟨r * Real.cos t, r * Real.sin t⟩ = t := by
    have hpolar : (⟨r * Real.cos t, r * Real.sin t⟩ : ℂ) =
        r * (Complex.cos t + Complex.sin t * Complex.I) := by
      apply Complex.ext <;> simp [Complex.cos_ofReal_re, Complex.sin_ofReal_re]
    rw [hpolar, Complex.arg_mul_cos_add_sin_mul_I hr ht]
  have hpi := Real.pi_pos
  rw [Set.mem_Ico] at hphi
  rcases le_or_gt phi Real.pi with hle | hgt
  · rw [azimuth, hpoint phi ⟨by linarith, hle⟩, if_neg (not_lt.2 hphi.1)]
  · -- Beyond half a turn, the argument is that of the same point a full turn before.
    have hback := hpoint (phi - 2 * Real.pi) ⟨by linarith, by linarith⟩
    rw [Real.cos_sub_two_pi, Real.sin_sub_two_pi] at hback
    rw [azimuth, hback, if_pos (by linarith), sub_add_cancel]

/-! ### There and back -/

variable {u d : Vec3 ℝ}

theorem abs_z_le_one (hu : u.lengthSquared = 1) : |u.z| ≤ 1 := by
  rw [Vec3.lengthSquared_eq] at hu
  exact abs_le_one_iff_mul_self_le_one.2 (by nlinarith [sq_nonneg u.x, sq_nonneg u.y])

/-- The third component of a unit vector is a cosine as it is. -/
theorem toSpherical_of_unit (hu : u.lengthSquared = 1) :
    toSpherical u = (azimuth ⟨u.x, u.y⟩, Real.arccos u.z) := by
  have hz := abs_le.1 (abs_z_le_one hu)
  have hturn : (Scalar.twoPi : ℝ) = 2 * Real.pi := congrArg (· * Real.pi) Nat.cast_ofNat
  rw [toSpherical, Vec3.normalize_of_unit hu, Scalar.maxNumber_eq, Scalar.minNumber_eq,
    FieldFunctions.one_eq, max_eq_left hz.1, min_eq_left hz.2, FieldFunctions.zero_eq, hturn]
  rfl

/-- The length of a direction does not matter. -/
theorem toSpherical_normalize (hd : d ≠ ⟨0, 0, 0⟩) : toSpherical d.normalize = toSpherical d := by
  rw [toSpherical, Vec3.normalize_of_unit (Vec3.lengthSquared_normalize hd), toSpherical]

/-- The polar angle has the third component for its cosine. -/
theorem cos_toSpherical (hu : u.lengthSquared = 1) : Real.cos (toSpherical u).2 = u.z := by
  have hz := abs_le.1 (abs_z_le_one hu)
  rw [toSpherical_of_unit hu, Real.cos_arccos hz.1 hz.2]

/-- Its sine is how far the vector is from the axis. -/
theorem sin_toSpherical (hu : u.lengthSquared = 1) :
    Real.sin (toSpherical u).2 = ‖(⟨u.x, u.y⟩ : ℂ)‖ := by
  have hxy : 1 - u.z ^ 2 = u.x ^ 2 + u.y ^ 2 := by
    rw [← hu, Vec3.lengthSquared_eq]
    ring
  rw [toSpherical_of_unit hu, Real.sin_arccos, hxy, Complex.norm_eq_sqrt_sq_add_sq]

/-- The azimuth is that of the first two components. -/
theorem exp_azimuth (hu : u.lengthSquared = 1) :
    (‖(⟨u.x, u.y⟩ : ℂ)‖ : ℂ) * Complex.exp ((toSpherical u).1 * Complex.I) = ⟨u.x, u.y⟩ := by
  rw [toSpherical_of_unit hu, norm_mul_exp_azimuth]

theorem toVector_toSpherical (hu : u.lengthSquared = 1) :
    toVector (toSpherical u).1 (toSpherical u).2 = u := by
  have hplane := exp_azimuth hu
  rw [← sin_toSpherical hu] at hplane
  ext
  · have hx := congrArg Complex.re hplane
    rwa [Complex.re_ofReal_mul, Complex.exp_ofReal_mul_I_re] at hx
  · have hy := congrArg Complex.im hplane
    rwa [Complex.im_ofReal_mul, Complex.exp_ofReal_mul_I_im] at hy
  · exact cos_toSpherical hu

theorem lengthSquared_toVector (phi theta : ℝ) : (toVector phi theta).lengthSquared = 1 := by
  rw [Vec3.lengthSquared_eq]
  show (Real.sin theta * Real.cos phi) ^ 2 + (Real.sin theta * Real.sin phi) ^ 2 +
    Real.cos theta ^ 2 = 1
  linear_combination Real.sin theta ^ 2 * Real.sin_sq_add_cos_sq phi + Real.sin_sq_add_cos_sq theta

theorem toSpherical_toVector {phi theta : ℝ} (hphi : phi ∈ Set.Ico 0 (2 * Real.pi))
    (htheta : theta ∈ Set.Ioo 0 Real.pi) : toSpherical (toVector phi theta) = (phi, theta) := by
  rw [toSpherical_of_unit (lengthSquared_toVector phi theta)]
  exact Prod.ext (azimuth_polar (Real.sin_pos_of_mem_Ioo htheta) hphi)
    (Real.arccos_cos htheta.1.le htheta.2.le)

/-- Every direction has coordinates in their ranges, which give back its unit vector, and off the
third axis all coordinates in these ranges are found again. -/
theorem spherical_round_trip :
    (∀ d : Vec3 ℝ, d ≠ ⟨0, 0, 0⟩ →
      (toSpherical d).1 ∈ Set.Ico 0 (2 * Real.pi) ∧ (toSpherical d).2 ∈ Set.Icc 0 Real.pi ∧
        let r := Real.sqrt (d.x ^ 2 + d.y ^ 2 + d.z ^ 2)
        toVector (toSpherical d).1 (toSpherical d).2 = ⟨d.x / r, d.y / r, d.z / r⟩) ∧
    ∀ phi theta : ℝ, phi ∈ Set.Ico 0 (2 * Real.pi) → theta ∈ Set.Ioo 0 Real.pi →
      toSpherical (toVector phi theta) = (phi, theta) := by
  refine ⟨fun d hd => ?_, fun phi theta => toSpherical_toVector⟩
  have hu := Vec3.lengthSquared_normalize hd
  rw [← toSpherical_normalize hd]
  refine ⟨?_, ?_, ?_⟩
  · rw [toSpherical_of_unit hu]
    exact azimuth_mem _
  · rw [toSpherical_of_unit hu]
    exact ⟨Real.arccos_nonneg _, Real.arccos_le_pi _⟩
  · rw [toVector_toSpherical hu, Vec3.normalize_eq, Vec3.lengthSquared_eq]
    simp only [Vec3.scale, mul_one_div]

/-- A direction below the plane of the first two axes, and an azimuth of three quarters of a
turn. -/
theorem spherical_round_trip_three_quarters :
    let d : Vec3 ℝ := ⟨0, -3, -4⟩
    d ≠ ⟨0, 0, 0⟩ ∧ (toSpherical d).1 ∈ Set.Ico 0 (2 * Real.pi) ∧
      (3 / 2 * Real.pi) ∈ Set.Ico 0 (2 * Real.pi) ∧ Real.pi / 2 ∈ Set.Ioo 0 Real.pi ∧
      toSpherical (toVector (3 / 2 * Real.pi) (Real.pi / 2)) =
        (3 / 2 * Real.pi, Real.pi / 2) := by
  intro d
  have hd : d ≠ ⟨0, 0, 0⟩ := fun h => by simpa [d] using congrArg Vec3.y h
  have hpi := Real.pi_pos
  have hphi : 3 / 2 * Real.pi ∈ Set.Ico 0 (2 * Real.pi) := ⟨by positivity, by linarith⟩
  have htheta : Real.pi / 2 ∈ Set.Ioo 0 Real.pi := ⟨by positivity, by linarith⟩
  exact ⟨hd, (spherical_round_trip.1 d hd).1, hphi, htheta, spherical_round_trip.2 _ _ hphi htheta⟩

end Harmonics

end RadianceTransfer
