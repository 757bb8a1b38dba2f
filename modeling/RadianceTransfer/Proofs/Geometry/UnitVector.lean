import Mathlib
import RadianceTransfer.Geometry.Vec3
import RadianceTransfer.Proofs.Field

/-!
# Unit vectors

Over the real numbers every vector but zero has a unit vector of its direction. It depends on the
direction alone, so it does not change with the length, and turns round with the vector.

## Main statements

* `Vec3.lengthSquared_normalize`, `Vec3.exists_eq_scale_normalize`: a vector is its length times its
  unit vector.
* `Vec3.normalize_scale`, `Vec3.normalize_neg`: vectors of one direction, and the opposite one.
-/

namespace RadianceTransfer.Vec3

variable {v w : Vec3 ℝ}

theorem lengthSquared_eq (v : Vec3 ℝ) : v.lengthSquared = v.x ^ 2 + v.y ^ 2 + v.z ^ 2 := by
  show v.x * v.x + v.y * v.y + v.z * v.z = _
  ring

theorem lengthSquared_neg (v : Vec3 ℝ) : (-v).lengthSquared = v.lengthSquared := by
  rw [lengthSquared_eq, lengthSquared_eq]
  show (-v.x) ^ 2 + (-v.y) ^ 2 + (-v.z) ^ 2 = _
  ring

theorem lengthSquared_scale (v : Vec3 ℝ) (r : ℝ) :
    (v.scale r).lengthSquared = r ^ 2 * v.lengthSquared := by
  rw [lengthSquared_eq, lengthSquared_eq]
  simp only [scale]
  ring

theorem lengthSquared_pos (h : v ≠ ⟨0, 0, 0⟩) : 0 < v.lengthSquared := by
  rw [lengthSquared_eq]
  by_contra hle
  refine h (Vec3.ext ?_ ?_ ?_) <;> nlinarith [sq_nonneg v.x, sq_nonneg v.y, sq_nonneg v.z]

theorem neg_ne_zero (h : v ≠ ⟨0, 0, 0⟩) : -v ≠ ⟨0, 0, 0⟩ := by
  intro hneg
  obtain ⟨hx, hy, hz⟩ := Vec3.ext_iff.1 hneg
  exact h (Vec3.ext (neg_eq_zero.1 hx) (neg_eq_zero.1 hy) (neg_eq_zero.1 hz))

theorem dot_scale (v w : Vec3 ℝ) (r : ℝ) : v.dot (w.scale r) = r * v.dot w := by
  simp only [dot, scale]
  ring

/-! ### The unit vector of a direction -/

theorem normalize_eq (v : Vec3 ℝ) : v.normalize = v.scale (1 / Real.sqrt v.lengthSquared) := by
  rw [normalize, FieldFunctions.one_eq]
  rfl

theorem normalize_of_unit (h : v.lengthSquared = 1) : v.normalize = v := by
  rw [normalize_eq, h, Real.sqrt_one, div_one]
  exact Vec3.ext (mul_one _) (mul_one _) (mul_one _)

theorem normalize_neg (v : Vec3 ℝ) : (-v).normalize = -v.normalize := by
  rw [normalize_eq, normalize_eq, lengthSquared_neg]
  exact Vec3.ext (neg_mul _ _) (neg_mul _ _) (neg_mul _ _)

theorem lengthSquared_normalize (h : v ≠ ⟨0, 0, 0⟩) : v.normalize.lengthSquared = 1 := by
  have hpos := lengthSquared_pos h
  rw [normalize_eq, lengthSquared_scale, one_div, inv_pow, Real.sq_sqrt hpos.le,
    inv_mul_cancel₀ hpos.ne']

/-- A vector is its length times the unit vector of its direction. -/
theorem exists_eq_scale_normalize (h : v ≠ ⟨0, 0, 0⟩) :
    ∃ r : ℝ, 0 < r ∧ v = v.normalize.scale r := by
  have hpos : 0 < Real.sqrt v.lengthSquared := Real.sqrt_pos.2 (lengthSquared_pos h)
  refine ⟨Real.sqrt v.lengthSquared, hpos, ?_⟩
  rw [normalize_eq]
  simp only [scale]
  ext <;> field_simp

/-- Vectors of one direction have the same unit vector. -/
theorem normalize_scale {r : ℝ} (hr : 0 < r) (v : Vec3 ℝ) :
    (v.scale r).normalize = v.normalize := by
  have hfactor (s : ℝ) : r * (1 / (r * s)) = 1 / s := by
    rw [one_div, mul_inv, mul_inv_cancel_left₀ hr.ne', one_div]
  have hcomponent (x : ℝ) : x * r * (1 / (r * √v.lengthSquared)) = x * (1 / √v.lengthSquared) := by
    rw [mul_assoc, hfactor]
  rw [normalize_eq, normalize_eq, lengthSquared_scale, Real.sqrt_mul (sq_nonneg r),
    Real.sqrt_sq hr.le]
  exact Vec3.ext (hcomponent v.x) (hcomponent v.y) (hcomponent v.z)

/-- Vectors with the same unit vector differ by a factor. -/
theorem exists_eq_scale_of_normalize_eq (hv : v ≠ ⟨0, 0, 0⟩) (hw : w ≠ ⟨0, 0, 0⟩)
    (h : v.normalize = w.normalize) : ∃ r : ℝ, 0 < r ∧ v = w.scale r := by
  obtain ⟨r, hr, hvr⟩ := exists_eq_scale_normalize hv
  obtain ⟨s, hs, hws⟩ := exists_eq_scale_normalize hw
  refine ⟨r / s, div_pos hr hs, ?_⟩
  rw [hvr, h]
  conv_rhs => rw [hws]
  simp only [scale]
  ext <;> field_simp

end RadianceTransfer.Vec3
