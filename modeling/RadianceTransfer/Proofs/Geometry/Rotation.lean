import Mathlib
import RadianceTransfer.Geometry.Rotation
import RadianceTransfer.Proofs.Geometry.UnitVector

/-!
# Orthogonal matrices

The transpose of an orthogonal matrix is its inverse, which says that its rows are orthonormal, and
that its columns are. Over the real numbers such a matrix keeps lengths, so it can be applied to a
vector before or after the vector is made a unit vector.

## Main definitions

* `Mat3.IsOrthogonal`: the transpose is the inverse.

## Main statements

* `Mat3.IsOrthogonal.rows`, `Mat3.IsOrthogonal.transpose`: rows and columns.
* `Mat3.IsOrthogonal.dot_apply`, `Mat3.IsOrthogonal.normalize_apply`: products of rotated vectors,
  and a rotated unit vector.
-/

namespace RadianceTransfer

namespace Mat3

theorem mul_eq (m n : Mat3 ℝ) : m * n =
    ⟨⟨m.r0.dot (n.column .x), m.r0.dot (n.column .y), m.r0.dot (n.column .z)⟩,
      ⟨m.r1.dot (n.column .x), m.r1.dot (n.column .y), m.r1.dot (n.column .z)⟩,
      ⟨m.r2.dot (n.column .x), m.r2.dot (n.column .y), m.r2.dot (n.column .z)⟩⟩ :=
  rfl

/-- The transpose is the inverse. -/
def IsOrthogonal (m : Mat3 ℝ) : Prop :=
  m * m.transpose = identity ∧ m.transpose * m = identity

namespace IsOrthogonal

variable {m : Mat3 ℝ}

/-- The rows are orthonormal. -/
theorem rows (h : m.IsOrthogonal) :
    m.r0.dot m.r0 = 1 ∧ m.r1.dot m.r1 = 1 ∧ m.r2.dot m.r2 = 1 ∧
      m.r0.dot m.r1 = 0 ∧ m.r0.dot m.r2 = 0 ∧ m.r1.dot m.r2 = 0 := by
  have hmul := h.1
  simp only [Mat3.ext_iff, Vec3.ext_iff] at hmul
  obtain ⟨⟨h00, h01, h02⟩, ⟨-, h11, h12⟩, -, -, h22⟩ := hmul
  exact ⟨h00.trans FieldFunctions.one_eq, h11.trans FieldFunctions.one_eq,
    h22.trans FieldFunctions.one_eq, h01.trans FieldFunctions.zero_eq,
    h02.trans FieldFunctions.zero_eq, h12.trans FieldFunctions.zero_eq⟩

/-- The columns are orthonormal as well. -/
theorem transpose (h : m.IsOrthogonal) : m.transpose.IsOrthogonal :=
  ⟨h.2, h.1⟩

/-- Applying the matrix keeps products of vectors. -/
theorem dot_apply (h : m.IsOrthogonal) (v w : Vec3 ℝ) :
    (m.apply v).dot (m.apply w) = v.dot w := by
  obtain ⟨h00, h11, h22, h01, h02, h12⟩ := h.transpose.rows
  simp only [Mat3.transpose, column, Vec3.get, Vec3.dot] at h00 h11 h22 h01 h02 h12
  simp only [apply, Vec3.dot]
  linear_combination v.x * w.x * h00 + v.y * w.y * h11 + v.z * w.z * h22 +
    (v.x * w.y + v.y * w.x) * h01 + (v.x * w.z + v.z * w.x) * h02 + (v.y * w.z + v.z * w.y) * h12

/-- Applying the transpose keeps the length. -/
theorem lengthSquared_apply (h : m.IsOrthogonal) (d : Vec3 ℝ) :
    (m.transpose.apply d).lengthSquared = d.lengthSquared :=
  h.transpose.dot_apply d d

theorem normalize_apply (h : m.IsOrthogonal) (d : Vec3 ℝ) :
    (m.transpose.apply d).normalize = m.transpose.apply d.normalize := by
  rw [Vec3.normalize_eq, Vec3.normalize_eq, h.lengthSquared_apply]
  simp only [apply, Vec3.scale, Vec3.dot]
  ext <;> ring

end IsOrthogonal

/-- A quarter turn about the third axis. -/
def quarterTurn : Mat3 ℝ :=
  ⟨⟨0, -1, 0⟩, ⟨1, 0, 0⟩, ⟨0, 0, 1⟩⟩

theorem isOrthogonal_quarterTurn : quarterTurn.IsOrthogonal := by
  constructor <;>
    simp [quarterTurn, mul_eq, Mat3.transpose, column, Vec3.get, Vec3.dot, identity,
      FieldFunctions.one_eq, FieldFunctions.zero_eq]

end Mat3

end RadianceTransfer
