import Mathlib
import RadianceTransfer.Proofs.Geometry.Rotation

/-!
# Written rotations

The turn about an axis adds up three matrices: a part that scales, one that projects on the axis,
and one that takes the vector product with it. With a unit vector for the axis, and the sine and
cosine of an angle as factors, the sum is a rotation: its transpose is its inverse, and it keeps the
orientation. The rotations of space are a group, so every matrix that is written as a product of
turns and of their transposes is one as well.

## Main definitions

* `Mat3.toMatrix`: the matrix with its rows and columns numbered.
* `Mat3.IsRotation`: an orthogonal matrix of determinant one.
* `RotationExpr.HasAxes`: no turn is about the zero vector.

## Main statements

* `Mat3.isRotation_rotate`, `Mat3.rotate_apply_axis`: a turn, and what it leaves alone.
* `RotationExpr.eval_isRotation`: every written rotation.
-/

namespace RadianceTransfer

namespace Mat3

variable {m n : Mat3 ℝ}

/-! ### Matrices with numbered entries -/

/-- The matrix with its rows and columns numbered. -/
def toMatrix (m : Mat3 ℝ) : Matrix (Fin 3) (Fin 3) ℝ :=
  !![m.r0.x, m.r0.y, m.r0.z; m.r1.x, m.r1.y, m.r1.z; m.r2.x, m.r2.y, m.r2.z]

theorem toMatrix_mul (m n : Mat3 ℝ) : (m * n).toMatrix = m.toMatrix * n.toMatrix := by
  ext i j
  fin_cases i <;> fin_cases j <;>
    simp [toMatrix, Matrix.mul_apply, Fin.sum_univ_three] <;> rfl

theorem toMatrix_transpose (m : Mat3 ℝ) : m.transpose.toMatrix = m.toMatrix.transpose := by
  ext i j
  fin_cases i <;> fin_cases j <;> rfl

theorem toMatrix_identity : (identity : Mat3 ℝ).toMatrix = 1 := by
  rw [identity, FieldFunctions.one_eq, FieldFunctions.zero_eq, toMatrix, Matrix.one_fin_three]

theorem toMatrix_injective : Function.Injective toMatrix := by
  intro m n h
  have hentry (i j : Fin 3) : m.toMatrix i j = n.toMatrix i j := by rw [h]
  exact Mat3.ext (Vec3.ext (hentry 0 0) (hentry 0 1) (hentry 0 2))
    (Vec3.ext (hentry 1 0) (hentry 1 1) (hentry 1 2))
    (Vec3.ext (hentry 2 0) (hentry 2 1) (hentry 2 2))

/-- The determinant is the volume that the rows span. -/
theorem det_toMatrix (m : Mat3 ℝ) : m.toMatrix.det = m.r0.dot (m.r1.cross m.r2) := by
  rw [Matrix.det_fin_three]
  show m.r0.x * m.r1.y * m.r2.z - m.r0.x * m.r1.z * m.r2.y - m.r0.y * m.r1.x * m.r2.z +
    m.r0.y * m.r1.z * m.r2.x + m.r0.z * m.r1.x * m.r2.y - m.r0.z * m.r1.y * m.r2.x = _
  simp only [Vec3.dot, Vec3.cross]
  ring

theorem isOrthogonal_iff : m.IsOrthogonal ↔ m.toMatrix ∈ Matrix.orthogonalGroup (Fin 3) ℝ := by
  rw [Matrix.mem_orthogonalGroup_iff, IsOrthogonal, ← toMatrix_injective.eq_iff,
    ← toMatrix_injective.eq_iff, toMatrix_mul, toMatrix_mul, toMatrix_transpose, toMatrix_identity]
  exact ⟨And.left, fun h => ⟨h, mul_eq_one_comm.1 h⟩⟩

/-- Orthonormal rows make a matrix orthogonal. -/
theorem isOrthogonal_of_rows (h00 : m.r0.dot m.r0 = 1) (h11 : m.r1.dot m.r1 = 1)
    (h22 : m.r2.dot m.r2 = 1) (h01 : m.r0.dot m.r1 = 0) (h02 : m.r0.dot m.r2 = 0)
    (h12 : m.r1.dot m.r2 = 0) : m.IsOrthogonal := by
  have hmul : m * m.transpose = identity := by
    rw [mul_eq, identity, FieldFunctions.one_eq, FieldFunctions.zero_eq]
    simp only [Vec3.dot] at h00 h11 h22 h01 h02 h12
    simp only [Vec3.dot, transpose, column, Vec3.get, mk.injEq, Vec3.mk.injEq]
    refine ⟨⟨h00, h01, h02⟩, ⟨?_, h11, h12⟩, ?_, ?_, h22⟩
    · linear_combination h01
    · linear_combination h02
    · linear_combination h12
  rw [isOrthogonal_iff, Matrix.mem_orthogonalGroup_iff, ← toMatrix_identity, ← hmul, toMatrix_mul,
    toMatrix_transpose]

/-- An orthogonal matrix that keeps the orientation of space. -/
def IsRotation (m : Mat3 ℝ) : Prop :=
  m.toMatrix ∈ Matrix.specialOrthogonalGroup (Fin 3) ℝ

theorem isRotation_iff : m.IsRotation ↔ m.IsOrthogonal ∧ m.toMatrix.det = 1 := by
  rw [isOrthogonal_iff]
  exact Matrix.mem_specialOrthogonalGroup_iff

theorem isRotation_identity : (identity : Mat3 ℝ).IsRotation := by
  rw [IsRotation, toMatrix_identity]
  exact one_mem _

theorem IsRotation.mul (hm : m.IsRotation) (hn : n.IsRotation) : (m * n).IsRotation := by
  rw [IsRotation, toMatrix_mul]
  exact mul_mem hm hn

theorem IsRotation.transpose (h : m.IsRotation) : m.transpose.IsRotation := by
  rw [isRotation_iff] at h ⊢
  rw [toMatrix_transpose, Matrix.det_transpose]
  exact ⟨h.1.transpose, h.2⟩

/-! ### Applying matrices -/

theorem mul_apply (m n : Mat3 ℝ) (v : Vec3 ℝ) : (m * n).apply v = m.apply (n.apply v) := by
  rw [mul_eq]
  simp only [apply, Vec3.dot, column, Vec3.get]
  ext <;> ring

theorem apply_scale (m : Mat3 ℝ) (v : Vec3 ℝ) (r : ℝ) :
    m.apply (v.scale r) = (m.apply v).scale r := by
  simp only [apply, Vec3.scale, Vec3.dot]
  ext <;> ring

theorem IsOrthogonal.length_apply (h : m.IsOrthogonal) (v : Vec3 ℝ) :
    (m.apply v).length = v.length :=
  congrArg Real.sqrt (h.dot_apply v v)

/-! ### Turns -/

/-- The turn about a unit vector by the angle of a given sine and cosine. -/
def turn (a : Vec3 ℝ) (s c : ℝ) : Mat3 ℝ :=
  ⟨⟨c + (1 - c) * (a.x * a.x), (1 - c) * (a.x * a.y) - s * a.z, (1 - c) * (a.x * a.z) + s * a.y⟩,
    ⟨(1 - c) * (a.x * a.y) + s * a.z, c + (1 - c) * (a.y * a.y), (1 - c) * (a.y * a.z) - s * a.x⟩,
    ⟨(1 - c) * (a.x * a.z) - s * a.y, (1 - c) * (a.y * a.z) + s * a.x, c + (1 - c) * (a.z * a.z)⟩⟩

theorem rotate_eq_turn (degrees : ℝ) (axis : Vec3 ℝ) :
    rotate degrees axis = turn axis.normalize (Real.sin (Scalar.radians degrees))
      (Real.cos (Scalar.radians degrees)) := by
  rw [rotate, FieldFunctions.one_eq, turn]
  generalize axis.normalize = a
  have hsin : Scalar.sin (Scalar.radians degrees) = Real.sin (Scalar.radians degrees) := rfl
  have hcos : Scalar.cos (Scalar.radians degrees) = Real.cos (Scalar.radians degrees) := rfl
  simp only [hsin, hcos]
  ext <;> ring

section Turn

variable {a : Vec3 ℝ} {s c : ℝ}

theorem isOrthogonal_turn (ha : a.lengthSquared = 1) (hsc : s ^ 2 + c ^ 2 = 1) :
    (turn a s c).IsOrthogonal := by
  rw [Vec3.lengthSquared_eq] at ha
  refine isOrthogonal_of_rows ?_ ?_ ?_ ?_ ?_ ?_ <;> simp only [turn, Vec3.dot]
  · linear_combination (a.x ^ 2 * (1 - c) ^ 2 + s ^ 2) * ha + (1 - a.x ^ 2) * hsc
  · linear_combination (a.y ^ 2 * (1 - c) ^ 2 + s ^ 2) * ha + (1 - a.y ^ 2) * hsc
  · linear_combination (a.z ^ 2 * (1 - c) ^ 2 + s ^ 2) * ha + (1 - a.z ^ 2) * hsc
  · linear_combination a.x * a.y * (1 - c) ^ 2 * ha - a.x * a.y * hsc
  · linear_combination a.x * a.z * (1 - c) ^ 2 * ha - a.x * a.z * hsc
  · linear_combination a.y * a.z * (1 - c) ^ 2 * ha - a.y * a.z * hsc

theorem det_turn (ha : a.lengthSquared = 1) (hsc : s ^ 2 + c ^ 2 = 1) :
    (turn a s c).toMatrix.det = 1 := by
  rw [Vec3.lengthSquared_eq] at ha
  rw [det_toMatrix]
  simp only [turn, Vec3.dot, Vec3.cross]
  linear_combination hsc +
    (s ^ 2 + (1 - c) * (c ^ 2 + s ^ 2 * (a.x ^ 2 + a.y ^ 2 + a.z ^ 2))) * ha

theorem turn_apply_axis (ha : a.lengthSquared = 1) : (turn a s c).apply a = a := by
  rw [Vec3.lengthSquared_eq] at ha
  simp only [turn, apply, Vec3.dot]
  ext
  · linear_combination (1 - c) * a.x * ha
  · linear_combination (1 - c) * a.y * ha
  · linear_combination (1 - c) * a.z * ha

end Turn

theorem isRotation_rotate (degrees : ℝ) {axis : Vec3 ℝ} (h : axis ≠ ⟨0, 0, 0⟩) :
    (rotate degrees axis).IsRotation := by
  have hunit := Vec3.lengthSquared_normalize h
  have hsc := Real.sin_sq_add_cos_sq (Scalar.radians degrees)
  rw [rotate_eq_turn, isRotation_iff]
  exact ⟨isOrthogonal_turn hunit hsc, det_turn hunit hsc⟩

/-- A turn leaves its axis alone. -/
theorem rotate_apply_axis (degrees : ℝ) {axis : Vec3 ℝ} (h : axis ≠ ⟨0, 0, 0⟩) :
    (rotate degrees axis).apply axis = axis := by
  obtain ⟨r, -, hr⟩ := Vec3.exists_eq_scale_normalize h
  calc (rotate degrees axis).apply axis
      = (rotate degrees axis).apply (axis.normalize.scale r) := by rw [← hr]
    _ = axis.normalize.scale r := by
        rw [apply_scale, rotate_eq_turn, turn_apply_axis (Vec3.lengthSquared_normalize h)]
    _ = axis := hr.symm

end Mat3

/-! ### Expressions -/

namespace RotationExpr

/-- No turn is about the zero vector. -/
def HasAxes : RotationExpr ℝ → Prop
  | .identity => True
  | .rotate _ axis => axis ≠ ⟨0, 0, 0⟩
  | .mul a b => a.HasAxes ∧ b.HasAxes
  | .transpose a => a.HasAxes

theorem isRotation_eval {e : RotationExpr ℝ} (h : e.HasAxes) : e.eval.IsRotation := by
  induction e with
  | identity => exact Mat3.isRotation_identity
  | rotate degrees axis => exact Mat3.isRotation_rotate degrees h
  | mul a b iha ihb => exact (iha h.1).mul (ihb h.2)
  | transpose a ih => exact (ih h).transpose

/-- **Every written rotation is one.** The transpose of its matrix is the inverse and the
determinant is one, so applying it keeps lengths and products of vectors. A product of matrices
applies the second one and then the first one, and a turn leaves its axis alone. -/
theorem eval_isRotation :
    (∀ e : RotationExpr ℝ, e.HasAxes →
      e.eval * e.eval.transpose = Mat3.identity ∧ e.eval.transpose * e.eval = Mat3.identity ∧
      e.eval.toMatrix.det = 1 ∧ (∀ v, (e.eval.apply v).length = v.length) ∧
      ∀ v w, (e.eval.apply v).dot (e.eval.apply w) = v.dot w) ∧
    (∀ (a b : RotationExpr ℝ) (v : Vec3 ℝ),
      (mul a b).eval.apply v = a.eval.apply (b.eval.apply v)) ∧
    ∀ (degrees : ℝ) (axis : Vec3 ℝ), axis ≠ ⟨0, 0, 0⟩ →
      (rotate degrees axis).eval.apply axis = axis := by
  refine ⟨fun e h => ?_, fun a b v => Mat3.mul_apply a.eval b.eval v,
    fun degrees axis h => Mat3.rotate_apply_axis degrees h⟩
  obtain ⟨horthogonal, hdet⟩ := Mat3.isRotation_iff.1 (isRotation_eval h)
  exact ⟨horthogonal.1, horthogonal.2, hdet, horthogonal.length_apply, horthogonal.dot_apply⟩

/-- A turn about an oblique axis, after one backwards about another axis. -/
noncomputable def oblique : RotationExpr ℝ :=
  mul (rotate 30 ⟨1, 2, 2⟩) (transpose (rotate 45 ⟨0, -3, 4⟩))

theorem eval_isRotation_oblique :
    oblique.HasAxes ∧ oblique.eval * oblique.eval.transpose = Mat3.identity ∧
      oblique.eval.toMatrix.det = 1 ∧ (∀ v, (oblique.eval.apply v).length = v.length) ∧
      (rotate (30 : ℝ) ⟨1, 2, 2⟩).eval.apply ⟨1, 2, 2⟩ = ⟨1, 2, 2⟩ := by
  have hfirst : (⟨1, 2, 2⟩ : Vec3 ℝ) ≠ ⟨0, 0, 0⟩ := fun h => one_ne_zero (congrArg Vec3.x h)
  have hsecond : (⟨0, -3, 4⟩ : Vec3 ℝ) ≠ ⟨0, 0, 0⟩ := fun h => four_ne_zero (congrArg Vec3.z h)
  have haxes : oblique.HasAxes := ⟨hfirst, hsecond⟩
  obtain ⟨hrotation, -, haxis⟩ := eval_isRotation
  obtain ⟨hinverse, -, hdet, hlength, -⟩ := hrotation oblique haxes
  exact ⟨haxes, hinverse, hdet, hlength, haxis 30 ⟨1, 2, 2⟩ hfirst⟩

end RotationExpr

end RadianceTransfer
