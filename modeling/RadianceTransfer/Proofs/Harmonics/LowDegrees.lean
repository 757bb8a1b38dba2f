import Mathlib
import RadianceTransfer.Proofs.Geometry.Rotation
import RadianceTransfer.Proofs.Harmonics.Rotation

/-!
# The low degrees

Up to degree two the basis functions of a degree are polynomials in the components of a unit vector.
Those of degree one are all linear ones, and those of degree two are all quadratic forms without
trace. An orthogonal matrix takes linear functions to linear functions and keeps the trace of a
form, so a rotated function of one of these degrees is of the same degree again.

The values at the sample directions are so far from singular that no pivot is rejected.

## Main definitions

* `degreeTwoForm`: the quadratic form of an expansion of degree two.

## Main statements

* `exists_rotated_one`, `exists_rotated_two`: rotated functions are of the same degree.
* `exists_bandMatrix_one`, `exists_bandMatrix_two`: there is a matrix for each rotation.
-/

namespace RadianceTransfer.Harmonics

open Matrix

/-! ### The polynomials -/

theorem lt_sqrt_div_pi {a b : ℝ} (hb : 0 < b) (h : 4 * b ^ 2 < 100 * a) :
    1 / 10 < Real.sqrt (a / Real.pi) / b := by
  rw [lt_div_iff₀ hb]
  refine Real.lt_sqrt_of_sq_lt ?_
  rw [lt_div_iff₀ Real.pi_pos]
  have hpi : b ^ 2 * Real.pi ≤ b ^ 2 * 4 :=
    mul_le_mul_of_nonneg_left Real.pi_lt_four.le (sq_nonneg b)
  linarith

theorem lt_k1 : 1 / 10 < (k1 : ℝ) := by
  have h : (k1 : ℝ) = Real.sqrt (3 / 4 / Real.pi) / 1 := by
    rw [div_one, div_div]
    rfl
  rw [h]
  exact lt_sqrt_div_pi one_pos (by norm_num)

theorem lt_k2 : 1 / 10 < (k2 : ℝ) :=
  lt_sqrt_div_pi (a := 15) two_pos (by norm_num)

theorem lt_k20 : 1 / 10 < (k20 : ℝ) :=
  lt_sqrt_div_pi (a := 5) four_pos (by norm_num)

theorem lt_k22 : 1 / 10 < (k22 : ℝ) :=
  lt_sqrt_div_pi (a := 15) four_pos (by norm_num)

theorem eval_of_unit {l : Nat} (hl : l ≤ 2) (m : Int) {d : Vec3 ℝ} (hd : d.lengthSquared = 1) :
    eval l m d = evalPolynomial l m d := by
  rw [eval, Vec3.normalize_of_unit hd]
  exact if_pos hl

theorem sum_degree_one (f : Int → ℝ) :
    ∑ m ∈ Finset.Icc (-(1 : Nat) : Int) (1 : Nat), f m = f (-1) + f 0 + f 1 := by
  rw [sum_orders]
  simp [Finset.sum_range_succ]

theorem sum_degree_two (f : Int → ℝ) :
    ∑ m ∈ Finset.Icc (-(2 : Nat) : Int) (2 : Nat), f m =
      f (-2) + f (-1) + f 0 + f 1 + f 2 := by
  rw [sum_orders]
  simp [Finset.sum_range_succ]

/-- The symmetric form of which an expansion of degree two is the square. -/
noncomputable def degreeTwoForm (c : Int → ℝ) (v w : Vec3 ℝ) : ℝ :=
  k2 / 2 * (v.x * w.y + v.y * w.x) * c (-2) - k2 / 2 * (v.y * w.z + v.z * w.y) * c (-1) +
    k20 * (2 * (v.z * w.z) - v.x * w.x - v.y * w.y) * c 0 -
    k2 / 2 * (v.x * w.z + v.z * w.x) * c 1 + k22 * (v.x * w.x - v.y * w.y) * c 2

theorem degreeTwoForm_self (c : Int → ℝ) (u : Vec3 ℝ) :
    ∑ m ∈ Finset.Icc (-(2 : Nat) : Int) (2 : Nat), evalPolynomial 2 m u * c m =
      degreeTwoForm c u u := by
  rw [sum_degree_two, degreeTwoForm]
  show k2 * u.x * u.y * c (-2) + -k2 * u.y * u.z * c (-1) +
    k20 * (-u.x * u.x - u.y * u.y + 2 * u.z * u.z) * c 0 + -k2 * u.x * u.z * c 1 +
    k22 * (u.x * u.x - u.y * u.y) * c 2 = _
  ring

/-! ### The rotated functions -/

variable {rot : Mat3 ℝ}

/-- A rotated function of degree one is one of degree one. -/
theorem exists_rotated_one (rot : Mat3 ℝ) (c : Int → ℝ) : ∃ a : Int → ℝ, ∀ u,
    ∑ m ∈ Finset.Icc (-(1 : Nat) : Int) (1 : Nat), evalPolynomial 1 m u * a m =
      ∑ m ∈ Finset.Icc (-(1 : Nat) : Int) (1 : Nat),
        evalPolynomial 1 m (rot.transpose.apply u) * c m := by
  let v : Vec3 ℝ := rot.apply ⟨-c 1, -c (-1), c 0⟩
  refine ⟨fun | -1 => -v.y | 0 => v.z | _ => -v.x, fun u => ?_⟩
  rw [sum_degree_one, sum_degree_one]
  show -k1 * u.y * -v.y + k1 * u.z * v.z + -k1 * u.x * -v.x =
    -k1 * (rot.transpose.apply u).y * c (-1) + k1 * (rot.transpose.apply u).z * c 0 +
      -k1 * (rot.transpose.apply u).x * c 1
  simp only [v, Mat3.apply, Mat3.transpose, Mat3.column, Vec3.get, Vec3.dot]
  ring

/-- The forms of degree two have no trace. -/
theorem degreeTwoForm_trace (h : rot.IsOrthogonal) (c : Int → ℝ) :
    degreeTwoForm c rot.r0 rot.r0 + degreeTwoForm c rot.r1 rot.r1 +
      degreeTwoForm c rot.r2 rot.r2 = 0 := by
  obtain ⟨h00, h11, h22, h01, h02, h12⟩ := h.transpose.rows
  simp only [Vec3.dot, Mat3.transpose, Mat3.column, Vec3.get] at h00 h11 h22 h01 h02 h12
  simp only [degreeTwoForm]
  linear_combination k2 * c (-2) * h01 - k2 * c (-1) * h12 +
    k20 * c 0 * (2 * h22 - h00 - h11) - k2 * c 1 * h02 + k22 * c 2 * (h00 - h11)

/-- A rotated function of degree two is one of degree two. -/
theorem exists_rotated_two (h : rot.IsOrthogonal) (c : Int → ℝ) : ∃ a : Int → ℝ, ∀ u,
    ∑ m ∈ Finset.Icc (-(2 : Nat) : Int) (2 : Nat), evalPolynomial 2 m u * a m =
      ∑ m ∈ Finset.Icc (-(2 : Nat) : Int) (2 : Nat),
        evalPolynomial 2 m (rot.transpose.apply u) * c m := by
  let q := degreeTwoForm c
  obtain ⟨a, ha, ha', hb, hc, hc'⟩ : ∃ a : Int → ℝ, a (-2) = 2 * q rot.r0 rot.r1 * k2⁻¹ ∧
      a (-1) = -2 * q rot.r1 rot.r2 * k2⁻¹ ∧ a 0 = q rot.r2 rot.r2 * k20⁻¹ / 2 ∧
      a 1 = -2 * q rot.r0 rot.r2 * k2⁻¹ ∧
      a 2 = (q rot.r0 rot.r0 - q rot.r1 rot.r1) * k22⁻¹ / 2 :=
    ⟨fun | -2 => _ | -1 => _ | 0 => _ | 1 => _ | _ => _, rfl, rfl, rfl, rfl, rfl⟩
  refine ⟨a, fun u => ?_⟩
  have hk2 : (k2 : ℝ) * k2⁻¹ = 1 := mul_inv_cancel₀ (lt_trans (by norm_num) lt_k2).ne'
  have hk20 : (k20 : ℝ) * k20⁻¹ = 1 := mul_inv_cancel₀ (lt_trans (by norm_num) lt_k20).ne'
  have hk22 : (k22 : ℝ) * k22⁻¹ = 1 := mul_inv_cancel₀ (lt_trans (by norm_num) lt_k22).ne'
  have htrace : q rot.r0 rot.r0 + q rot.r1 rot.r1 + q rot.r2 rot.r2 = 0 := degreeTwoForm_trace h c
  have hexpand : q (rot.transpose.apply u) (rot.transpose.apply u) =
      u.x ^ 2 * q rot.r0 rot.r0 + u.y ^ 2 * q rot.r1 rot.r1 + u.z ^ 2 * q rot.r2 rot.r2 +
        2 * u.x * u.y * q rot.r0 rot.r1 + 2 * u.x * u.z * q rot.r0 rot.r2 +
        2 * u.y * u.z * q rot.r1 rot.r2 := by
    simp only [q, degreeTwoForm, Mat3.apply, Mat3.transpose, Mat3.column, Vec3.get, Vec3.dot]
    ring
  rw [degreeTwoForm_self, degreeTwoForm_self]
  refine Eq.trans ?_ hexpand.symm
  rw [degreeTwoForm, ha, ha', hb, hc, hc']
  clear_value q
  linear_combination (2 * u.x * u.y * q rot.r0 rot.r1 + 2 * u.y * u.z * q rot.r1 rot.r2 +
      2 * u.x * u.z * q rot.r0 rot.r2) * hk2 +
    (2 * u.z ^ 2 - u.x ^ 2 - u.y ^ 2) * q rot.r2 rot.r2 / 2 * hk20 +
    (u.x ^ 2 - u.y ^ 2) * (q rot.r0 rot.r0 - q rot.r1 rot.r1) / 2 * hk22 -
    (u.x ^ 2 + u.y ^ 2) / 2 * htrace

/-! ### The sample directions -/

theorem sampleDirections_one :
    sampleDirections (α := ℝ) 1 = #v[⟨1, 0, 0⟩, ⟨0, 0, 1⟩, ⟨0, 1, 0⟩] := by
  simp only [sampleDirections, FieldFunctions.one_eq, FieldFunctions.zero_eq]

theorem sampleDirections_two : ∃ k : ℝ, k ^ 2 = 1 / 2 ∧ sampleDirections (α := ℝ) 2 =
    #v[⟨1, 0, 0⟩, ⟨0, 0, 1⟩, ⟨k, k, 0⟩, ⟨k, 0, k⟩, ⟨0, k, k⟩] := by
  refine ⟨1 / Real.sqrt 2, ?_, ?_⟩
  · rw [div_pow, one_pow, Real.sq_sqrt zero_le_two]
  · simp only [sampleDirections, FieldFunctions.one_eq, FieldFunctions.zero_eq]
    rfl

/-- The sample directions of the low degrees are unit vectors. -/
theorem lengthSquared_sampleDirections {l : Nat} (hl : l = 1 ∨ l = 2) (i : Fin (2 * l + 1)) :
    ((sampleDirections (α := ℝ) l).get i).lengthSquared = 1 := by
  rcases hl with rfl | rfl
  · rw [sampleDirections_one, Vec3.lengthSquared_eq]
    fin_cases i <;> norm_num [Vector.get]
  · obtain ⟨k, hk, hdirs⟩ := sampleDirections_two
    have hsum : k ^ 2 + k ^ 2 = 1 := by linarith
    rw [hdirs, Vec3.lengthSquared_eq]
    fin_cases i <;> simp [Vector.get, hsum]

/-- A low degree has a matrix if every coefficient shows at one of the sample directions. -/
theorem exists_bandMatrix_of_low {l : Nat} (hl : l = 1 ∨ l = 2) (invRot : Mat3 ℝ)
    (h : ∀ w : Int → ℝ, (∀ i : Fin (2 * l + 1), |∑ m ∈ Finset.Icc (-l : Int) l,
        evalPolynomial l m ((sampleDirections l).get i) * w m| < 1e-10) →
      ∀ m ∈ Finset.Icc (-l : Int) l, w m ≠ 1) :
    ∃ m, bandMatrix eval l invRot = .ok m := by
  have hle : l ≤ 2 := by omega
  refine exists_bandMatrix invRot fun w hw => h w fun i => ?_
  have hi := hw i
  simp only [eval_of_unit hle _ (lengthSquared_sampleDirections hl i)] at hi
  exact hi

/-- Degree one has a matrix. -/
theorem exists_bandMatrix_one (invRot : Mat3 ℝ) : ∃ m, bandMatrix eval 1 invRot = .ok m := by
  refine exists_bandMatrix_of_low (.inl rfl) invRot fun w hw m hm hone => ?_
  have hsmall (i : Fin 3) (d : Vec3 ℝ) (hi : (sampleDirections 1).get i = d) :
      |-(k1 * w (-1)) * d.y + k1 * w 0 * d.z - k1 * w 1 * d.x| < 1e-10 := by
    have h := hw i
    rw [hi, sum_degree_one] at h
    refine lt_of_eq_of_lt (congrArg _ ?_) h
    show _ = -k1 * d.y * w (-1) + k1 * d.z * w 0 + -k1 * d.x * w 1
    ring
  rw [sampleDirections_one] at hsmall
  have hx := abs_lt.1 (hsmall 0 ⟨1, 0, 0⟩ rfl)
  have hz := abs_lt.1 (hsmall 1 ⟨0, 0, 1⟩ rfl)
  have hy := abs_lt.1 (hsmall 2 ⟨0, 1, 0⟩ rfl)
  have hk := lt_k1
  have hcases : m = -1 ∨ m = 0 ∨ m = 1 := by
    rw [Finset.mem_Icc] at hm
    omega
  rcases hcases with rfl | rfl | rfl
  · rw [hone] at hy
    norm_num at hy
    linarith
  · rw [hone] at hz
    norm_num at hz
    linarith
  · rw [hone] at hx
    norm_num at hx
    linarith

/-- Degree two has a matrix. -/
theorem exists_bandMatrix_two (invRot : Mat3 ℝ) : ∃ m, bandMatrix eval 2 invRot = .ok m := by
  refine exists_bandMatrix_of_low (.inr rfl) invRot fun w hw m hm hone => ?_
  have hsmall (i : Fin 5) (d : Vec3 ℝ) (hi : (sampleDirections 2).get i = d) :
      |k2 * w (-2) * (d.x * d.y) - k2 * w (-1) * (d.y * d.z) +
        k20 * w 0 * (2 * d.z ^ 2 - d.x ^ 2 - d.y ^ 2) - k2 * w 1 * (d.x * d.z) +
        k22 * w 2 * (d.x ^ 2 - d.y ^ 2)| < 1e-10 := by
    have h := hw i
    rw [hi, degreeTwoForm_self] at h
    refine lt_of_eq_of_lt (congrArg _ ?_) h
    rw [degreeTwoForm]
    ring
  obtain ⟨k, hk, hdirs⟩ := sampleDirections_two
  have hkk : k * k = 1 / 2 := by rw [← hk, sq]
  rw [hdirs] at hsmall
  have hx := abs_lt.1 (hsmall 0 ⟨1, 0, 0⟩ rfl)
  have hz := abs_lt.1 (hsmall 1 ⟨0, 0, 1⟩ rfl)
  have hxy := abs_lt.1 (hsmall 2 ⟨k, k, 0⟩ rfl)
  have hxz := abs_lt.1 (hsmall 3 ⟨k, 0, k⟩ rfl)
  have hyz := abs_lt.1 (hsmall 4 ⟨0, k, k⟩ rfl)
  simp only [hk, hkk] at hx hz hxy hxz hyz
  norm_num at hx hz hxy hxz hyz
  have hk2 := lt_k2
  have hk20 := lt_k20
  have hk22 := lt_k22
  have hcases : m = -2 ∨ m = -1 ∨ m = 0 ∨ m = 1 ∨ m = 2 := by
    rw [Finset.mem_Icc] at hm
    omega
  rcases hcases with rfl | rfl | rfl | rfl | rfl
  · rw [hone] at hxy
    linarith
  · rw [hone] at hyz
    linarith
  · rw [hone] at hz
    linarith
  · rw [hone] at hxz
    linarith
  · rw [hone] at hx
    linarith

end RadianceTransfer.Harmonics
