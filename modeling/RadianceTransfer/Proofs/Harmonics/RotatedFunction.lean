import Mathlib
import RadianceTransfer.Proofs.Harmonics.LowDegrees

/-!
# Rotated functions

What a rotation of coefficients does to the function that they stand for. At the sample directions
of a degree it has the values that it had at those rotated back, and no other coefficients of the
degree have these values. Up to degree two, where rotated functions are of the same degree, this
makes it the rotated function everywhere.

## Main statements

* `BandRotation.apply_interpolates`: any functions, any order.
* `BandRotation.build_rotates`: the basis functions up to degree two.
-/

namespace RadianceTransfer.Harmonics

theorem degreeSum_zero (coeffs : List ℝ) (d : Vec3 ℝ) :
    degreeSum eval coeffs 0 d = k00 * coeffs.getD 0 0 := by
  rw [degreeSum, sum_orders, Finset.sum_range_one]
  rfl

namespace BandRotation

/-- Up to degree two there are matrices for every rotation. -/
theorem exists_build {order : Nat} (horder : order ≤ 2) (rot : Mat3 ℝ) :
    ∃ r, build order rot = .ok r := by
  refine exists_ofFunctions fun l hpos hl => ?_
  have hcases : l = 1 ∨ l = 2 := by omega
  rcases hcases with rfl | rfl
  · exact exists_bandMatrix_one _
  · exact exists_bandMatrix_two _

/-- The rotated coefficients of a degree are those with the values, at its sample directions, that
the expansion had at the directions rotated back. -/
theorem apply_interpolates {K : Type} [Field K] [LinearOrder K] [IsStrictOrderedRing K]
    [FloorSemiring K] [FieldFunctions K] {value : Nat → Int → Vec3 K → K} {order : Nat}
    {rot : Mat3 K} {r : BandRotation K} (h : ofFunctions value order rot = .ok r)
    {coeffs : List K} (hlength : coeffs.length = coefficientCount order) :
    (r.apply coeffs).length = coefficientCount order ∧
      ∀ l, 1 ≤ l → l ≤ order →
        (∀ i : Fin (2 * l + 1), degreeSum value (r.apply coeffs) l ((sampleDirections l).get i) =
          degreeSum value coeffs l (rot.transpose.apply ((sampleDirections l).get i))) ∧
        ∀ w : Int → K,
          (∀ i : Fin (2 * l + 1), ∑ m ∈ Finset.Icc (-l : Int) l,
              value l m ((sampleDirections l).get i) * w m =
            degreeSum value coeffs l (rot.transpose.apply ((sampleDirections l).get i))) →
          ∀ m ∈ Finset.Icc (-l : Int) l, (r.apply coeffs)[flatIndex l m]? = some (w m) := by
  have hlength' : (r.apply coeffs).length = coefficientCount order := by
    rw [apply, length_applyBands, hlength]
  refine ⟨hlength', fun l hpos hl => ⟨degreeSum_apply h hlength hpos hl, fun w hw m hm => ?_⟩⟩
  have hindex : flatIndex l m < (r.apply coeffs).length := by
    rw [Finset.mem_Icc] at hm
    rw [hlength']
    exact flatIndex_lt (by omega) hl
  rw [List.getElem?_eq_getElem hindex, ← List.getD_eq_getElem _ 0 hindex,
    eq_of_degreeSum h hlength hpos hl hw hm]

theorem apply_interpolates_quarterTurn : ∃ r : BandRotation ℝ,
    ofFunctions eval 2 .quarterTurn = .ok r ∧
      [1, 0, 1, 0, -1, 1, 1, 0, 0].length = coefficientCount 2 ∧
      (r.apply [1, 0, 1, 0, -1, 1, 1, 0, 0]).length = coefficientCount 2 ∧
      (∀ i, degreeSum eval (r.apply [1, 0, 1, 0, -1, 1, 1, 0, 0]) 2 ((sampleDirections 2).get i) =
        degreeSum eval [1, 0, 1, 0, -1, 1, 1, 0, 0] 2
          (Mat3.quarterTurn.transpose.apply ((sampleDirections 2).get i))) ∧
      ∀ w : Int → ℝ,
        (∀ i, ∑ m ∈ Finset.Icc (-(2 : Nat) : Int) (2 : Nat),
            eval 2 m ((sampleDirections 2).get i) * w m =
          degreeSum eval [1, 0, 1, 0, -1, 1, 1, 0, 0] 2
            (Mat3.quarterTurn.transpose.apply ((sampleDirections 2).get i))) →
        ∀ m ∈ Finset.Icc (-(2 : Nat) : Int) (2 : Nat),
          (r.apply [1, 0, 1, 0, -1, 1, 1, 0, 0])[flatIndex 2 m]? = some (w m) := by
  obtain ⟨r, hr⟩ := exists_build le_rfl .quarterTurn
  have hlength : [1, 0, 1, 0, -1, 1, 1, 0, (0 : ℝ)].length = coefficientCount 2 := rfl
  obtain ⟨hlength', hdegrees⟩ := apply_interpolates hr hlength
  obtain ⟨hvalues, hunique⟩ := hdegrees 2 one_le_two le_rfl
  exact ⟨r, hr, rfl, hlength', hvalues, hunique⟩

variable {order l : Nat} {rot : Mat3 ℝ} {r : BandRotation ℝ} {coeffs : List ℝ}

/-- A degree whose rotated function is of the same degree is rotated everywhere. -/
theorem degreeSum_apply_of_low (h : build order rot = .ok r) (horthogonal : rot.IsOrthogonal)
    (hlength : coeffs.length = coefficientCount order) (hl : l = 1 ∨ l = 2) (hle : l ≤ order)
    (hrotated : ∃ a : Int → ℝ, ∀ u, ∑ m ∈ Finset.Icc (-l : Int) l, evalPolynomial l m u * a m =
      ∑ m ∈ Finset.Icc (-l : Int) l, evalPolynomial l m (rot.transpose.apply u) *
        coeffs.getD (flatIndex l m) 0) (d : Vec3 ℝ) :
    degreeSum eval (r.apply coeffs) l d = degreeSum eval coeffs l (rot.transpose.apply d) := by
  obtain ⟨a, ha⟩ := hrotated
  have hpos : 1 ≤ l := by omega
  have heval (m : Int) (d : Vec3 ℝ) : eval l m d = evalPolynomial l m d.normalize :=
    if_pos (by omega)
  have hvalues (d : Vec3 ℝ) : ∑ m ∈ Finset.Icc (-l : Int) l, eval l m d * a m =
      degreeSum eval coeffs l (rot.transpose.apply d) := by
    simp only [degreeSum, heval, horthogonal.normalize_apply, ha]
  rw [← hvalues, degreeSum]
  refine Finset.sum_congr rfl fun m hm => ?_
  rw [eq_of_degreeSum h hlength hpos hle (fun i => hvalues _) hm]

/-- Up to degree two, a rotation turns the function that an expansion stands for. -/
theorem build_rotates {order : Nat} (horder : order ≤ 2) {rot : Mat3 ℝ} (hrot : rot.IsOrthogonal) :
    ∃ r, build order rot = .ok r ∧
      ∀ coeffs : List ℝ, coeffs.length = coefficientCount order → ∀ d : Vec3 ℝ,
        reconstruct (r.apply coeffs) d = reconstruct coeffs (rot.transpose.apply d) := by
  obtain ⟨r, hr⟩ := exists_build horder rot
  refine ⟨r, hr, fun coeffs hlength d => ?_⟩
  have hlength' : (r.apply coeffs).length = coefficientCount order := by
    rw [apply, length_applyBands, hlength]
  rw [reconstruct_eq_sum hlength', reconstruct_eq_sum hlength]
  refine Finset.sum_congr rfl fun l hl => ?_
  have hl : l ≤ order := Nat.lt_succ_iff.1 (Finset.mem_range.1 hl)
  have hcases : l = 0 ∨ l = 1 ∨ l = 2 := by omega
  rcases hcases with rfl | rfl | rfl
  · rw [degreeSum_zero, degreeSum_zero, getD_apply_zero hr]
  · exact degreeSum_apply_of_low hr hrot hlength (.inl rfl) hl (exists_rotated_one rot _) d
  · exact degreeSum_apply_of_low hr hrot hlength (.inr rfl) hl (exists_rotated_two hrot _) d

theorem build_rotates_quarterTurn : ∃ r : BandRotation ℝ,
    build 2 .quarterTurn = .ok r ∧ 2 ≤ 2 ∧ Mat3.quarterTurn.IsOrthogonal ∧
      reconstruct (r.apply [1, 0, 1, 0, -1, 1, 1, 0, 0]) ⟨1, 0, 1⟩ =
        reconstruct [1, 0, 1, 0, -1, 1, 1, 0, 0] ⟨0, -1, 1⟩ := by
  obtain ⟨r, hr, hrotates⟩ := build_rotates le_rfl Mat3.isOrthogonal_quarterTurn
  refine ⟨r, hr, le_rfl, Mat3.isOrthogonal_quarterTurn, ?_⟩
  rw [hrotates _ rfl]
  congr 1
  simp [Mat3.quarterTurn, Mat3.apply, Mat3.transpose, Mat3.column, Vec3.get, Vec3.dot]

end BandRotation

end RadianceTransfer.Harmonics
