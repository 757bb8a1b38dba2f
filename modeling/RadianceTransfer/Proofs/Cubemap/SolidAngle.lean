import Mathlib
import RadianceTransfer.Cubemap.Face
import RadianceTransfer.Proofs.Field

/-!
# Solid angles of texels

The lines between the texels of a face divide the square from `-1` to `1` evenly. What a texel
covers is a difference, along both axes, of what is covered as far as the lines around it. So the
texels of a face together cover a sixth of the sphere, and texels that lie opposite each other on an
axis of their face cover as much as each other.

## Main definitions

* `gridLine`: the lines between texels.

## Main statements

* `texelCoordinate_rev`, `texelSolidAngle_rev_column`, `texelSolidAngle_rev_row`: both ends of a row
  or a column.
* `sum_texelSolidAngle`: a face covers a sixth of the sphere.
-/

namespace RadianceTransfer

/-! ### Lines -/

/-- The coordinate of the line before a column or a row. -/
noncomputable def gridLine (n i : Nat) : ℝ :=
  2 * i / n - 1

section Lines

variable {n : Nat}

theorem texelCoordinate_eq (i n : Nat) : texelCoordinate i n = (2 * i + 1) / n - (1 : ℝ) := by
  have htwo : (@OfNat.ofNat ℝ 2 (Scalar.instOfNat 2)) = 2 := Nat.cast_ofNat
  have hhalf : (@OfScientific.ofScientific ℝ Scalar.toOfScientific 5 true 1) = 1 / 2 := by
    show (0.5 : ℝ) = 1 / 2
    norm_num
  rw [texelCoordinate, htwo, hhalf, FieldFunctions.one_eq]
  show 2 * ((i : ℝ) + 1 / 2) / n - 1 = _
  ring

theorem texelCoordinate_injective (i j : Fin n)
    (h : (texelCoordinate i n : ℝ) = texelCoordinate j n) : i = j := by
  have hne : (n : ℝ) ≠ 0 := Nat.cast_ne_zero.2 i.pos.ne'
  rw [texelCoordinate_eq, texelCoordinate_eq, sub_left_inj, div_left_inj' hne, add_left_inj] at h
  exact Fin.ext (Nat.cast_injective (mul_left_cancel₀ two_ne_zero h))

/-- The centers lie inside. -/
theorem abs_texelCoordinate_lt (i : Fin n) : |(texelCoordinate i n : ℝ)| < 1 := by
  have hpos : (0 : ℝ) < n := Nat.cast_pos.2 i.pos
  have hi : (i : ℝ) + 1 ≤ n := by exact_mod_cast i.isLt
  have hlower : 0 < (2 * (i : ℝ) + 1) / n := by positivity
  have hupper : (2 * (i : ℝ) + 1) / n < 2 := by
    rw [div_lt_iff₀ hpos]
    linarith
  rw [texelCoordinate_eq, abs_lt]
  constructor <;> linarith

theorem texelCoordinate_sub (i : Nat) :
    (texelCoordinate i n : ℝ) - 1 / Scalar.ofNat n = gridLine n i := by
  rw [texelCoordinate_eq, gridLine]
  show (2 * i + 1) / (n : ℝ) - 1 - 1 / n = _
  ring

theorem texelCoordinate_add (i : Nat) :
    (texelCoordinate i n : ℝ) + 1 / Scalar.ofNat n = gridLine n (i + 1) := by
  rw [texelCoordinate_eq, gridLine]
  show (2 * i + 1) / (n : ℝ) - 1 + 1 / n = _
  push_cast
  ring

theorem gridLine_zero (n : Nat) : gridLine n 0 = -1 := by
  rw [gridLine, Nat.cast_zero, mul_zero, zero_div, zero_sub]

theorem gridLine_last (hn : 0 < n) : gridLine n n = 1 := by
  have hne : (n : ℝ) ≠ 0 := Nat.cast_ne_zero.2 hn.ne'
  rw [gridLine, mul_div_cancel_right₀ _ hne]
  norm_num

theorem gridLine_strictMono (hn : 0 < n) : StrictMono (gridLine n) := by
  intro i j hij
  have hpos : (0 : ℝ) < n := Nat.cast_pos.2 hn
  have hcast : (i : ℝ) < j := Nat.cast_lt.2 hij
  rw [gridLine, gridLine]
  gcongr

/-- The lines are as far from one end as from the other. -/
theorem gridLine_sub {i : Nat} (hi : i ≤ n) (hn : 0 < n) : gridLine n (n - i) = -gridLine n i := by
  have hne : (n : ℝ) ≠ 0 := Nat.cast_ne_zero.2 hn.ne'
  rw [gridLine, gridLine, Nat.cast_sub hi]
  field_simp
  ring

theorem texelCoordinate_rev (i : Fin n) :
    (texelCoordinate i.rev n : ℝ) = -texelCoordinate i n := by
  have hne : (n : ℝ) ≠ 0 := Nat.cast_ne_zero.2 i.pos.ne'
  rw [texelCoordinate_eq, texelCoordinate_eq, Fin.val_rev, Nat.cast_sub i.isLt]
  push_cast
  field_simp
  ring

end Lines

/-! ### Rectangles -/

section Rectangles

variable (x y : ℝ)

theorem rectangleSolidAngle_eq : rectangleSolidAngle x y =
    Real.arcsin (x * y / ‖(⟨Real.sqrt (x * x + y * y + 1), x * y⟩ : ℂ)‖) := by
  rw [rectangleSolidAngle, FieldFunctions.one_eq]
  exact Complex.arg_of_re_nonneg (Real.sqrt_nonneg _)

theorem rectangleSolidAngle_neg_right : rectangleSolidAngle x (-y) = -rectangleSolidAngle x y := by
  have hnorm (r s : ℝ) : ‖(⟨r, -s⟩ : ℂ)‖ = ‖(⟨r, s⟩ : ℂ)‖ :=
    Complex.norm_conj ⟨r, s⟩
  rw [rectangleSolidAngle_eq, rectangleSolidAngle_eq, mul_neg, neg_mul_neg, hnorm, neg_div,
    Real.arcsin_neg]

theorem rectangleSolidAngle_comm : rectangleSolidAngle x y = rectangleSolidAngle y x := by
  rw [rectangleSolidAngle_eq, rectangleSolidAngle_eq, mul_comm x y, add_comm (x * x)]

theorem rectangleSolidAngle_neg_left : rectangleSolidAngle (-x) y = -rectangleSolidAngle x y := by
  rw [rectangleSolidAngle_comm, rectangleSolidAngle_neg_right, rectangleSolidAngle_comm]

/-- The quarter of a face at one of its corners. -/
theorem rectangleSolidAngle_one_one : rectangleSolidAngle (1 : ℝ) 1 = Real.pi / 6 := by
  have hroot : 2 * (Real.sqrt 3 / 2) = Real.sqrt 3 := by ring
  have hpoint : (⟨Real.sqrt 3, 1⟩ : ℂ) =
      ((2 : ℝ) : ℂ) *
        (Complex.cos (Real.pi / 6 : ℝ) + Complex.sin (Real.pi / 6 : ℝ) * Complex.I) := by
    rw [← Complex.ofReal_cos, ← Complex.ofReal_sin, Real.cos_pi_div_six, Real.sin_pi_div_six]
    apply Complex.ext <;> simp [hroot]
  have hrange : Real.pi / 6 ∈ Set.Ioc (-Real.pi) Real.pi := by
    constructor <;> linarith [Real.pi_pos]
  have hthree : (1 : ℝ) * 1 + 1 * 1 + 1 = 3 := by norm_num
  have hangle : rectangleSolidAngle (1 : ℝ) 1 =
      Complex.arg ⟨Real.sqrt (1 * 1 + 1 * 1 + 1), 1 * 1⟩ := by
    rw [rectangleSolidAngle, FieldFunctions.one_eq]
    rfl
  rw [hangle, hthree, one_mul, hpoint, Complex.arg_mul_cos_add_sin_mul_I two_pos hrange]

end Rectangles

/-! ### Texels -/

section Texels

variable {width height : Nat}

/-- What a texel covers, by the lines around it. -/
theorem texelSolidAngle_eq (x y width height : Nat) :
    texelSolidAngle x y width height =
      (rectangleSolidAngle (gridLine width (x + 1)) (gridLine height (y + 1)) -
          rectangleSolidAngle (gridLine width x) (gridLine height (y + 1))) -
        (rectangleSolidAngle (gridLine width (x + 1)) (gridLine height y) -
          rectangleSolidAngle (gridLine width x) (gridLine height y)) := by
  rw [texelSolidAngle, FieldFunctions.one_eq]
  simp only [texelCoordinate_sub, texelCoordinate_add]
  ring

theorem gridLine_rev {n : Nat} (i : Fin n) : gridLine n i.rev = -gridLine n (i + 1) := by
  rw [← gridLine_sub i.isLt i.pos, Fin.val_rev]

theorem gridLine_rev_succ {n : Nat} (i : Fin n) : gridLine n (i.rev + 1) = -gridLine n i := by
  have hi := i.isLt
  rw [← gridLine_sub i.isLt.le i.pos, Fin.val_rev]
  congr 1
  omega

theorem texelSolidAngle_rev_column (x : Fin width) (y : Nat) :
    (texelSolidAngle x.rev y width height : ℝ) = texelSolidAngle x y width height := by
  simp only [texelSolidAngle_eq, gridLine_rev, gridLine_rev_succ, rectangleSolidAngle_neg_left]
  ring

theorem texelSolidAngle_rev_row (x : Nat) (y : Fin height) :
    (texelSolidAngle x y.rev width height : ℝ) = texelSolidAngle x y width height := by
  simp only [texelSolidAngle_eq, gridLine_rev, gridLine_rev_succ, rectangleSolidAngle_neg_right]
  ring

/-- The texels of a face cover a sixth of the sphere: what they cover adds up to what lies between
the outermost lines. -/
theorem sum_texelSolidAngle (hwidth : 0 < width) (hheight : 0 < height) :
    ∑ y : Fin height, ∑ x : Fin width, (texelSolidAngle x y width height : ℝ) =
      4 * Real.pi / 6 := by
  have hrow (r : ℝ) : ∑ x : Fin width, (rectangleSolidAngle (gridLine width (x + 1)) r -
      rectangleSolidAngle (gridLine width x) r) = 2 * rectangleSolidAngle 1 r := by
    rw [Fin.sum_univ_eq_sum_range fun x => rectangleSolidAngle (gridLine width (x + 1)) r -
      rectangleSolidAngle (gridLine width x) r,
      Finset.sum_range_sub fun x => rectangleSolidAngle (gridLine width x) r,
      gridLine_last hwidth, gridLine_zero, rectangleSolidAngle_neg_left]
    ring
  calc ∑ y : Fin height, ∑ x : Fin width, (texelSolidAngle x y width height : ℝ)
      = ∑ y : Fin height, (2 * rectangleSolidAngle 1 (gridLine height (y + 1)) -
          2 * rectangleSolidAngle 1 (gridLine height y)) := by
        refine Finset.sum_congr rfl fun y _ => ?_
        simp only [texelSolidAngle_eq]
        rw [Finset.sum_sub_distrib, hrow, hrow]
    _ = 2 * rectangleSolidAngle 1 1 - 2 * rectangleSolidAngle 1 (-1) := by
        rw [Fin.sum_univ_eq_sum_range fun y => 2 * rectangleSolidAngle 1 (gridLine height (y + 1)) -
          2 * rectangleSolidAngle 1 (gridLine height y),
          Finset.sum_range_sub fun y => 2 * rectangleSolidAngle 1 (gridLine height y),
          gridLine_last hheight, gridLine_zero]
    _ = 4 * Real.pi / 6 := by
        rw [rectangleSolidAngle_neg_right, rectangleSolidAngle_one_one]
        ring

end Texels

end RadianceTransfer
