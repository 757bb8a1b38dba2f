import Mathlib
import RadianceTransfer.Proofs.Cubemap.Antipode

/-!
# How much the texels cover

What the rectangle between the center of a face and a point of it covers is an arctangent. As the
point moves along one axis, it grows at a rate that depends on how far the point is along the other
one, and the farther the point is, the larger is the rate. So the strip between two lines covers the
more, the longer it is, on whichever sides of the center the lines are, and every texel, which is
what a strip covers between two other lines, covers something.

## Main statements

* `hasDerivAt_rectangleSolidAngle`: the rate at which a rectangle covers more.
* `strictMono_strip`: a longer strip covers more.
* `Texel.solidAngles_cover`: every texel covers something, and all of them the whole sphere.
-/

namespace RadianceTransfer

/-! ### Rectangles -/

section Rectangles

variable {c : ℝ}

theorem hasDerivAt_div_sqrt (hc : 0 < c) (x : ℝ) :
    HasDerivAt (fun x => x / Real.sqrt (x ^ 2 + c)) (c / Real.sqrt (x ^ 2 + c) ^ 3) x := by
  have hpos : 0 < x ^ 2 + c := by positivity
  have hroot : 0 < Real.sqrt (x ^ 2 + c) := Real.sqrt_pos.2 hpos
  have hsquare : Real.sqrt (x ^ 2 + c) ^ 2 = x ^ 2 + c := Real.sq_sqrt hpos.le
  have hsum : HasDerivAt (fun x => x ^ 2 + c) (2 * x) x := by
    simpa using (hasDerivAt_pow 2 x).add_const c
  refine ((hasDerivAt_id' x).div (hsum.sqrt hpos.ne') hroot.ne').congr_deriv ?_
  field_simp
  linear_combination hsquare

theorem strictMono_div_sqrt (hc : 0 < c) : StrictMono fun x => x / Real.sqrt (x ^ 2 + c) := by
  refine strictMono_of_deriv_pos fun x => ?_
  have hroot : 0 < Real.sqrt (x ^ 2 + c) := Real.sqrt_pos.2 (by positivity)
  rw [(hasDerivAt_div_sqrt hc x).deriv]
  positivity

/-- The point lies to the right of the vertical axis, where the angle is an arctangent. -/
theorem rectangleSolidAngle_eq_arctan (x y : ℝ) :
    rectangleSolidAngle x y = Real.arctan (x * (y / Real.sqrt (y ^ 2 + (x ^ 2 + 1)))) := by
  have hsum : x * x + y * y + 1 = y ^ 2 + (x ^ 2 + 1) := by ring
  have hroot : 0 < Real.sqrt (y ^ 2 + (x ^ 2 + 1)) := Real.sqrt_pos.2 (by positivity)
  have hacute : |Complex.arg ⟨Real.sqrt (y ^ 2 + (x ^ 2 + 1)), x * y⟩| < Real.pi / 2 :=
    Complex.abs_arg_lt_pi_div_two_iff.2 (.inl hroot)
  rw [rectangleSolidAngle, FieldFunctions.one_eq, hsum, ← mul_div_assoc]
  refine (Real.arctan_tan (abs_lt.1 hacute).1 (abs_lt.1 hacute).2).symm.trans ?_
  exact congrArg Real.arctan (Complex.tan_arg _)

/-- The rate at which a rectangle covers more. -/
theorem hasDerivAt_rectangleSolidAngle (x y : ℝ) :
    HasDerivAt (fun y => rectangleSolidAngle x y)
      (x / Real.sqrt (x ^ 2 + (y ^ 2 + 1)) / (y ^ 2 + 1)) y := by
  have hpos : 0 < y ^ 2 + (x ^ 2 + 1) := by positivity
  have hroot : 0 < Real.sqrt (y ^ 2 + (x ^ 2 + 1)) := Real.sqrt_pos.2 hpos
  have hsquare : Real.sqrt (y ^ 2 + (x ^ 2 + 1)) ^ 2 = y ^ 2 + (x ^ 2 + 1) := Real.sq_sqrt hpos.le
  have hsum : x ^ 2 + (y ^ 2 + 1) = y ^ 2 + (x ^ 2 + 1) := by ring
  have hquotient := hasDerivAt_div_sqrt (c := x ^ 2 + 1) (by positivity) y
  simp only [rectangleSolidAngle_eq_arctan]
  refine (hquotient.const_mul x).arctan.congr_deriv ?_
  rw [hsum]
  generalize Real.sqrt (y ^ 2 + (x ^ 2 + 1)) = s at *
  field_simp
  linear_combination -x * hsquare

/-- A strip between two lines covers the more, the longer it is. -/
theorem strictMono_strip {x₀ x₁ : ℝ} (hx : x₀ < x₁) :
    StrictMono fun y => rectangleSolidAngle x₁ y - rectangleSolidAngle x₀ y := by
  refine strictMono_of_deriv_pos fun y => ?_
  have hderiv := (hasDerivAt_rectangleSolidAngle x₁ y).sub (hasDerivAt_rectangleSolidAngle x₀ y)
  have hrate := strictMono_div_sqrt (c := y ^ 2 + 1) (by positivity) hx
  refine lt_of_lt_of_eq ?_ hderiv.deriv.symm
  exact sub_pos.2 (div_lt_div_of_pos_right hrate (by positivity))

end Rectangles

/-! ### Texels -/

variable {width height : Nat}

theorem texelSolidAngle_pos (hwidth : 0 < width) (hheight : 0 < height) (x y : Nat) :
    0 < (texelSolidAngle x y width height : ℝ) := by
  rw [texelSolidAngle_eq, sub_pos]
  exact strictMono_strip (gridLine_strictMono hwidth x.lt_succ_self)
    (gridLine_strictMono hheight y.lt_succ_self)

/-- **The texels cover the sphere.** Every texel covers something, and all texels of the six faces
together cover the whole sphere. -/
theorem Texel.solidAngles_cover (hwidth : 0 < width) (hheight : 0 < height) :
    (∀ x < width, ∀ y < height, 0 < (texelSolidAngle x y width height : ℝ)) ∧
      ∑ t : Texel width height, t.solidAngle = 4 * Real.pi :=
  ⟨fun x _ y _ => texelSolidAngle_pos hwidth hheight x y, sum_solidAngle hwidth hheight⟩

/-- A grid whose middle column is on both sides of the center. -/
theorem Texel.solidAngles_cover_oblong :
    0 < 5 ∧ 0 < 3 ∧ 0 < (texelSolidAngle 2 1 5 3 : ℝ) ∧ 0 < (texelSolidAngle 4 0 5 3 : ℝ) ∧
      ∑ t : Texel 5 3, t.solidAngle = 4 * Real.pi := by
  obtain ⟨hpos, hsum⟩ := Texel.solidAngles_cover (show 0 < 5 by decide) (show 0 < 3 by decide)
  exact ⟨by decide, by decide, hpos 2 (by decide) 1 (by decide), hpos 4 (by decide) 0 (by decide),
    hsum⟩

end RadianceTransfer
