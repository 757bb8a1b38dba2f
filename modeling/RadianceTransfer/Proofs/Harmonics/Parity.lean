import Mathlib
import RadianceTransfer.Harmonics.Basis
import RadianceTransfer.Proofs.Harmonics.Spherical

/-!
# Parity

In the opposite direction a basis function has the same value if its degree is even, and the
opposite one if it is odd. For the polynomials of the low degrees this is seen term by term. Above
them, the cosine of the polar angle changes its sign and the azimuth moves by half a turn, which
changes the signs of the two factors that depend on them: the Legendre function by the parity of the
degree minus the order, the function of the azimuth by that of the order. On the third axis, where
there is no azimuth to move, the functions that would depend on it vanish.

The length of the direction does not matter, since the direction is made a unit vector first.

## Main statements

* `legendre_neg`, `legendre_eq_zero`: the Legendre functions.
* `cos_azimuth_neg`, `sin_azimuth_neg`: the azimuth of the opposite direction.
* `eval_neg`, `eval_scale`: the basis functions.
* `eval_parity`: both, for functions given by numbers and by words.
-/

namespace RadianceTransfer

namespace Harmonics

/-! ### Legendre functions -/

section Legendre

variable {l m : Nat} {x : ℝ}

theorem legendreDiagonal_neg (m : Nat) (x : ℝ) :
    legendreDiagonal m (-x) = legendreDiagonal m x := by
  rw [legendreDiagonal, legendreDiagonal, neg_mul_neg]

theorem legendrePair_neg (m : Nat) (x : ℝ) (k : Nat) :
    legendrePair m (-x) k =
      ((-1) ^ k * (legendrePair m x k).1, (-1) ^ (k + 1) * (legendrePair m x k).2) := by
  induction k with
  | zero =>
    rw [legendrePair, legendrePair, legendreDiagonal_neg]
    exact Prod.ext (by ring) (by ring)
  | succ k ih =>
    rw [legendrePair, legendrePair, ih]
    exact Prod.ext rfl (by ring)

/-- A Legendre function is even or odd as its degree minus its order is. -/
theorem legendre_neg (h : m ≤ l) (x : ℝ) :
    legendre l m (-x) = (-1) ^ (l - m) * legendre l m x := by
  rw [legendre, legendre]
  split_ifs with heq
  · rw [legendreDiagonal_neg, heq, Nat.sub_self, pow_zero, one_mul]
  · have hk : l - m - 1 + 1 = l - m := by omega
    rw [legendrePair_neg, hk]

theorem legendreDiagonal_eq_zero (hm : 0 < m) (hx : x * x = 1) : legendreDiagonal m x = 0 := by
  have hhalf : (m : ℝ) / (2 : Nat) ≠ 0 := by positivity
  have hpow : Scalar.pow 0 (Scalar.ofNat m / Scalar.ofNat 2) = (0 : ℝ) := Real.zero_rpow hhalf
  rw [legendreDiagonal, FieldFunctions.one_eq, FieldFunctions.zero_eq, Scalar.maxNumber_eq, hx,
    sub_self, max_self]
  show (if m % 2 = 1 then -(_ * Scalar.pow 0 (Scalar.ofNat m / Scalar.ofNat 2)) else
    _ * Scalar.pow 0 (Scalar.ofNat m / Scalar.ofNat 2)) = (0 : ℝ)
  rw [hpow, mul_zero, neg_zero, ite_self]

/-- At both ends of the interval the functions vanish, except for those of order zero. -/
theorem legendre_eq_zero (hm : 0 < m) (hx : x * x = 1) : legendre l m x = 0 := by
  have hpair (k : Nat) : legendrePair m x k = (0, 0) := by
    induction k with
    | zero =>
      rw [legendrePair, legendreDiagonal_eq_zero hm hx]
      exact Prod.ext rfl (mul_zero _)
    | succ k ih =>
      rw [legendrePair, ih]
      exact Prod.ext rfl (by ring)
  rw [legendre, hpair, legendreDiagonal_eq_zero hm hx, ite_self]

end Legendre

/-! ### The azimuth -/

section Azimuth

variable {u : Vec3 ℝ}

/-- In the opposite direction the azimuth has moved by half a turn. -/
theorem exp_azimuth_neg (hu : u.lengthSquared = 1) (hxy : (⟨u.x, u.y⟩ : ℂ) ≠ 0) :
    Complex.exp ((toSpherical (-u)).1 * Complex.I) =
      -Complex.exp ((toSpherical u).1 * Complex.I) := by
  have hu' : (-u).lengthSquared = 1 := (Vec3.lengthSquared_neg u).trans hu
  have hneg : (⟨(-u).x, (-u).y⟩ : ℂ) = -⟨u.x, u.y⟩ := rfl
  have h := exp_azimuth hu'
  rw [hneg, norm_neg] at h
  refine mul_left_cancel₀ (Complex.ofReal_ne_zero.2 (norm_ne_zero_iff.2 hxy)) ?_
  rw [h, mul_neg, exp_azimuth hu]

/-- So has a multiple of it, by as many half turns. -/
theorem exp_mul_azimuth_neg (hu : u.lengthSquared = 1) (hxy : (⟨u.x, u.y⟩ : ℂ) ≠ 0) (k : Nat) :
    Complex.exp ((k * (toSpherical (-u)).1 : ℝ) * Complex.I) =
      ((-1) ^ k : ℝ) * Complex.exp ((k * (toSpherical u).1 : ℝ) * Complex.I) := by
  have hpower (phi : ℝ) : Complex.exp ((k * phi : ℝ) * Complex.I) =
      Complex.exp (phi * Complex.I) ^ k := by
    rw [← Complex.exp_nat_mul]
    push_cast
    ring_nf
  rw [hpower, hpower, exp_azimuth_neg hu hxy, neg_pow]
  push_cast
  rfl

theorem cos_azimuth_neg (hu : u.lengthSquared = 1) (hxy : (⟨u.x, u.y⟩ : ℂ) ≠ 0) (k : Nat) :
    Real.cos (k * (toSpherical (-u)).1) = (-1) ^ k * Real.cos (k * (toSpherical u).1) := by
  have h := congrArg Complex.re (exp_mul_azimuth_neg hu hxy k)
  rwa [Complex.re_ofReal_mul, Complex.exp_ofReal_mul_I_re, Complex.exp_ofReal_mul_I_re] at h

theorem sin_azimuth_neg (hu : u.lengthSquared = 1) (hxy : (⟨u.x, u.y⟩ : ℂ) ≠ 0) (k : Nat) :
    Real.sin (k * (toSpherical (-u)).1) = (-1) ^ k * Real.sin (k * (toSpherical u).1) := by
  have h := congrArg Complex.im (exp_mul_azimuth_neg hu hxy k)
  rwa [Complex.im_ofReal_mul, Complex.exp_ofReal_mul_I_im, Complex.exp_ofReal_mul_I_im] at h

end Azimuth

/-! ### Basis functions -/

theorem evalPolynomial_neg {l : Nat} (hl : l ≤ 2) {m : Int} (hm : m.natAbs ≤ l) (u : Vec3 ℝ) :
    evalPolynomial l m (-u) = (-1) ^ l * evalPolynomial l m u := by
  have hneg : -u = ⟨-u.x, -u.y, -u.z⟩ := rfl
  rw [hneg]
  have hlower : -(l : Int) ≤ m := by omega
  have hupper : m ≤ l := by omega
  interval_cases l <;> interval_cases m <;> simp only [evalPolynomial] <;> ring

/-- The Legendre function and the function of the azimuth change their signs with the degree minus
the order and with the order, so their product does with the degree. -/
theorem mul_signs {l k : Nat} (hk : k ≤ l) (n f p : ℝ) :
    n * ((-1) ^ k * f) * ((-1) ^ (l - k) * p) = (-1) ^ l * (n * f * p) := by
  have hsigns : (-1 : ℝ) ^ k * (-1) ^ (l - k) = (-1) ^ l := by
    rw [← pow_add, Nat.add_sub_cancel' hk]
  linear_combination n * f * p * hsigns

theorem evalGeneral_neg {l : Nat} {m : Int} (hm : m.natAbs ≤ l) {u : Vec3 ℝ}
    (hu : u.lengthSquared = 1) :
    evalGeneral l m (toSpherical (-u)).1 (toSpherical (-u)).2 =
      (-1) ^ l * evalGeneral l m (toSpherical u).1 (toSpherical u).2 := by
  have hcos : Scalar.cos (toSpherical u).2 = u.z := cos_toSpherical hu
  have hcos' : Scalar.cos (toSpherical (-u)).2 = -u.z :=
    cos_toSpherical ((Vec3.lengthSquared_neg u).trans hu)
  rw [evalGeneral, evalGeneral, hcos, hcos', legendre_neg hm]
  rcases eq_or_ne m 0 with rfl | hm0
  · simp only [lt_irrefl, if_false, Int.natAbs_zero, Nat.sub_zero]
    ring
  by_cases hxy : (⟨u.x, u.y⟩ : ℂ) = 0
  · have hz : u.z * u.z = 1 := by
      have hx : u.x = 0 := congrArg Complex.re hxy
      have hy : u.y = 0 := congrArg Complex.im hxy
      rw [Vec3.lengthSquared_eq, hx, hy] at hu
      linear_combination hu
    rw [legendre_eq_zero (Int.natAbs_pos.2 hm0) hz]
    simp only [mul_zero, ite_self]
  · have hcosine := cos_azimuth_neg hu hxy m.natAbs
    have hsine := sin_azimuth_neg hu hxy m.natAbs
    split_ifs
    · exact (congrArg (_ * · * _) hcosine).trans (mul_signs hm _ _ _)
    · exact (congrArg (_ * · * _) hsine).trans (mul_signs hm _ _ _)
    · omega

/-- A basis function is even or odd as its degree is. -/
theorem eval_neg {l : Nat} {m : Int} (hm : m.natAbs ≤ l) {d : Vec3 ℝ} (hd : d ≠ ⟨0, 0, 0⟩) :
    eval l m (-d) = (-1) ^ l * eval l m d := by
  rw [eval, eval, Vec3.normalize_neg]
  split_ifs with hl
  · exact evalPolynomial_neg hl hm d.normalize
  · exact evalGeneral_neg hm (Vec3.lengthSquared_normalize hd)

theorem eval_scale (l : Nat) (m : Int) {s : ℝ} (hs : 0 < s) (d : Vec3 ℝ) :
    eval l m (d.scale s) = eval l m d := by
  rw [eval, eval, Vec3.normalize_scale hs]

/-- **A basis function is even or odd as its degree is, and does not see how long a direction is.**
This holds at every degree and order, and in every direction, the axes and both poles included. With
the degree given as a word, the function is refused in the one direction exactly if it is in the
others, and else has these values. -/
theorem eval_parity {d : Vec3 ℝ} (hd : d ≠ ⟨0, 0, 0⟩) {s : ℝ} (hs : 0 < s) :
    (∀ (l : Nat) (m : Int), m.natAbs ≤ l →
      eval l m (d.scale s) = eval l m d ∧ eval l m (-d) = (-1) ^ l * eval l m d) ∧
    ∀ (l : UInt32) (m : Int),
      eval? l m (d.scale s) = eval? l m d ∧
        eval? l m (-d) = (eval? l m d).map ((-1) ^ l.toNat * ·) := by
  refine ⟨fun l m hm => ⟨eval_scale l m hs d, eval_neg hm hd⟩, fun l m => ⟨?_, ?_⟩⟩
  · rw [eval?, eval?, eval_scale l.toNat m hs d]
  · rw [eval?, eval?]
    split_ifs with hm hword
    · rfl
    · exact congrArg Except.ok (eval_neg (not_lt.1 hm) hd)
    · rfl

/-- On the negative first axis the azimuth is half a turn, and opposite to it there is none. -/
theorem eval_parity_first_axis :
    let d : Vec3 ℝ := ⟨-2, 0, 0⟩
    d ≠ ⟨0, 0, 0⟩ ∧ (0 : ℝ) < 3 ∧ (-3 : Int).natAbs ≤ 5 ∧
      eval 5 (-3) (d.scale 3) = eval 5 (-3) d ∧ eval 5 (-3) (-d) = (-1) ^ 5 * eval 5 (-3) d := by
  intro d
  have hd : d ≠ ⟨0, 0, 0⟩ := fun h => by simpa [d] using congrArg Vec3.x h
  have hm : (-3 : Int).natAbs ≤ 5 := by decide
  exact ⟨hd, three_pos, hm, (eval_parity hd three_pos).1 5 (-3) hm⟩

end Harmonics

end RadianceTransfer
