import Mathlib
import RadianceTransfer.Proofs.Harmonics.Parity

/-!
# What the recurrences compute

The products that a basis function is normalized with are factorials, and the product in front of a
Legendre function is a double factorial. Where the sine of the polar angle is known, the Legendre
function whose degree equals its order is a power of it. From there on the recurrence in the degree
holds as it is written: the two values that are carried along are those of consecutive degrees.

## Main statements

* `factorial_eq`, `doubleFactorial_eq`, `normalization_eq`: the factors.
* `legendreDiagonal_eq`: the degree is the order.
* `legendre_succ_self`, `legendre_add_two`: the recurrence in the degree.
-/

namespace RadianceTransfer.Harmonics

/-! ### Products -/

theorem factorial_eq (n : Nat) : (factorial n : ℝ) = n.factorial := by
  induction n with
  | zero => exact FieldFunctions.one_eq.trans Nat.cast_one.symm
  | succ n ih =>
    rw [factorial, ih, Nat.factorial_succ, mul_comm (n + 1), Nat.cast_mul]
    rfl

theorem mulDoubleFactorial_eq (r : ℝ) (n : Nat) :
    mulDoubleFactorial r n = r * n.doubleFactorial := by
  induction n using Nat.twoStepInduction generalizing r with
  | zero => rw [mulDoubleFactorial, Nat.doubleFactorial, Nat.cast_one, mul_one]
  | one => rw [mulDoubleFactorial, Nat.doubleFactorial, Nat.cast_one, mul_one]
  | more n ih _ =>
    rw [mulDoubleFactorial, ih, Nat.doubleFactorial, Nat.cast_mul, ← mul_assoc]
    rfl

theorem doubleFactorial_eq (n : Nat) : (doubleFactorial n : ℝ) = n.doubleFactorial := by
  rw [doubleFactorial, mulDoubleFactorial_eq, FieldFunctions.one_eq, one_mul]

theorem normalization_eq (l m : Nat) : (normalization l m : ℝ) =
    Real.sqrt ((2 * l + 1) * (l - m).factorial / (4 * Real.pi * (l + m).factorial)) := by
  have hfour : ((4 : ℕ) : ℝ) = 4 := Nat.cast_ofNat
  have hodd : ((2 * l + 1 : ℕ) : ℝ) = 2 * l + 1 := by push_cast; rfl
  rw [normalization, factorial_eq, factorial_eq, ← hfour, ← hodd]
  rfl

/-! ### Legendre functions -/

/-- The function whose degree equals its order, where `s` is the sine that goes with a cosine. -/
theorem legendreDiagonal_eq (m : Nat) {x s : ℝ} (hs : 0 ≤ s) (h : s ^ 2 + x ^ 2 = 1) :
    legendreDiagonal m x = (-1) ^ m * (2 * m - 1).doubleFactorial * s ^ m := by
  have hbase : max (1 - x * x) 0 = s ^ 2 := by
    have hsquare : 1 - x * x = s ^ 2 := by linear_combination -h
    rw [hsquare, max_eq_left (sq_nonneg s)]
  have hpower : Scalar.pow (s ^ 2) (Scalar.ofNat m / Scalar.ofNat 2) = s ^ m := by
    show (s ^ 2) ^ ((m : ℝ) / (2 : ℕ)) = s ^ m
    rw [← Real.rpow_natCast s 2, ← Real.rpow_mul hs, mul_div_cancel₀ _ (by norm_num),
      Real.rpow_natCast]
  have hproduct : legendreDiagonal m x =
      if m % 2 = 1 then -((2 * m - 1).doubleFactorial * s ^ m)
      else (2 * m - 1).doubleFactorial * s ^ m := by
    rw [legendreDiagonal, doubleFactorial_eq, FieldFunctions.one_eq, FieldFunctions.zero_eq,
      Scalar.maxNumber_eq, hbase, ← hpower]
    rfl
  rw [hproduct]
  split_ifs with hodd
  · rw [(Nat.odd_iff.2 hodd).neg_one_pow]
    ring
  · rw [(Nat.not_odd_iff_even.1 (mt Nat.odd_iff.1 hodd)).neg_one_pow]
    ring

theorem legendre_self (m : Nat) (x : ℝ) : legendre m m x = legendreDiagonal m x :=
  if_pos rfl

/-- The recurrence carries along the functions of two consecutive degrees. -/
theorem legendrePair_eq (m : Nat) (x : ℝ) (k : Nat) :
    legendrePair m x k = (legendre (m + k) m x, legendre (m + k + 1) m x) := by
  have hnewer (k : Nat) : legendre (m + k + 1) m x = (legendrePair m x k).2 := by
    have hsteps : m + k + 1 - m - 1 = k := by omega
    rw [legendre, if_neg (by omega), hsteps]
  rw [hnewer]
  cases k with
  | zero =>
    rw [Nat.add_zero, legendre_self]
    rfl
  | succ k =>
    rw [← Nat.add_assoc, hnewer]
    rfl

theorem legendre_succ_self (m : Nat) (x : ℝ) :
    legendre (m + 1) m x = x * (2 * m + 1) * legendre m m x := by
  have hpair := congrArg Prod.snd (legendrePair_eq m x 0)
  have hodd : ((2 * m + 1 : ℕ) : ℝ) = 2 * m + 1 := by push_cast; rfl
  rw [legendre_self, ← hodd]
  exact hpair.symm

theorem legendre_add_two (m k : Nat) (x : ℝ) :
    legendre (m + k + 2) m x = ((2 * (m + k) + 3) * x * legendre (m + k + 1) m x -
      (2 * m + k + 1) * legendre (m + k) m x) / (k + 2) := by
  have hpair := congrArg Prod.snd (legendrePair_eq m x (k + 1))
  rw [legendrePair, legendrePair_eq] at hpair
  -- the factors of the recurrence are differences of whole numbers
  have hnewer : ((2 * (m + k + 2) - 1 : ℕ) : ℝ) = 2 * (m + k) + 3 := by
    rw [show 2 * (m + k + 2) - 1 = 2 * (m + k) + 3 by omega]
    push_cast
    rfl
  have holder : ((m + k + 2 + m - 1 : ℕ) : ℝ) = 2 * m + k + 1 := by
    rw [show m + k + 2 + m - 1 = 2 * m + k + 1 by omega]
    push_cast
    rfl
  have hdivisor : ((m + k + 2 - m : ℕ) : ℝ) = k + 2 := by
    rw [show m + k + 2 - m = k + 2 by omega]
    push_cast
    rfl
  rw [← hnewer, ← holder, ← hdivisor]
  exact hpair.symm

end RadianceTransfer.Harmonics
