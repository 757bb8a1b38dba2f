import Mathlib
import RadianceTransfer.Proofs.Harmonics.Legendre

/-!
# Legendre functions and derivatives of Legendre polynomials

The Legendre polynomials come from a recurrence in the degree that starts from one and the variable.
The Legendre functions of the basis come from another one: for each order it starts from a double
factorial times a power of the sine, and the two values carried along belong to the two degrees
before. Both meet in the derivatives of the polynomials. From degree to degree the polynomials
satisfy two identities in which they stand beside their first derivatives, and these, differentiated
as often as the order says, are the start and the step of the recurrence for the functions.

## Main definitions

* `legendrePolynomial`: the Legendre polynomials.

## Main statements

* `derivative_legendrePolynomial`: the two identities.
* `iterate_derivative_self`, `iterate_derivative_succ_self`, `iterate_derivative_add_two`: the
  derivatives of some order satisfy the recurrence of the functions.
* `legendre_eq_iteratedDeriv`: what the recurrence computes.
-/

namespace RadianceTransfer.Harmonics

open Polynomial
open scoped Nat

/-- The Legendre polynomials, by `(n + 2) P_{n+2} = (2 n + 3) x P_{n+1} - (n + 1) P_n`. -/
noncomputable def legendrePolynomial : ℕ → ℝ[X]
  | 0 => 1
  | 1 => X
  | n + 2 => C ((n + 2 : ℕ) : ℝ)⁻¹ *
      (((2 * n + 3 : ℕ) : ℝ[X]) * X * legendrePolynomial (n + 1) -
        ((n + 1 : ℕ) : ℝ[X]) * legendrePolynomial n)

@[simp] theorem legendrePolynomial_zero : legendrePolynomial 0 = 1 := by
  rw [legendrePolynomial]

@[simp] theorem legendrePolynomial_one : legendrePolynomial 1 = X := by
  rw [legendrePolynomial]

theorem legendrePolynomial_add_two (n : ℕ) :
    (n + 2 : ℝ[X]) * legendrePolynomial (n + 2) =
      (2 * n + 3 : ℝ[X]) * X * legendrePolynomial (n + 1) -
        (n + 1 : ℝ[X]) * legendrePolynomial n := by
  have hcast : (n + 2 : ℝ[X]) = C ((n + 2 : ℕ) : ℝ) := by simp [map_ofNat]
  have hne : ((n + 2 : ℕ) : ℝ) ≠ 0 := by positivity
  rw [legendrePolynomial, hcast, ← mul_assoc, ← C_mul, mul_inv_cancel₀ hne, C_1, one_mul]
  push_cast
  rfl

/-! ### First derivatives -/

/-- The polynomials of two consecutive degrees and their derivatives. Either identity for the next
degree takes both for the one before. -/
theorem derivative_legendrePolynomial (n : ℕ) :
    X * derivative (legendrePolynomial (n + 1)) - derivative (legendrePolynomial n) =
        (n + 1 : ℝ[X]) * legendrePolynomial (n + 1) ∧
      derivative (legendrePolynomial (n + 1)) - X * derivative (legendrePolynomial n) =
        (n + 1 : ℝ[X]) * legendrePolynomial n := by
  induction n with
  | zero => simp
  | succ n ih =>
    obtain ⟨hlower, hraise⟩ := ih
    have hne : (n + 2 : ℝ[X]) ≠ 0 := by
      exact_mod_cast Nat.succ_ne_zero (n + 1)
    have hstep := legendrePolynomial_add_two n
    have hderivative := congrArg derivative hstep
    simp only [derivative_mul, derivative_sub, derivative_add, derivative_natCast,
      derivative_ofNat, derivative_one, derivative_X] at hderivative
    have hnext : derivative (legendrePolynomial (n + 2)) =
        X * derivative (legendrePolynomial (n + 1)) +
          (n + 2 : ℝ[X]) * legendrePolynomial (n + 1) := by
      refine mul_left_cancel₀ hne ?_
      linear_combination hderivative + (n + 1 : ℝ[X]) * hlower
    push_cast
    constructor
    · rw [hnext]
      linear_combination X * hlower - hraise - hstep
    · rw [hnext]
      ring

/-! ### Derivatives of any order -/

/-- Both identities, differentiated. -/
theorem iterate_derivative_legendrePolynomial (m n : ℕ) :
    X * derivative^[m + 1] (legendrePolynomial (n + 1)) -
          derivative^[m + 1] (legendrePolynomial n) =
        (n + 1 - m : ℝ[X]) * derivative^[m] (legendrePolynomial (n + 1)) ∧
      derivative^[m + 1] (legendrePolynomial (n + 1)) -
          X * derivative^[m + 1] (legendrePolynomial n) =
        (n + 1 + m : ℝ[X]) * derivative^[m] (legendrePolynomial n) := by
  have hcast : (n + 1 : ℝ[X]) = (n + 1 : ℕ) := by push_cast; rfl
  have hsucc (p : ℝ[X]) : derivative^[m] (derivative p) = derivative^[m + 1] p := rfl
  obtain ⟨hlower, hraise⟩ := derivative_legendrePolynomial n
  constructor
  · have h := congrArg derivative^[m] hlower
    rw [hcast, iterate_derivative_sub, mul_comm X, iterate_derivative_derivative_mul_X,
      iterate_derivative_natCast_mul, hsucc, nsmul_eq_mul, ← hcast] at h
    linear_combination h
  · have h := congrArg derivative^[m] hraise
    rw [hcast, iterate_derivative_sub, mul_comm X, iterate_derivative_derivative_mul_X,
      iterate_derivative_natCast_mul, hsucc, nsmul_eq_mul, ← hcast] at h
    linear_combination h

/-- If the order is the degree, the derivative is a constant, so the next one vanishes. -/
theorem iterate_derivative_self (m : ℕ) :
    derivative^[m] (legendrePolynomial m) = C ((2 * m - 1)‼ : ℝ) := by
  induction m with
  | zero => simp
  | succ m ih =>
    have hvanish : derivative^[m + 1] (legendrePolynomial m) = 0 := by
      rw [Function.iterate_succ_apply', ih, derivative_C]
    have hfactorial : ((2 * (m + 1) - 1)‼ : ℝ) = (2 * m + 1) * (2 * m - 1)‼ := by
      cases m with
      | zero => simp
      | succ m => exact_mod_cast Nat.doubleFactorial_add_two (2 * m + 1)
    have hraise := (iterate_derivative_legendrePolynomial m m).2
    rw [hvanish, ih] at hraise
    rw [hfactorial, C_mul]
    simp only [C_add, C_mul, map_natCast, map_ofNat, C_1] at hraise ⊢
    linear_combination hraise

theorem iterate_derivative_succ_self (m : ℕ) : derivative^[m] (legendrePolynomial (m + 1)) =
    (2 * m + 1 : ℝ[X]) * X * derivative^[m] (legendrePolynomial m) := by
  have hvanish : derivative^[m + 1] (legendrePolynomial m) = 0 := by
    rw [Function.iterate_succ_apply', iterate_derivative_self, derivative_C]
  obtain ⟨hlower, hraise⟩ := iterate_derivative_legendrePolynomial m m
  rw [hvanish] at hlower hraise
  linear_combination X * hraise - hlower

/-- The recurrence in the degree. It needs no other derivatives than those of the order. -/
theorem iterate_derivative_add_two (m n : ℕ) :
    (n + 2 - m : ℝ[X]) * derivative^[m] (legendrePolynomial (n + 2)) =
      (2 * n + 3 : ℝ[X]) * X * derivative^[m] (legendrePolynomial (n + 1)) -
        (n + 1 + m : ℝ[X]) * derivative^[m] (legendrePolynomial n) := by
  obtain ⟨hlower, hraise⟩ := iterate_derivative_legendrePolynomial m n
  obtain ⟨hlower', hraise'⟩ := iterate_derivative_legendrePolynomial m (n + 1)
  push_cast at hlower' hraise'
  linear_combination X * hlower - hraise + X * hraise' - hlower'

/-! ### Legendre functions -/

theorem iteratedDeriv_eval (p : ℝ[X]) (m : ℕ) :
    iteratedDeriv m (fun x => p.eval x) = fun x => (derivative^[m] p).eval x := by
  induction m with
  | zero => simp
  | succ m ih =>
    rw [iteratedDeriv_succ, ih, Function.iterate_succ_apply']
    funext x
    exact Polynomial.deriv _

/-- A Legendre function whose degree exceeds its order by `k`, where `s` is the sine that goes with
a cosine. -/
theorem legendre_add_eq (m k : ℕ) {x s : ℝ} (hs : 0 ≤ s) (h : s ^ 2 + x ^ 2 = 1) :
    legendre (m + k) m x =
      (-1) ^ m * s ^ m * (derivative^[m] (legendrePolynomial (m + k))).eval x := by
  -- the step takes the two degrees before, as the recurrence does
  induction k using Nat.twoStepInduction with
  | zero =>
    rw [Nat.add_zero, legendre_self, legendreDiagonal_eq m hs h, iterate_derivative_self, eval_C]
    ring
  | one =>
    rw [legendre_succ_self, legendre_self, legendreDiagonal_eq m hs h,
      iterate_derivative_succ_self, iterate_derivative_self]
    simp
    ring
  | more k ih ih' =>
    have hne : (k + 2 : ℝ) ≠ 0 := by positivity
    have hstep := congrArg (Polynomial.eval x) (iterate_derivative_add_two m (m + k))
    simp only [Nat.cast_add, eval_mul, eval_sub, eval_add, eval_natCast, eval_ofNat, eval_X,
      eval_one] at hstep
    rw [← Nat.add_assoc] at ih'
    rw [← Nat.add_assoc, legendre_add_two, ih, ih', div_eq_iff hne]
    linear_combination - (-1) ^ m * s ^ m * hstep

/-- **The recurrence computes the associated Legendre functions**: up to a sign and a power of the
sine, the derivatives of the Legendre polynomials. -/
theorem legendre_eq_iteratedDeriv {l m : ℕ} (hm : m ≤ l) {x : ℝ} (hx : x ∈ Set.Icc (-1) 1) :
    legendre l m x = (-1) ^ m * (1 - x ^ 2) ^ ((m : ℝ) / 2) *
      iteratedDeriv m (fun t => (legendrePolynomial l).eval t) x := by
  have hsquare : 0 ≤ 1 - x ^ 2 := by
    rw [sub_nonneg, sq_le_one_iff_abs_le_one]
    exact abs_le.2 hx
  have hunit : Real.sqrt (1 - x ^ 2) ^ 2 + x ^ 2 = 1 := by
    rw [Real.sq_sqrt hsquare, sub_add_cancel]
  have hpower : (1 - x ^ 2) ^ ((m : ℝ) / 2) = Real.sqrt (1 - x ^ 2) ^ m := by
    rw [Real.rpow_div_two_eq_sqrt _ hsquare, Real.rpow_natCast]
  obtain ⟨k, rfl⟩ := Nat.exists_eq_add_of_le hm
  rw [legendre_add_eq m k (Real.sqrt_nonneg _) hunit, hpower, iteratedDeriv_eval]

/-- Three degrees above the order, where the step has been made twice. -/
theorem legendre_eq_iteratedDeriv_four_one :
    1 ≤ 4 ∧ (3 / 5 : ℝ) ∈ Set.Icc (-1) 1 ∧
      legendre 4 1 (3 / 5 : ℝ) = (-1) ^ 1 * (1 - (3 / 5) ^ 2) ^ (((1 : ℕ) : ℝ) / 2) *
        iteratedDeriv 1 (fun t => (legendrePolynomial 4).eval t) (3 / 5) ∧
      iteratedDeriv 1 (fun t => (legendrePolynomial 4).eval t) (3 / 5) = -18 / 25 := by
  have hx : (3 / 5 : ℝ) ∈ Set.Icc (-1) 1 := by
    constructor <;> norm_num
  refine ⟨by decide, hx, legendre_eq_iteratedDeriv (by decide) hx, ?_⟩
  rw [iteratedDeriv_eval]
  norm_num [legendrePolynomial]

end RadianceTransfer.Harmonics
