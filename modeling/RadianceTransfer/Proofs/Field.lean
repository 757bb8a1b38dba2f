import Mathlib
import RadianceTransfer.Proofs.Exact

/-!
# Ordered fields as scalars

Where no infinity and no value that is not a number can arise, exact arithmetic is that of an
ordered field, with all of its laws. What the field does not determine is left open: the functions
whose values need not lie in it, and all that is only a bound. Square roots are not negative, half
the circumference of the unit circle is positive, and the real numbers have the functions that their
names say.

## Main definitions

* `FieldFunctions`: what is left open.
* `instScalarOfField`: the elements of a field as scalars.
* The real numbers with their own functions, as elements of a field and as exact numbers.
-/

namespace RadianceTransfer

/-- What the arithmetic of an ordered field leaves open. -/
class FieldFunctions (K : Type) [Zero K] [LE K] [LT K] where
  /-- Square root. -/
  sqrt : K → K
  /-- It is never negative. -/
  sqrt_nonneg : ∀ x, 0 ≤ sqrt x
  /-- Sine. -/
  sin : K → K
  /-- Cosine. -/
  cos : K → K
  /-- The angle with a given cosine. -/
  acos : K → K
  /-- The angle of a point, its ordinate first. -/
  atan2 : K → K → K
  /-- Power. -/
  pow : K → K → K
  /-- Remainder. -/
  rem : K → K → K
  /-- What stands for a bound of all values. -/
  infinity : K
  /-- Half the circumference of the unit circle. -/
  pi : K
  /-- It is positive. -/
  pi_pos : 0 < pi
  /-- The bound on the relative error of a number of operations. -/
  roundingBound : Int → K

section

variable {K : Type} [Field K] [LinearOrder K] [FloorSemiring K] [FieldFunctions K]

/-- The elements of an ordered field as scalars. -/
instance (priority := low) instScalarOfField : Scalar K where
  add := (· + ·)
  sub := (· - ·)
  mul := (· * ·)
  div := (· / ·)
  neg := (- ·)
  lt := (· < ·)
  le := (· ≤ ·)
  beq x y := decide (x = y)
  ofScientific := OfScientific.ofScientific
  abs := (|·|)
  isNegative x := decide (x < 0)
  decLt := inferInstance
  decLe := inferInstance
  ofNat n := (n : K)
  toNat x := min ⌊x⌋₊ (2 ^ 64 - 1)
  sqrt := FieldFunctions.sqrt
  sin := FieldFunctions.sin
  cos := FieldFunctions.cos
  acos := FieldFunctions.acos
  atan2 := FieldFunctions.atan2
  pow := FieldFunctions.pow
  rem := FieldFunctions.rem
  isFinite _ := true
  infinity := FieldFunctions.infinity
  pi := FieldFunctions.pi
  roundingBound := FieldFunctions.roundingBound

namespace FieldFunctions

theorem zero_eq : @OfNat.ofNat K 0 (Scalar.instOfNat 0) = 0 :=
  Nat.cast_zero

theorem one_eq : @OfNat.ofNat K 1 (Scalar.instOfNat 1) = 1 :=
  Nat.cast_one

variable [IsStrictOrderedRing K]

theorem twoPi_pos : 0 < (Scalar.twoPi : K) :=
  mul_pos (Nat.cast_pos.2 Nat.two_pos) pi_pos

theorem fourPi_pos : 0 < (Scalar.fourPi : K) :=
  mul_pos (Nat.cast_pos.2 (Nat.succ_pos 3)) pi_pos

end FieldFunctions

end

/-- The real numbers. The angle of a point is that of a complex number. -/
noncomputable instance : FieldFunctions ℝ where
  sqrt := Real.sqrt
  sqrt_nonneg := Real.sqrt_nonneg
  sin := Real.sin
  cos := Real.cos
  acos := Real.arccos
  atan2 y x := Complex.arg ⟨x, y⟩
  pow x y := x ^ y
  rem x y := x - y * (if 0 ≤ x / y then (⌊x / y⌋ : ℝ) else ⌈x / y⌉)
  infinity := 0
  pi := Real.pi
  pi_pos := Real.pi_pos
  roundingBound n := |n / 2 ^ 53 / (1 - n / 2 ^ 53)|

/-- The real numbers among the exact ones. Outside of its domain a function has no value. -/
noncomputable instance : ExactFunctions ℝ where
  sqrt
    | .fin x => if 0 ≤ x then .fin (FieldFunctions.sqrt x) else .nan
    | .posInf => .posInf
    | _ => .nan
  sin
    | .fin x => .fin (FieldFunctions.sin x)
    | _ => .nan
  cos
    | .fin x => .fin (FieldFunctions.cos x)
    | _ => .nan
  acos
    | .fin x => if -1 ≤ x ∧ x ≤ 1 then .fin (FieldFunctions.acos x) else .nan
    | _ => .nan
  atan2
    | .fin y, .fin x => .fin (FieldFunctions.atan2 y x)
    | _, _ => .nan
  pow
    | .fin x, .fin y => if 0 ≤ x then .fin (FieldFunctions.pow x y) else .nan
    | _, _ => .nan
  rem
    | .fin x, .fin y => if y = 0 then .nan else .fin (FieldFunctions.rem x y)
    | _, _ => .nan
  pi := FieldFunctions.pi
  roundingBound := FieldFunctions.roundingBound
  roundingBound_nonneg _ := abs_nonneg _

end RadianceTransfer
