import RadianceTransfer.Number.Binary

/-!
# Scalars

Everything geometric and everything harmonic in this library is written over an arbitrary type of
scalars, so that the same definition runs on floating-point words and can be reasoned about over
exact numbers.

## What a scalar type offers

`Scalar` holds operations only. It states no law: floating-point words satisfy few of them, and a
definition that assumes none computes, operation by operation, what it says. A statement that
needs exact arithmetic is made about a particular exact instance.

Literals go through the class as well. A whole number `n` is `Scalar.ofNat n` and a decimal is
`OfScientific.ofScientific`, so `0.1` means one tenth over the rationals and the nearest word over
`Float`.
-/

namespace RadianceTransfer

/-- Values that have a magnitude and a sign. -/
class Signed (α : Type) where
  /-- The value without its sign. -/
  abs : α → α
  /-- Whether the sign is negative. Where zero has a sign, negative zero counts. -/
  isNegative : α → Bool

/-- The operations of a scalar type. -/
class Scalar (α : Type) extends Add α, Sub α, Mul α, Div α, Neg α, LT α, LE α, BEq α,
    OfScientific α, Signed α where
  /-- Comparison is decidable; with a value that is not a number it fails. -/
  decLt : DecidableLT α
  /-- Comparison is decidable; with a value that is not a number it fails. -/
  decLe : DecidableLE α
  /-- The scalar nearest to a whole number. -/
  ofNat : Nat → α
  /-- The whole part. Negative values and values that are not numbers give zero. -/
  toNat : α → Nat
  /-- Square root. -/
  sqrt : α → α
  /-- Sine of an angle in radians. -/
  sin : α → α
  /-- Cosine of an angle in radians. -/
  cos : α → α
  /-- The angle in `[0, pi]` with a given cosine. -/
  acos : α → α
  /-- The angle of the point with the given ordinate and abscissa, in `[-pi, pi]`. -/
  atan2 : α → α → α
  /-- Power with a scalar exponent. -/
  pow : α → α → α
  /-- Remainder of the division that rounds toward zero; it has the sign of the dividend. -/
  rem : α → α → α
  /-- Whether the value is an ordinary number, neither infinite nor undefined. -/
  isFinite : α → Bool
  /-- An upper bound of every value, where the type has one. -/
  infinity : α
  /-- Half the circumference of the unit circle. -/
  pi : α
  /-- A bound on the relative error that a given number of rounded operations accumulate. -/
  roundingBound : Int → α

namespace Scalar

variable {α : Type} [Scalar α]

/-- Comparison of scalars is decidable. -/
instance (priority := low) instDecidableLt : DecidableLT α := Scalar.decLt

/-- Comparison of scalars is decidable. -/
instance (priority := low) instDecidableLe : DecidableLE α := Scalar.decLe

/-- Numerals of a scalar type. -/
instance (priority := low) instOfNat (n : Nat) : OfNat α n := ⟨Scalar.ofNat n⟩

/-- The scalar nearest to an integer. -/
@[inline] def ofInt (i : Int) : α :=
  if i < 0 then -Scalar.ofNat i.natAbs else Scalar.ofNat i.natAbs

/-- The smaller of two values by a single comparison; the second one when the comparison fails. -/
@[inline] def least [LT β] [DecidableLT β] (a b : β) : β :=
  if a < b then a else b

/-- The larger of two values by a single comparison; the second one when the comparison fails. -/
@[inline] def greatest [LT β] [DecidableLT β] (a b : β) : β :=
  if b < a then a else b

/-- The larger of two scalars, where one that is not a number gives way to the other. -/
@[inline] def maxNumber (a b : α) : α :=
  if b < a then a else if a == a && !(b == b) then a else b

/-- The smaller of two scalars, where one that is not a number gives way to the other. -/
@[inline] def minNumber (a b : α) : α :=
  if a < b then a else if a == a && !(b == b) then a else b

/-- An angle in degrees, in radians. -/
@[inline] def radians (degrees : α) : α :=
  degrees * (Scalar.pi / 180)

/-- A full turn. -/
@[inline] def twoPi : α :=
  2 * Scalar.pi

/-- The area of the unit sphere. -/
@[inline] def fourPi : α :=
  4 * Scalar.pi

end Scalar

/-- Half the circumference of the unit circle as a double word. -/
@[noinline] def Double.pi : Float :=
  3.14159265358979323846

/-- The remainder of the division that rounds toward zero, computed exactly on the
significands. -/
def Double.remainder (x y : Float) : Float :=
  match BinaryClass.ofDouble x, BinaryClass.ofDouble y with
  | .finite negative a, .finite _ b =>
    let (m, n, q) := a.align b
    if n == 0 then 0.0 / 0.0
    else
      let r := Float.scaleB (Float.ofNat (m % n)) q
      if negative then -r else r
  | .finite _ _, .infinite _ => x
  | _, _ => 0.0 / 0.0

/-- The bound `n u / (1 - n u)` on the relative error of `n` rounded operations, `u` being half the
distance from one to the next word. -/
def Double.roundingBound (n : Int) : Float :=
  let u : Float := Float.ofScientific 2220446049250313 true 31 / 2
  (Float.ofInt n * u) / (1 - Float.ofInt n * u)

/-- Double words as scalars. -/
instance instScalarFloat : Scalar Float where
  abs := Float.abs
  isNegative x := x.toBits >>> 63 == 1
  decLt := Float.decLt
  decLe := Float.decLe
  ofNat := Float.ofNat
  toNat x := x.toUInt64.toNat
  sqrt := Float.sqrt
  sin := Float.sin
  cos := Float.cos
  acos := Float.acos
  atan2 := Float.atan2
  pow := Float.pow
  rem := Double.remainder
  isFinite := Float.isFinite
  infinity := 1.0 / 0.0
  pi := Double.pi
  roundingBound := Double.roundingBound

/-- Single words as scalars. -/
instance instScalarFloat32 : Scalar Float32 where
  abs := Float32.abs
  isNegative x := x.toBits >>> 31 == 1
  decLt := Float32.decLt
  decLe := Float32.decLe
  ofNat := Float32.ofNat
  toNat x := x.toUInt64.toNat
  sqrt := Float32.sqrt
  sin := Float32.sin
  cos := Float32.cos
  acos := Float32.acos
  atan2 := Float32.atan2
  pow := Float32.pow
  rem x y := (Double.remainder x.toFloat y.toFloat).toFloat32
  isFinite := Float32.isFinite
  infinity := 1.0 / 0.0
  pi := 3.14159265358979323846
  roundingBound n := (Double.roundingBound n).toFloat32

end RadianceTransfer
