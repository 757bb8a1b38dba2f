import RadianceTransfer.Geometry.Rotation
import RadianceTransfer.Harmonics.Basis
import RadianceTransfer.Harmonics.Inverse

/-!
# Rotating expansions

A rotation never mixes the degrees of an expansion, so each degree `l` has a matrix of its own with
`2 l + 1` rows. It is found by evaluating the functions of the degree at `2 l + 1` fixed directions
before and after rotating them. With `A` and `B` holding these values, the rotated coefficients
`c'` satisfy `A c' = B c`, so they are `A⁻¹ B c`. This does not depend on what the functions are.

## Main definitions

* `sampleDirections`: where a degree is evaluated.
* `bandMatrix`: the matrix of a degree.
* `BandRotation`: the matrices of all degrees up to an order.
* `BandRotation.ofFunctions`, `BandRotation.build`: these for given functions, and for the basis.
* `BandRotation.apply`: the rotated expansion.
-/

namespace RadianceTransfer.Harmonics

variable {α : Type} [Scalar α]

/-- A point of a spiral around the third axis. The spiral is shifted along the axis so that it
does not map to itself under a half turn, for such a set of directions does not determine an odd
degree. -/
@[specialize] def spiralDirection (n i : Nat) : Vec3 α :=
  let goldenAngle := Scalar.pi * (3 - Scalar.sqrt 5)
  let z := 1 - 2 * (Scalar.ofNat i + 0.3) / Scalar.ofNat n
  let r := Scalar.sqrt (1 - z * z)
  let phi := 0.3 + goldenAngle * Scalar.ofNat i
  ⟨r * Scalar.cos phi, r * Scalar.sin phi, z⟩

/-- The directions at which a degree is evaluated. -/
@[specialize] def sampleDirections (l : Nat) : Vector (Vec3 α) (2 * l + 1) :=
  let k : α := 1 / Scalar.sqrt 2
  match l with
  | 1 => #v[⟨1, 0, 0⟩, ⟨0, 0, 1⟩, ⟨0, 1, 0⟩]
  | 2 => #v[⟨1, 0, 0⟩, ⟨0, 0, 1⟩, ⟨k, k, 0⟩, ⟨k, 0, k⟩, ⟨0, k, k⟩]
  | l => Vector.ofFn fun i => spiralDirection (2 * l + 1) i

/-- The values of the functions of a degree, a row for each direction. The functions are given by
their degree and order. -/
@[specialize] def bandValues (value : Nat → Int → Vec3 α → α) (l : Nat)
    (dirs : Vector (Vec3 α) (2 * l + 1)) : SquareMatrix (2 * l + 1) α :=
  .ofFn fun i j => value l ((j : Int) - l) dirs[i]

/-- The matrix of a degree for a rotation given by its inverse. -/
@[specialize] def bandMatrix (value : Nat → Int → Vec3 α → α) (l : Nat) (invRot : Mat3 α) :
    Outcome (SquareMatrix (2 * l + 1) α) :=
  let dirs := sampleDirections l
  let before := bandValues value l dirs
  let after := bandValues value l (dirs.map invRot.apply)
  match before.inverse? with
  | some inverse => .ok (inverse.mul after)
  | none => report (.singularBand l)

/-- The matrix of one degree. -/
structure Band (α : Type) where
  /-- The degree. -/
  degree : Nat
  /-- Its matrix. -/
  matrix : SquareMatrix (2 * degree + 1) α

/-- A rotation of expansions: the matrices of the degrees from zero up, in order. -/
structure BandRotation (α : Type) where
  /-- The matrices. -/
  bands : List (Band α)

namespace BandRotation

/-- The rotation of expansions in given functions up to a degree. Degree zero is never changed. -/
@[specialize] def ofFunctions (value : Nat → Int → Vec3 α → α) (order : Nat) (rot : Mat3 α) :
    Outcome (BandRotation α) := do
  let invRot := rot.transpose
  let bands ← (List.range order).mapM fun l => do
    let matrix ← bandMatrix value (l + 1) invRot
    pure (⟨l + 1, matrix⟩ : Band α)
  pure ⟨⟨0, .identity 1⟩ :: bands⟩

/-- The rotation of expansions in the basis functions up to a degree. -/
@[specialize] def build (order : Nat) (rot : Mat3 α) : Outcome (BandRotation α) :=
  ofFunctions eval order rot

/-- Rotates the bands of an expansion from the front as long as they are complete. -/
@[specialize] def applyBands : List (Band α) → List α → List α
  | [], coeffs => coeffs
  | b :: bands, coeffs =>
    let n := 2 * b.degree + 1
    if h : n ≤ coeffs.length then
      let front : Vector α n := ⟨(coeffs.take n).toArray, by simp [n, h]⟩
      (b.matrix.apply front).toList ++ applyBands bands (coeffs.drop n)
    else coeffs

/-- The rotated expansion. Coefficients of degrees above those of the rotation stay, and so does
a last degree that is not complete. -/
@[inline] def apply (r : BandRotation α) (coeffs : List α) : List α :=
  applyBands r.bands coeffs

end BandRotation

end RadianceTransfer.Harmonics
