import RadianceTransfer.Harmonics.Index
import RadianceTransfer.Harmonics.Spherical

/-!
# The basis functions

The real spherical harmonics `Y_l^m`, with the phase `(-1)^m` in the Legendre functions, so that
for example `Y_1^1` is negative along the first axis.

## Two ways of evaluating

Up to degree two there are polynomials in the components of a unit vector. From degree three on a
function is a product of a normalization, an associated Legendre function of the cosine of the
polar angle, and a sine or cosine of a multiple of the azimuth.

## Main definitions

* `legendre`: the associated Legendre functions, by recurrence in the degree.
* `evalPolynomial`, `evalGeneral`: the two ways of evaluating.
* `eval`: a basis function in a direction of any length.
* `basis`: all functions up to a degree, in their numbering.
* `reconstruct`: the value of an expansion in a direction.
-/

namespace RadianceTransfer.Harmonics

variable {α : Type} [Scalar α]

/-- The value `sqrt (1 / 4 pi)` of the constant function. -/
@[inline] def k00 : α :=
  Scalar.sqrt (1 / (4 * Scalar.pi))

/-- The factor `sqrt (3 / 4 pi)` of degree one. -/
@[inline] def k1 : α :=
  Scalar.sqrt (3 / (4 * Scalar.pi))

/-- The factor `sqrt (15 / pi) / 2` of the mixed products of degree two. -/
@[inline] def k2 : α :=
  Scalar.sqrt (15 / Scalar.pi) / 2

/-- The factor `sqrt (5 / pi) / 4` of the zonal function of degree two. -/
@[inline] def k20 : α :=
  Scalar.sqrt (5 / Scalar.pi) / 4

/-- The factor `sqrt (15 / pi) / 4` of the difference of squares of degree two. -/
@[inline] def k22 : α :=
  Scalar.sqrt (15 / Scalar.pi) / 4

/-- The polynomials of the degrees up to two, for a unit vector. -/
@[specialize] def evalPolynomial (l : Nat) (m : Int) (d : Vec3 α) : α :=
  match l, m with
  | 0, 0 => k00
  | 1, -1 => -k1 * d.y
  | 1, 0 => k1 * d.z
  | 1, 1 => -k1 * d.x
  | 2, -2 => k2 * d.x * d.y
  | 2, -1 => -k2 * d.y * d.z
  | 2, 0 => k20 * (-d.x * d.x - d.y * d.y + 2 * d.z * d.z)
  | 2, 1 => -k2 * d.x * d.z
  | 2, 2 => k22 * (d.x * d.x - d.y * d.y)
  | _, _ => 0

/-- The factorial as a scalar, multiplied up from one. -/
@[specialize] def factorial : Nat → α
  | 0 => 1
  | n + 1 => factorial n * Scalar.ofNat (n + 1)

/-- A scalar times `n`, `n - 2`, `n - 4`, … down to two or one. -/
@[specialize] def mulDoubleFactorial (r : α) : Nat → α
  | 0 => r
  | 1 => r
  | n + 2 => mulDoubleFactorial (r * Scalar.ofNat (n + 2)) n

/-- The product of `n` and every second number below it. -/
@[inline] def doubleFactorial (n : Nat) : α :=
  mulDoubleFactorial 1 n

/-- The associated Legendre function whose degree equals its order,
`(-1)^m (2m - 1)!! (1 - x^2)^(m/2)`. -/
@[specialize] def legendreDiagonal (m : Nat) (x : α) : α :=
  let p := doubleFactorial (2 * m - 1) *
    Scalar.pow (Scalar.maxNumber (1 - x * x) 0) (Scalar.ofNat m / 2)
  if m % 2 = 1 then -p else p

/-- The associated Legendre functions of order `m` and of the degrees `m + k` and `m + k + 1`. The
second one follows from the two before it by
`(l - m) P_l = x (2 l - 1) P_{l-1} - (l + m - 1) P_{l-2}`. -/
@[specialize] def legendrePair (m : Nat) (x : α) : Nat → α × α
  | 0 =>
    let p := legendreDiagonal m x
    (p, x * Scalar.ofNat (2 * m + 1) * p)
  | k + 1 =>
    let (older, newer) := legendrePair m x k
    let l := m + k + 2
    (newer,
      (Scalar.ofNat (2 * l - 1) * x * newer - Scalar.ofNat (l + m - 1) * older) /
        Scalar.ofNat (l - m))

/-- The associated Legendre function of degree `l` and order `m`, for `m ≤ l`. -/
@[specialize] def legendre (l m : Nat) (x : α) : α :=
  if l = m then legendreDiagonal m x else (legendrePair m x (l - m - 1)).2

/-- The factor that makes the basis orthonormal. -/
@[specialize] def normalization (l m : Nat) : α :=
  Scalar.sqrt (Scalar.ofNat (2 * l + 1) * factorial (l - m) /
    (4 * Scalar.pi * factorial (l + m)))

/-- A basis function of any degree at given spherical coordinates. -/
@[specialize] def evalGeneral (l : Nat) (m : Int) (phi theta : α) : α :=
  let k := m.natAbs
  let n := normalization l k
  let p := legendre l k (Scalar.cos theta)
  if 0 < m then Scalar.sqrt 2 * n * Scalar.cos (Scalar.ofNat k * phi) * p
  else if m < 0 then Scalar.sqrt 2 * n * Scalar.sin (Scalar.ofNat k * phi) * p
  else n * p

/-- The basis function of degree `l` and order `m` in a direction of any length. -/
@[specialize] def eval (l : Nat) (m : Int) (dir : Vec3 α) : α :=
  let dir := dir.normalize
  if l ≤ 2 then evalPolynomial l m dir
  else
    let (phi, theta) := toSpherical dir
    evalGeneral l m phi theta

/-- A basis function of a degree and order given as words. The order must not exceed the degree,
and twice the degree has to fit its word. -/
@[specialize] def eval? (l : UInt32) (m : Int) (dir : Vec3 α) : Outcome α :=
  if l.toNat < m.natAbs then violate .precondition
  else if ¬ FitsUnsigned 32 (2 * l.toNat + 1) then violate .overflow
  else .ok (eval l.toNat m dir)

/-- The functions of one degree, in their numbering. -/
@[specialize] def band (l : Nat) (dir : Vec3 α) : List α :=
  (List.range (2 * l + 1)).map fun (k : Nat) => eval l ((k : Int) - l) dir

/-- The functions up to a degree, in their numbering. -/
@[specialize] def basis (order : Nat) (dir : Vec3 α) : List α :=
  (List.range (order + 1)).flatMap fun l => band l dir

/-- Writes the functions up to a degree over the front of a buffer, which has to be long
enough. What lies behind them stays. -/
@[specialize] def fillBasis (order : UInt32) (dir : Vec3 α) (buffer : List α) :
    Outcome (List α) := do
  let n ← coefficientCount? order
  if buffer.length < n then violate .precondition
  else .ok (basis order.toNat dir ++ buffer.drop n)

/-- The value of an expansion in a direction: the coefficients times the basis functions, summed in
their numbering. -/
@[specialize] def reconstruct (coeffs : List α) (dir : Vec3 α) : α :=
  coeffs.zipIdx.foldl (fun sum (c, i) =>
    let (l, m) := degreeOrder i
    sum + c * eval l m dir) 0

end RadianceTransfer.Harmonics
