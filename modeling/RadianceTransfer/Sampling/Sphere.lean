import RadianceTransfer.Harmonics.Spherical
import RadianceTransfer.Sampling.Stream

/-!
# Stratified samples of the sphere

The sphere is divided into a square grid of cells of equal area, and each cell gets one direction
at a random place inside it. The number of cells is the largest square that does not exceed the
number of samples asked for.

## Main definitions

* `SphereSample`: a direction with its spherical coordinates.
* `StratifiedSphere`: a grid and a generator.
* `StratifiedSphere.pass`: one sample of every cell.
* `StratifiedSphere.weight`: the area that one sample stands for.
-/

namespace RadianceTransfer

/-- A direction, with its spherical coordinates. -/
structure SphereSample (α : Type) where
  /-- The azimuth. -/
  phi : α
  /-- The angle from the third axis. -/
  theta : α
  /-- The unit vector. -/
  dir : Vec3 α

/-- A grid of cells and the generator that places a sample in each. -/
structure StratifiedSphere (γ : Type) where
  /-- Cells along each side of the grid. -/
  side : Nat
  /-- The generator. -/
  generator : γ

namespace StratifiedSphere

variable {α γ : Type} [Scalar α]

/-- The side of the largest grid with no more cells than samples asked for. -/
@[inline] def sideOf (α : Type) [Scalar α] (sampleCount : UInt32) : Nat :=
  Scalar.toNat (Scalar.sqrt (Scalar.ofNat sampleCount.toNat : α))

/-- The sampler of a task. -/
@[inline] def ofSeed (α : Type) [Scalar α] (sampleCount : UInt32) (seed stream : UInt64) :
    StratifiedSphere Pcg :=
  ⟨sideOf α sampleCount, Pcg.ofSeed seed stream⟩

/-- The number of cells. -/
@[inline] def sampleCount (s : StratifiedSphere γ) : Nat :=
  s.side * s.side

/-- The area of the sphere over the number of samples. -/
@[inline] def weight (s : StratifiedSphere γ) : α :=
  if s.side = 0 then 0 else Scalar.fourPi / Scalar.ofNat s.sampleCount

/-- The sample at given places inside the cell of a row and a column of the grid. Rows divide the
third axis, columns divide the azimuth. -/
@[inline] def cellSample (side row col : Nat) (u v : α) : SphereSample α :=
  let invSide := 1 / Scalar.ofNat side
  let alpha := (Scalar.ofNat row + u) * invSide
  let beta := (Scalar.ofNat col + v) * invSide
  let phi := Scalar.twoPi * beta
  let theta := Scalar.acos (2 * alpha - 1)
  ⟨phi, theta, Harmonics.toVector phi theta⟩

variable [Generator γ α]

/-- The samples of a list of cells, each of which draws two numbers, and the generator after
them. -/
@[specialize] def drawCells (side : Nat) (g : γ) : List (Nat × Nat) → List (SphereSample α) × γ
  | [] => ([], g)
  | (row, col) :: cells =>
    let (u, g) := (Generator.next g : α × γ)
    let (v, g) := (Generator.next g : α × γ)
    let (rest, g) := drawCells side g cells
    (cellSample side row col u v :: rest, g)

/-- The cells of a grid, row by row. -/
def cells (side : Nat) : List (Nat × Nat) :=
  (List.range side).flatMap fun row => (List.range side).map fun col => (row, col)

/-- One sample of every cell, and the sampler for the next pass. -/
@[specialize] def pass (s : StratifiedSphere γ) : List (SphereSample α) × StratifiedSphere γ :=
  let (samples, g) := drawCells s.side s.generator (cells s.side)
  (samples, { s with generator := g })

end StratifiedSphere

end RadianceTransfer
