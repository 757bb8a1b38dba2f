import RadianceTransfer.Harmonics.Basis
import RadianceTransfer.Room
import RadianceTransfer.Sampling.Sphere

/-!
# Projection

The coefficients of a function on the sphere are its integrals against the basis functions. They
are estimated from stratified samples: a sum over the samples, times the area that a sample stands
for.

## Main definitions

* `projectFunction`: the coefficients of a scalar function.
* `projectVector`: the integral of a function whose values are coefficient lists already.
-/

namespace RadianceTransfer.Harmonics

variable {α γ : Type} [Scalar α] [Generator γ α]

/-- Adds a value times the basis functions of a direction to the coefficients, unless the value is
zero. -/
@[specialize] def addProjected (order : Nat) (dir : Vec3 α) (coeffs : List α) (value : α) :
    List α :=
  if value == 0 then coeffs
  else List.zipWith (fun c y => c + value * y) coeffs (basis order dir)

/-- The coefficients up to a degree of a function on the sphere. There has to be room for them. -/
@[specialize] def projectFunction (order : Nat) (sampler : StratifiedSphere γ)
    (f : SphereSample α → Outcome α) : Outcome (List α) := do
  requireRoom (coefficientCount order)
  let zero := List.replicate (coefficientCount order) 0
  let coeffs ← sampler.pass.1.foldlM
    (fun coeffs sample => do pure (addProjected order sample.dir coeffs (← f sample))) zero
  let weight : α := sampler.weight
  pure (coeffs.map (· * weight))

/-- The integral of a function whose values are lists of coefficients. The function adds its value
for a sample to the sum so far. -/
@[specialize] def projectVector (len : Nat) (sampler : StratifiedSphere γ)
    (f : SphereSample α → List α → Outcome (List α)) : Outcome (List α) := do
  let zero := List.replicate len 0
  let coeffs ← (sampler.pass (α := α)).1.foldlM (fun sum sample => f sample sum) zero
  let weight : α := sampler.weight
  pure (coeffs.map (· * weight))

end RadianceTransfer.Harmonics
