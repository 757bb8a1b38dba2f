import RadianceTransfer.Cubemap.Basic
import RadianceTransfer.Parallel
import RadianceTransfer.Transport.Light

/-!
# Projecting an environment

The lighting coefficients of a cubemap are the integrals of its radiance against the basis
functions: a sum over all texels, each weighted by how much of the sphere it covers. The rows of the
faces are summed on their own, and their sums are added in order.
-/

namespace RadianceTransfer

variable {α : Type} [Scalar α]

/-- Adds two lists of colors, over the entries that both have. Entries behind the second list
stay. -/
@[specialize] def addColors : List (Color α) → List (Color α) → List (Color α)
  | c :: cs, d :: ds => (c + d) :: addColors cs ds
  | cs, [] => cs
  | [], _ => []

/-- Adds what a texel contributes to the coefficients of its row. -/
@[specialize] def addTexel (map : CubeMap α) (order : Nat) (face : CubeFace) (faceIndex y : Nat)
    (row : List (Color α)) (x : Nat) : Outcome (List (Color α)) := do
  let dir := texelDirection face x y map.width map.height
  let texel ← map.texel faceIndex x y
  let radiance := texel.scale (texelSolidAngle x y map.width map.height)
  pure (addColors row ((Harmonics.basis order dir).map radiance.scale))

/-- The coefficients of one row of a face. The rows of all faces are numbered through. -/
@[specialize] def projectRow (map : CubeMap α) (order : Nat) (skipFirst : Bool) (slot : Nat)
    (row : List (Color α)) : Outcome (List (Color α)) :=
  let faceIndex := slot / map.height
  let y := slot % map.height
  if skipFirst && faceIndex == 0 then .ok row
  else
    match CubeFace.all[faceIndex]? with
    | some face => (List.range map.width).foldlM (addTexel map order face faceIndex y) row
    | none => violate .indexOutOfRange

/-- The lighting coefficients of a cubemap up to a degree. The first face can be left out. -/
@[specialize] def projectEnvironment (map : CubeMap α) (order : Nat) (skipFirst : Bool)
    (threads : ThreadParam) : Outcome (LightCoeffs α) := do
  let zero : LightCoeffs α ← LightCoeffs.zero? order
  let rows ← parallelFor (Array.replicate (CubeFace.all.length * map.height) zero.coeffs) threads
    (projectRow map order skipFirst)
  pure ⟨rows.toList.foldl addColors zero.coeffs⟩

end RadianceTransfer
