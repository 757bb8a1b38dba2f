import RadianceTransfer.Integrator.Settings
import RadianceTransfer.Transport.Environment
import RadianceTransfer.Transport.Interreflection

/-!
# The integrator

The integrator projects the lighting and the transport of every vertex once. From then on, the light
that a surface sends toward a viewer is the product of the two, blended over the corners of the
triangle that is seen.

## Main definitions

* `Integrator`: the settings, and the coefficients once there are any.
* `Integrator.setCoeffs`: takes over coefficients.
* `Integrator.compute`: computes them for a scene in an environment.
* `Integrator.radiance`: the light that arrives along a ray.
-/

namespace RadianceTransfer

/-- Settings, and coefficients once there are any. -/
structure Integrator (α : Type) where
  /-- The settings. -/
  settings : Settings α
  /-- The lighting as it was projected. -/
  light : Option (LightCoeffs α)
  /-- The lighting that surfaces are seen in, rotated if the settings say so. -/
  shadingLight : Option (LightCoeffs α)
  /-- The transport of each mesh. -/
  transport : List (TransportTable α)

namespace Integrator

variable {α : Type}

/-- An integrator without coefficients. -/
def ofSettings (s : Settings α) : Integrator α :=
  ⟨s, none, none, []⟩

/-- How a loop is spread over the workers of the settings. -/
def threads (prt : Integrator α) (batchSize : Nat) : ThreadParam :=
  ⟨prt.settings.threads, batchSize⟩

variable [Scalar α]

/-- The integrator of some properties, on a machine with a number of cores. -/
def ofProperties (cores : Nat) (p : PropertyList α) : Outcome (Integrator α) :=
  (Settings.ofProperties cores p).map ofSettings

/-- The lighting that surfaces are seen in, of a lighting as it was projected. -/
def rotated (prt : Integrator α) (light : LightCoeffs α) : LightCoeffs α :=
  match prt.settings.rotation with
  | some r => light.rotate r
  | none => light

/-- Takes over coefficients. -/
def setCoeffs (prt : Integrator α) (light : LightCoeffs α) (transport : List (TransportTable α)) :
    Integrator α :=
  { prt with light := some light, shadingLight := some (prt.rotated light), transport }

/-- What the passes over the vertices need. -/
def transportParam (prt : Integrator α) (rayBias : α) : TransportParam α where
  order := prt.settings.order
  sampleCount := prt.settings.sampleCount
  seed := prt.settings.seed
  shadowed := prt.settings.mode.castsShadows
  rayBias := rayBias
  threads := prt.threads Settings.vertexBatch

/-- The transport of all meshes of a scene. -/
def projectTransport (prt : Integrator α) (scene : Scene α) :
    Outcome (List (TransportTable α)) := do
  let param := prt.transportParam scene.rayBias
  let direct ← projectAllDirect scene.caster scene.meshes param
  match prt.settings.mode with
  | .interreflection bounce =>
    addInterreflection scene.caster scene.meshes direct bounce param
  | _ => pure direct

/-- Computes the coefficients of a scene in an environment. -/
def compute (prt : Integrator α) (scene : Scene α) (map : CubeMap α) : Outcome (Integrator α) := do
  let light ← projectEnvironment map prt.settings.order.toNat prt.settings.skipFirstFace
    (prt.threads 1)
  let transport ← prt.projectTransport scene
  pure (prt.setCoeffs light transport)

/-- The light of the corners of a triangle, blended. -/
def blendLight (light : LightCoeffs α) (table : TransportTable α) (hit : SurfaceHit α) :
    Outcome (Color α) :=
  (hit.corners.toList.zip hit.weights.toList).foldlM (fun sum (corner, w) => do
    let column ← table.column corner.toNat
    pure (sum + (light.dot column).scale w)) Color.black

/-- The light that arrives along a ray from the nearest surface. It is black where there is no
surface, and as long as there are no coefficients for it. -/
def radiance (prt : Integrator α) (caster : RayCaster α) (ray : Ray α) : Outcome (Color α) := do
  match prt.shadingLight with
  | none => pure Color.black
  | some light =>
    match ← caster.closest ray with
    | none => pure Color.black
    | some hit =>
      match prt.transport[hit.mesh]? with
      | none => pure Color.black
      | some table => blendLight light table hit

end Integrator

end RadianceTransfer
