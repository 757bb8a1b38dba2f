import RadianceTransfer.Description.Properties
import RadianceTransfer.Harmonics.Rotation
import RadianceTransfer.Parallel

/-!
# Settings of the integrator

What the map of an integrator says about the precomputation: which transfer function it projects,
how accurately, and where it finds and leaves its files. All entries but the folder of the cubemap
may be missing. They are read in a fixed order, so of several wrong ones the first is reported.

Whole numbers of a script have 64 bits. A bounce count or a number of workers keeps the lower 32 of
them.

## Main definitions

* `Mode`: the transfer functions.
* `Settings`: everything that is set.
* `Settings.ofProperties`: reads the map.
-/

namespace RadianceTransfer

/-- The transfer function that is projected for a vertex. -/
inductive Mode where
  /-- The cosine to the normal. -/
  | unshadowed
  /-- The cosine to the normal where the scene is not in the way. -/
  | shadowed
  /-- The same, and a number of levels of light from other surfaces. -/
  | interreflection (bounce : UInt32)
  deriving DecidableEq

namespace Mode

/-- The name of a mode in a scene. -/
def name : Mode → String
  | unshadowed => "unshadowed"
  | shadowed => "shadowed"
  | interreflection _ => "interreflection"

/-- Whether the scene casts shadows in a mode. -/
def castsShadows (m : Mode) : Bool :=
  m != .unshadowed

/-- The mode that some properties ask for. Only interreflection looks at the bounce count. -/
def ofProperties {α : Type} (p : PropertyList α) : Outcome Mode := do
  let name ← p.text "type" "unshadowed"
  if name == "unshadowed" then pure .unshadowed
  else if name == "shadowed" then pure .shadowed
  else if name == "interreflection" then
    let bounce ← p.int "bounce" 1
    if bounce < 0 then report (.negativeBounce bounce)
    else pure (.interreflection (UInt32.ofInt bounce))
  else report (.unknownTransfer name)

end Mode

/-- Everything that is set for a precomputation. -/
structure Settings (α : Type) where
  /-- The transfer function. -/
  mode : Mode
  /-- The highest degree. -/
  order : UInt32
  /-- How many samples a vertex is meant to get. -/
  sampleCount : UInt32
  /-- The seed of all generators. -/
  seed : UInt64
  /-- How many workers there are. -/
  threads : UInt32
  /-- The folder of the cubemap. -/
  cubemapFolder : String
  /-- The extension of the faces of the cubemap. -/
  extension : String
  /-- Whether the first face of the cubemap is left out. -/
  skipFirstFace : Bool
  /-- The folder of the coefficient files. -/
  outputFolder : String
  /-- How the lighting is rotated before it is used. -/
  rotation : Option (Harmonics.BandRotation α)

namespace Settings

variable {α : Type}

/-- The highest degree that can be asked for. -/
def maxOrder : Int := 16

/-- How many vertices a worker takes at once. -/
def vertexBatch : Nat := 64

/-- The highest degree. -/
def readOrder (p : PropertyList α) : Outcome UInt32 := do
  let order ← p.int "order" 2
  if order < 0 ∨ maxOrder < order then report (.orderOutOfRange order)
  else pure (UInt32.ofInt order)

/-- The number of samples, at least one and no more than 32 bits hold. -/
def readSampleCount (p : PropertyList α) : Outcome UInt32 := do
  let count ← p.int "sample_count" 100
  if count < 1 ∨ (twoPow 32 : Int) ≤ count then report (.sampleCountOutOfRange count)
  else pure (UInt32.ofInt count)

/-- The number of workers. Zero stands for one on each of the given cores. -/
def readThreads (cores : Nat) (p : PropertyList α) : Outcome UInt32 := do
  let threads ← p.int "threads" 0
  if threads < 0 then report (.negativeThreads threads)
  else if threads = 0 then pure (ThreadParam.allCores cores vertexBatch).threads
  else pure (UInt32.ofInt threads)

/-- The rotation of the lighting, for expansions up to a degree. -/
def readRotation [Scalar α] (order : UInt32) (p : PropertyList α) :
    Outcome (Option (Harmonics.BandRotation α)) := do
  match ← p.rotation? "light_rotation" with
  | none => pure none
  | some rot => (Harmonics.BandRotation.build order.toNat rot).map some

/-- What some properties set, on a machine with a number of cores. -/
def ofProperties [Scalar α] (cores : Nat) (p : PropertyList α) : Outcome (Settings α) := do
  let mode ← Mode.ofProperties p
  let order ← readOrder p
  let sampleCount ← readSampleCount p
  let seed ← p.int "seed" 0
  let threads ← readThreads cores p
  match ← p.path? "cubemap" with
  | none => report .noCubemap
  | some cubemapFolder =>
    let extension ← p.text "extension" "jpg"
    let skipFirstFace ← p.bool "skip_first_face" false
    let outputFolder ← p.path? "output"
    let rotation ← readRotation order p
    pure {
      mode, order, sampleCount, threads, cubemapFolder, extension, skipFirstFace, rotation
      seed := UInt64.ofInt seed
      outputFolder := outputFolder.getD cubemapFolder }

end Settings

end RadianceTransfer
