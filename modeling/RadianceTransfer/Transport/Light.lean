import RadianceTransfer.Color
import RadianceTransfer.Harmonics.Rotation
import RadianceTransfer.Room

/-!
# Lighting coefficients

The lighting of an environment is an expansion with one color per basis function. Shading is the
product of the lighting with the transport of a point, channel by channel.
-/

namespace RadianceTransfer

/-- An expansion of the lighting. -/
structure LightCoeffs (α : Type) where
  /-- One color per basis function, in their numbering. -/
  coeffs : List (Color α)

namespace LightCoeffs

variable {α : Type}

/-- Expansions are equal when their coefficients are. -/
instance [BEq α] : BEq (LightCoeffs α) where
  beq a b := a.coeffs == b.coeffs

/-- The number of coefficients. -/
def length (l : LightCoeffs α) : Nat :=
  l.coeffs.length

/-- Replaces the coefficient of a basis function, which has to be one of the expansion. -/
def setAt? (l : LightCoeffs α) (i : Nat) (c : Color α) : Outcome (LightCoeffs α) :=
  if i < l.coeffs.length then .ok ⟨l.coeffs.set i c⟩ else violate .indexOutOfRange

/-- The values of one channel. -/
def channel (l : LightCoeffs α) (k : Channel) : List α :=
  l.coeffs.map (·.get k)

/-- Replaces the values of one channel, as far as there are any. -/
def setChannel (l : LightCoeffs α) (k : Channel) (values : List α) : LightCoeffs α :=
  ⟨List.zipWith (fun c v => c.set k v) l.coeffs values ++ l.coeffs.drop values.length⟩

variable [Scalar α]

/-- The expansion of darkness up to a degree. -/
def zero (order : Nat) : LightCoeffs α :=
  ⟨List.replicate (Harmonics.coefficientCount order) Color.black⟩

/-- The expansion of darkness up to a degree, for which there has to be room. -/
def zero? (order : Nat) : Outcome (LightCoeffs α) := do
  requireRoom (3 * Harmonics.coefficientCount order)
  pure (zero order)

/-- The product with the transport of a point, over the coefficients that both have. -/
@[specialize] def dot (l : LightCoeffs α) (t : List α) : Color α :=
  (l.coeffs.zip t).foldl (fun sum (c, t) => sum + c.scale t) Color.black

/-- The expansion of the rotated lighting. Every channel is rotated by itself. -/
@[specialize] def rotate (r : Harmonics.BandRotation α) (l : LightCoeffs α) : LightCoeffs α :=
  [Channel.red, .green, .blue].foldl (fun l k => l.setChannel k (r.apply (l.channel k))) l

end LightCoeffs

end RadianceTransfer
