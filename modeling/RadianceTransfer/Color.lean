import RadianceTransfer.Geometry.Vec3

/-!
# Colors

A color has a red, a green and a blue value. Radiance, lighting coefficients and shading results
are colors.
-/

namespace RadianceTransfer

/-- A color. -/
@[ext]
structure Color (α : Type) where
  /-- The red value. -/
  r : α
  /-- The green value. -/
  g : α
  /-- The blue value. -/
  b : α
  deriving DecidableEq

/-- One of the three values of a color. -/
inductive Channel where
  /-- Red. -/
  | red
  /-- Green. -/
  | green
  /-- Blue. -/
  | blue
  deriving DecidableEq

/-- The channel at a position. -/
def Channel.ofNat? : Nat → Option Channel
  | 0 => some .red
  | 1 => some .green
  | 2 => some .blue
  | _ => none

namespace Color

variable {α : Type}

/-- The value of a channel. -/
@[inline] def get (c : Color α) : Channel → α
  | .red => c.r
  | .green => c.g
  | .blue => c.b

/-- Replaces the value of a channel. -/
@[inline] def set (c : Color α) (k : Channel) (s : α) : Color α :=
  match k with
  | .red => { c with r := s }
  | .green => { c with g := s }
  | .blue => { c with b := s }

/-- The value at a position, which has to be 0, 1 or 2. -/
def at? (c : Color α) (i : Nat) : Outcome α :=
  match Channel.ofNat? i with
  | some k => .ok (c.get k)
  | none => violate .indexOutOfRange

/-- Replaces the value at a position, which has to be 0, 1 or 2. -/
def setAt? (c : Color α) (i : Nat) (s : α) : Outcome (Color α) :=
  match Channel.ofNat? i with
  | some k => .ok (c.set k s)
  | none => violate .indexOutOfRange

/-- Colors are equal when their values are. -/
instance [BEq α] : BEq (Color α) where
  beq c d := c.r == d.r && c.g == d.g && c.b == d.b

/-- Colors add value by value. -/
@[inline] instance [Add α] : Add (Color α) where
  add c d := ⟨c.r + d.r, c.g + d.g, c.b + d.b⟩

/-- Every value times a factor. -/
@[inline] def scale [Mul α] (c : Color α) (s : α) : Color α :=
  ⟨c.r * s, c.g * s, c.b * s⟩

section Scalar

variable [Scalar α]

/-- The gray of a given value. -/
def gray (s : α) : Color α :=
  ⟨s, s, s⟩

/-- No light. -/
@[inline] def black : Color α :=
  ⟨0, 0, 0⟩

/-- Whether all values are zero. -/
def isBlack (c : Color α) : Bool :=
  c.r == 0 && c.g == 0 && c.b == 0

/-- Every value to a power. -/
def pow (c : Color α) (p : α) : Color α :=
  ⟨Scalar.pow c.r p, Scalar.pow c.g p, Scalar.pow c.b p⟩

end Scalar

end Color

end RadianceTransfer
