import RadianceTransfer.Failure

/-!
# Vectors of three components

A vector asks of its component type only what each operation needs, so the same definitions serve
scalars, single words and whole numbers.

## Main definitions

* `Vec3`: three components.
* `Vec3.dot`, `Vec3.cross`, `Vec3.length`, `Vec3.normalize`: the usual products and norms.
* `Vec3.maxDim`: the axis of the largest component.
* `Axis`: one of the three axes.
-/

namespace RadianceTransfer

/-- One of the three coordinate axes. -/
inductive Axis where
  /-- The first axis. -/
  | x
  /-- The second axis. -/
  | y
  /-- The third axis. -/
  | z
  deriving DecidableEq

namespace Axis

/-- The position of an axis, counted from zero. -/
def toNat : Axis → Nat
  | x => 0
  | y => 1
  | z => 2

/-- The axis at a position. -/
def ofNat? : Nat → Option Axis
  | 0 => some x
  | 1 => some y
  | 2 => some z
  | _ => none

/-- The next axis, the first one following the last. -/
def next : Axis → Axis
  | x => y
  | y => z
  | z => x

@[simp] theorem ofNat?_toNat (a : Axis) : ofNat? a.toNat = some a := by
  cases a <;> rfl

end Axis

/-- A vector of three components. -/
@[ext]
structure Vec3 (α : Type) where
  /-- The first component. -/
  x : α
  /-- The second component. -/
  y : α
  /-- The third component. -/
  z : α
  deriving DecidableEq

namespace Vec3

variable {α β γ : Type}

/-- Applies a function to every component. -/
@[inline] def map (f : α → β) (v : Vec3 α) : Vec3 β :=
  ⟨f v.x, f v.y, f v.z⟩

/-- Combines two vectors component by component. -/
@[inline] def zipWith (f : α → β → γ) (v : Vec3 α) (w : Vec3 β) : Vec3 γ :=
  ⟨f v.x w.x, f v.y w.y, f v.z w.z⟩

/-- The component on an axis. -/
@[inline] def get (v : Vec3 α) : Axis → α
  | .x => v.x
  | .y => v.y
  | .z => v.z

/-- Replaces the component on an axis. -/
@[inline] def set (v : Vec3 α) (a : Axis) (s : α) : Vec3 α :=
  match a with
  | .x => { v with x := s }
  | .y => { v with y := s }
  | .z => { v with z := s }

/-- The component at a position, which has to be 0, 1 or 2. -/
def at? (v : Vec3 α) (i : Nat) : Outcome α :=
  match Axis.ofNat? i with
  | some a => .ok (v.get a)
  | none => violate .indexOutOfRange

/-- Replaces the component at a position, which has to be 0, 1 or 2. -/
def setAt? (v : Vec3 α) (i : Nat) (s : α) : Outcome (Vec3 α) :=
  match Axis.ofNat? i with
  | some a => .ok (v.set a s)
  | none => violate .indexOutOfRange

/-- The components in order. -/
def toList (v : Vec3 α) : List α :=
  [v.x, v.y, v.z]

/-- Vectors are equal when their components are. -/
instance [BEq α] : BEq (Vec3 α) where
  beq v w := v.x == w.x && v.y == w.y && v.z == w.z

/-- Vectors add component by component. -/
@[inline] instance [Add α] : Add (Vec3 α) where
  add v w := ⟨v.x + w.x, v.y + w.y, v.z + w.z⟩

/-- Vectors subtract component by component. -/
@[inline] instance [Sub α] : Sub (Vec3 α) where
  sub v w := ⟨v.x - w.x, v.y - w.y, v.z - w.z⟩

/-- Vectors multiply component by component. -/
@[inline] instance [Mul α] : Mul (Vec3 α) where
  mul v w := ⟨v.x * w.x, v.y * w.y, v.z * w.z⟩

/-- The opposite vector. -/
@[inline] instance [Neg α] : Neg (Vec3 α) where
  neg v := ⟨-v.x, -v.y, -v.z⟩

/-- The vector whose components are all zero. -/
@[inline] def zero [OfNat α 0] : Vec3 α :=
  ⟨0, 0, 0⟩

/-- The magnitude of every component. -/
@[inline] def abs [Signed α] (v : Vec3 α) : Vec3 α :=
  v.map Signed.abs

/-- Which components have a negative sign. -/
@[inline] def signs [Signed α] (v : Vec3 α) : Vec3 Bool :=
  v.map Signed.isNegative

/-- The scalar product. -/
@[inline] def dot [Add α] [Mul α] (v w : Vec3 α) : α :=
  v.x * w.x + v.y * w.y + v.z * w.z

/-- The square of the length. -/
@[inline] def lengthSquared [Add α] [Mul α] (v : Vec3 α) : α :=
  v.dot v

/-- Every component times a factor. -/
@[inline] def scale [Mul α] (v : Vec3 α) (s : α) : Vec3 α :=
  ⟨v.x * s, v.y * s, v.z * s⟩

/-- A numerator divided by every component. -/
@[inline] def divideInto [Div α] (v : Vec3 α) (s : α) : Vec3 α :=
  ⟨s / v.x, s / v.y, s / v.z⟩

/-- The vector product. -/
@[inline] def cross [Sub α] [Mul α] (v w : Vec3 α) : Vec3 α :=
  ⟨v.y * w.z - v.z * w.y, v.z * w.x - v.x * w.z, v.x * w.y - v.y * w.x⟩

/-- The axis of the largest component. Of two equal ones the later axis is taken. -/
@[inline] def maxDim [LT α] [DecidableLT α] (v : Vec3 α) : Axis :=
  if v.y < v.x ∧ v.z < v.x then .x else if v.z < v.y then .y else .z

/-- The smaller of each two components. -/
@[inline] def min [LT α] [DecidableLT α] (v w : Vec3 α) : Vec3 α :=
  v.zipWith Scalar.least w

/-- The larger of each two components. -/
@[inline] def max [LT α] [DecidableLT α] (v w : Vec3 α) : Vec3 α :=
  v.zipWith Scalar.greatest w

section Scalar

variable [Scalar α]

/-- The length. -/
@[inline] def length (v : Vec3 α) : α :=
  Scalar.sqrt v.lengthSquared

/-- The vector of length one in the same direction. -/
@[inline] def normalize (v : Vec3 α) : Vec3 α :=
  v.scale (1 / v.length)

end Scalar

end Vec3

end RadianceTransfer
