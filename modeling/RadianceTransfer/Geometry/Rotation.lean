import RadianceTransfer.Geometry.Vec3

/-!
# Rotations

Matrices of three rows and three columns. Only rotations are built, so a transpose serves as the
inverse. `RotationExpr` is how a scene writes a rotation: an identity, a turn about an axis, a
product or a transpose.
-/

namespace RadianceTransfer

/-- A matrix by its rows. -/
@[ext]
structure Mat3 (α : Type) where
  /-- The first row. -/
  r0 : Vec3 α
  /-- The second row. -/
  r1 : Vec3 α
  /-- The third row. -/
  r2 : Vec3 α
  deriving DecidableEq

namespace Mat3

variable {α : Type}

/-- The row at a position. -/
@[inline] def row (m : Mat3 α) : Axis → Vec3 α
  | .x => m.r0
  | .y => m.r1
  | .z => m.r2

/-- The column at a position. -/
@[inline] def column (m : Mat3 α) (a : Axis) : Vec3 α :=
  ⟨m.r0.get a, m.r1.get a, m.r2.get a⟩

/-- The row at a position, which has to be 0, 1 or 2. -/
def row? (m : Mat3 α) (i : Nat) : Outcome (Vec3 α) :=
  match Axis.ofNat? i with
  | some a => .ok (m.row a)
  | none => violate .indexOutOfRange

/-- The column at a position, which has to be 0, 1 or 2. -/
def column? (m : Mat3 α) (i : Nat) : Outcome (Vec3 α) :=
  match Axis.ofNat? i with
  | some a => .ok (m.column a)
  | none => violate .indexOutOfRange

/-- The matrix with rows and columns exchanged. -/
@[inline] def transpose (m : Mat3 α) : Mat3 α :=
  ⟨m.column .x, m.column .y, m.column .z⟩

/-- Matrices are equal when their entries are. -/
instance [BEq α] : BEq (Mat3 α) where
  beq m n := m.r0 == n.r0 && m.r1 == n.r1 && m.r2 == n.r2

/-- The matrix applied to a column vector. -/
@[inline] def apply [Add α] [Mul α] (m : Mat3 α) (v : Vec3 α) : Vec3 α :=
  ⟨m.r0.dot v, m.r1.dot v, m.r2.dot v⟩

/-- The product of two matrices. -/
instance [Add α] [Mul α] : Mul (Mat3 α) where
  mul m n :=
    let row (r : Vec3 α) : Vec3 α :=
      ⟨r.dot (n.column .x), r.dot (n.column .y), r.dot (n.column .z)⟩
    ⟨row m.r0, row m.r1, row m.r2⟩

section Scalar

variable [Scalar α]

/-- The matrix that moves nothing. -/
def identity : Mat3 α :=
  ⟨⟨1, 0, 0⟩, ⟨0, 1, 0⟩, ⟨0, 0, 1⟩⟩

/-- The turn by an angle in degrees about an axis, counterclockwise as seen against it. The axis
need not have length one. -/
def rotate (degrees : α) (axis : Vec3 α) : Mat3 α :=
  let a := axis.normalize
  let theta := Scalar.radians degrees
  let s := Scalar.sin theta
  let c := Scalar.cos theta
  let d := 1 - c
  ⟨⟨a.x * a.x + (1 - a.x * a.x) * c, a.x * a.y * d - a.z * s, a.x * a.z * d + a.y * s⟩,
    ⟨a.x * a.y * d + a.z * s, a.y * a.y + (1 - a.y * a.y) * c, a.y * a.z * d - a.x * s⟩,
    ⟨a.x * a.z * d - a.y * s, a.y * a.z * d + a.x * s, a.z * a.z + (1 - a.z * a.z) * c⟩⟩

end Scalar

end Mat3

/-- The ways of writing a rotation. -/
inductive RotationExpr (α : Type) where
  /-- No rotation. -/
  | identity
  /-- A turn by an angle in degrees about an axis. -/
  | rotate (degrees : α) (axis : Vec3 α)
  /-- The second rotation, then the first one. -/
  | mul (a b : RotationExpr α)
  /-- The rotation backwards. -/
  | transpose (a : RotationExpr α)

/-- The matrix of a written rotation. -/
def RotationExpr.eval {α : Type} [Scalar α] : RotationExpr α → Mat3 α
  | .identity => Mat3.identity
  | .rotate degrees axis => Mat3.rotate degrees axis
  | .mul a b => a.eval * b.eval
  | .transpose a => a.eval.transpose

end RadianceTransfer
