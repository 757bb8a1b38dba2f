import RadianceTransfer.Mesh.Basic
import RadianceTransfer.Number.Single

/-!
# Records of a mesh file

A mesh file lists records by kind, such as vertices and faces. A record gives values to names, and a
value is a number or a list of numbers of one of eight types. This module says which records make a
mesh.

## Main definitions

* `WholeType`, `RealType`, `ScalarType`: the types of numbers.
* `Value`, `Record`, `Payload`: what a file delivers.
* `Payload.toMesh`: the mesh, or why there is none.
-/

namespace RadianceTransfer.Ply

/-- The types of whole numbers. -/
inductive WholeType where
  /-- Signed, eight bits. -/
  | int8
  /-- Unsigned, eight bits. -/
  | uint8
  /-- Signed, sixteen bits. -/
  | int16
  /-- Unsigned, sixteen bits. -/
  | uint16
  /-- Signed, thirty-two bits. -/
  | int32
  /-- Unsigned, thirty-two bits. -/
  | uint32
  deriving DecidableEq

namespace WholeType

/-- How many bytes a number takes. -/
def bytes : WholeType → Nat
  | int8 | uint8 => 1
  | int16 | uint16 => 2
  | int32 | uint32 => 4

/-- Whether there are negative numbers. -/
def signed : WholeType → Bool
  | int8 | int16 | int32 => true
  | uint8 | uint16 | uint32 => false

/-- Whether a number is one of the type. -/
def holds (t : WholeType) (n : Int) : Bool :=
  let bits := 8 * t.bytes
  if t.signed then decide (FitsSigned bits n) else decide (0 ≤ n ∧ FitsUnsigned bits n.toNat)

/-- The numbers of the type. -/
abbrev Number (t : WholeType) : Type :=
  { n : Int // t.holds n }

end WholeType

/-- The types of floating-point numbers. -/
inductive RealType where
  /-- Single words. -/
  | single
  /-- Double words. -/
  | double
  deriving DecidableEq

namespace RealType

/-- How many bytes a number takes. -/
def bytes : RealType → Nat
  | single => 4
  | double => 8

/-- The numbers of the type. -/
abbrev Number : RealType → Type
  | single => Float32
  | double => Float

/-- A number as a double word. -/
def widen : (t : RealType) → t.Number → Float
  | single, x => Double.ofSingle x
  | double, x => x

end RealType

/-- The types of numbers. -/
inductive ScalarType where
  /-- Whole numbers. -/
  | whole (t : WholeType)
  /-- Floating-point numbers. -/
  | real (t : RealType)
  deriving DecidableEq

/-- The value of a property. -/
inductive Value where
  /-- A whole number. -/
  | whole (t : WholeType) (n : t.Number)
  /-- A floating-point number. -/
  | real (t : RealType) (x : t.Number)
  /-- A list of whole numbers. -/
  | wholes (t : WholeType) (ns : List t.Number)
  /-- A list of floating-point numbers. -/
  | reals (t : RealType) (xs : List t.Number)

/-- Values by name. -/
abbrev Record : Type := List (String × Value)

/-- Records by kind. -/
abbrev Payload : Type := List (String × List Record)

/-- What a name stands for. -/
def find? (name : String) (xs : List (String × β)) : Option β :=
  (xs.find? fun (n, _) => n == name).map Prod.snd

/-- A number as a double word. -/
def Value.toScalar : Value → Outcome Float
  | .whole _ n => .ok (Scalar.ofInt n.val)
  | .real t x => .ok (t.widen x)
  | _ => report .notScalar

/-- The corners of a face: a list of whole numbers, none of them negative. -/
def Value.toIndices : Value → Outcome (List UInt32)
  | .wholes _ ns =>
    ns.mapM fun n => if n.val < 0 then report .negativeIndex else .ok n.val.toNat.toUInt32
  | _ => report .notIndexList

namespace Record

/-- The number of a name, which has to be there. -/
def scalar (r : Record) (name : String) : Outcome Float :=
  match find? name r with
  | some v => v.toScalar
  | none => report (.missingProperty name)

/-- The vector of three names. -/
def vector (r : Record) (x y z : String) : Outcome (Vec3 Float) := do
  pure ⟨← r.scalar x, ← r.scalar y, ← r.scalar z⟩

/-- Whether a record has a normal. -/
def hasNormal (r : Record) : Bool :=
  ["nx", "ny", "nz"].all fun name => (find? name r).isSome

/-- The corners of a face, under the longer of two names if both are there. -/
def corners (r : Record) : Outcome (List UInt32) :=
  match (find? "vertex_indices" r).or (find? "vertex_index" r) with
  | some v => v.toIndices
  | none => report .noIndices

/-- The triangle of a face. -/
def triangle (r : Record) : Outcome Triangle := do
  match ← r.corners with
  | [i, j, k] => pure ⟨i, j, k⟩
  | is => report (.notTriangle is.length)

end Record

/-- The normals of the vertices, if the first one has a normal. -/
def normals? : List Record → Outcome (Option (Array (Vec3 Float)))
  | [] => pure none
  | v :: vs =>
    if Record.hasNormal v then do
      let ns ← (v :: vs).mapM fun v => Record.vector v "nx" "ny" "nz"
      pure (some ns.toArray)
    else pure none

/-- The mesh of the vertices and faces of a file. -/
def Payload.toMesh (p : Payload) : Outcome (Mesh Float) := do
  let vertices := (find? "vertex" p).getD []
  let faces := (find? "face" p).getD []
  if vertices.isEmpty then report .noVertices
  else if faces.isEmpty then report .noFaces
  else
    let positions ← vertices.mapM fun v => Record.vector v "x" "y" "z"
    let normals ← normals? vertices
    let triangles ← faces.mapM Record.triangle
    Mesh.build positions.toArray normals triangles.toArray

end RadianceTransfer.Ply
