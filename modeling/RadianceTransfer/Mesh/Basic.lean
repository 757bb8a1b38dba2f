import RadianceTransfer.Geometry.Vec3

/-!
# Triangle meshes

A mesh has positions, one normal per position, and triangles that name their corners by the number
of a position. Normals that are not given are generated: the edge cross products of all triangles
around a vertex are summed, so that larger triangles weigh more.

## Main definitions

* `Mesh`: positions, unit normals and triangles that stay in range.
* `Mesh.build`: a mesh from its parts, or why they are none.
* `Mesh.blendNormal`: a normal inside a triangle.
-/

namespace RadianceTransfer

/-- A triangle by the numbers of its corners. -/
structure Triangle where
  /-- The first corner. -/
  i0 : UInt32
  /-- The second corner. -/
  i1 : UInt32
  /-- The third corner. -/
  i2 : UInt32
  deriving DecidableEq

namespace Triangle

/-- The corners in order. -/
def toList (t : Triangle) : List UInt32 :=
  [t.i0, t.i1, t.i2]

/-- Whether all corners are among a number of vertices. -/
def InRange (t : Triangle) (vertices : Nat) : Prop :=
  t.i0.toNat < vertices ∧ t.i1.toNat < vertices ∧ t.i2.toNat < vertices

instance (t : Triangle) (vertices : Nat) : Decidable (t.InRange vertices) :=
  inferInstanceAs (Decidable (_ ∧ _ ∧ _))

end Triangle

/-- A triangle mesh. -/
structure Mesh (α : Type) where
  /-- The positions of the vertices. -/
  positions : Array (Vec3 α)
  /-- The normals of the vertices. -/
  normals : Array (Vec3 α)
  /-- The triangles. -/
  triangles : Array Triangle
  /-- Every vertex has a normal. -/
  size_normals : normals.size = positions.size
  /-- Every corner is a vertex. -/
  inRange : ∀ t ∈ triangles, t.InRange positions.size

namespace Mesh

variable {α : Type}

/-- The number of vertices. -/
@[inline] def vertexCount (m : Mesh α) : Nat :=
  m.positions.size

/-- The number of triangles. -/
@[inline] def triangleCount (m : Mesh α) : Nat :=
  m.triangles.size

/-- The position of a vertex. -/
@[inline] def position (m : Mesh α) (i : Nat) : Outcome (Vec3 α) :=
  Outcome.get m.positions i

/-- The normal of a vertex. -/
@[inline] def normal (m : Mesh α) (i : Nat) : Outcome (Vec3 α) :=
  Outcome.get m.normals i

/-- The triangle of a number. -/
@[inline] def triangle (m : Mesh α) (i : Nat) : Outcome Triangle :=
  Outcome.get m.triangles i

/-- The number of the first triangle with a corner that is no vertex. -/
def firstOutOfRange? (vertices : Nat) (triangles : Array Triangle) : Option Nat :=
  triangles.findIdx? fun t => !decide (t.InRange vertices)

theorem inRange_of_firstOutOfRange?_eq_none {vertices : Nat} {triangles : Array Triangle}
    (h : firstOutOfRange? vertices triangles = none) : ∀ t ∈ triangles, t.InRange vertices := by
  intro t ht
  have := Array.findIdx?_eq_none_iff.1 h t ht
  simpa using this

variable [Scalar α]

/-- The unit vector in the direction of a normal. A vector without a direction is replaced by the
third axis. -/
@[specialize] def normalizeOrUp (n : Vec3 α) : Vec3 α :=
  let len := n.length
  if decide (0 < len) && Scalar.isFinite len then n.scale (1 / len) else ⟨0, 0, 1⟩

/-- Adds the edge cross product of a triangle to the normals of its corners. -/
@[specialize] def addFaceNormal (positions : Array (Vec3 α)) (normals : Array (Vec3 α))
    (t : Triangle) : Array (Vec3 α) :=
  let vertex (i : UInt32) : Vec3 α := positions[i.toNat]?.getD Vec3.zero
  let p := vertex t.i0
  let n := (vertex t.i1 - p).cross (vertex t.i2 - p)
  t.toList.foldl (fun normals i => normals.modify i.toNat (· + n)) normals

/-- The sums of the edge cross products around every vertex. -/
@[specialize] def faceNormalSums (positions : Array (Vec3 α)) (triangles : Array Triangle) :
    Array (Vec3 α) :=
  triangles.foldl (addFaceNormal positions) (Array.replicate positions.size Vec3.zero)

/-- Normals for vertices that have none. -/
@[specialize] def generateNormals (positions : Array (Vec3 α)) (triangles : Array Triangle) :
    Array (Vec3 α) :=
  (faceNormalSums positions triangles).map normalizeOrUp

theorem size_addFaceNormal (positions normals : Array (Vec3 α)) (t : Triangle) :
    (addFaceNormal positions normals t).size = normals.size := by
  simp [addFaceNormal, Triangle.toList]

theorem size_generateNormals (positions : Array (Vec3 α)) (triangles : Array Triangle) :
    (generateNormals positions triangles).size = positions.size := by
  have fold (ts : List Triangle) (normals : Array (Vec3 α)) :
      (ts.foldl (addFaceNormal positions) normals).size = normals.size := by
    induction ts generalizing normals with
    | nil => rfl
    | cons t ts ih => rw [List.foldl_cons, ih, size_addFaceNormal]
  rw [generateNormals, Array.size_map, faceNormalSums, ← Array.foldl_toList, fold,
    Array.size_replicate]

/-- A mesh from its parts. Every corner has to be a vertex, and normals have to be one per vertex
if they are given; otherwise they are generated. -/
@[specialize] def build (positions : Array (Vec3 α)) (normals : Option (Array (Vec3 α)))
    (triangles : Array Triangle) : Outcome (Mesh α) :=
  match h : firstOutOfRange? positions.size triangles with
  | some i => report (.triangleOutOfRange i positions.size)
  | none =>
    have inRange := inRange_of_firstOutOfRange?_eq_none h
    match normals with
    | some normals =>
      if size : normals.size = positions.size then
        .ok ⟨positions, normals.map normalizeOrUp, triangles,
          by rw [Array.size_map, size], inRange⟩
      else report (.normalCount normals.size positions.size)
    | none =>
      .ok ⟨positions, generateNormals positions triangles, triangles,
        size_generateNormals positions triangles, inRange⟩

/-- The unit normal at the point of a triangle with given corner weights. -/
@[specialize] def blendNormal (m : Mesh α) (t : Triangle) (weights : Vec3 α) :
    Outcome (Vec3 α) := do
  let n0 ← m.normal t.i0.toNat
  let n1 ← m.normal t.i1.toNat
  let n2 ← m.normal t.i2.toNat
  pure (normalizeOrUp (n0.scale weights.x + n1.scale weights.y + n2.scale weights.z))

end Mesh

end RadianceTransfer
