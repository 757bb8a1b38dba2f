import RadianceTransfer.Bvh.Split
import RadianceTransfer.Mesh.Basic

/-!
# The triangles of a hierarchy

A hierarchy of boxes is built over the triangles of all meshes. Each of them is known by the number
of its mesh and its own number in it, and comes with the box around its corners and the center of
that box.

## Main definitions

* `triangleBox`: the box of a triangle.
* `primitives`: the triangles of a list of meshes.
-/

namespace RadianceTransfer.Bvh

variable {α : Type} [Scalar α]

/-- The box of a triangle of a mesh. -/
@[specialize] def triangleBox (m : Mesh α) (t : Triangle) : Box α :=
  t.toList.foldl (fun b i => b.addPoint (m.positions[i.toNat]?.getD Vec3.zero)) Box.empty

/-- The triangles of a list of meshes, mesh by mesh. -/
@[specialize] def primitives (meshes : Array (Mesh α)) : List (Primitive α) :=
  meshes.toList.zipIdx.flatMap fun (m, mesh) =>
    m.triangles.toList.zipIdx.map fun (t, triangle) =>
      let box := triangleBox m t
      ⟨⟨mesh, triangle⟩, box, box.centroid⟩

end RadianceTransfer.Bvh
