import RadianceTransfer.Bvh.Primitives

/-!
# The layout of a hierarchy

A hierarchy is kept as two arrays. The nodes come depth first, so the left part of a node directly
follows it and only the place of the right part is stored. The triangles come in the order of the
leaves, so a leaf is a range of them.

Both arrays are written while the triangles are divided. A node has to be there before its parts,
but where the right one goes shows only when the left one is written. So the node is put down with
place 0 instead, and patched when both parts are there.

## Main definitions

* `Node`: a node of the array.
* `Hierarchy`: both arrays.
* `Hierarchy.write`: divides some triangles and writes what comes of it behind what is there.
* `Hierarchy.build`: the hierarchy of the triangles of some meshes.
-/

namespace RadianceTransfer.Bvh

/-- What a node of the array stands for. -/
inductive NodeKind where
  /-- A leaf: the first of its triangles, and how many there are. -/
  | leaf (first count : Nat)
  /-- A division along an axis, with the place of the right part. -/
  | interior (right : Nat) (axis : Axis)
  deriving DecidableEq

/-- A node of the array. -/
structure Node (α : Type) where
  /-- The box around everything below. -/
  box : Box α
  /-- What the node stands for. -/
  kind : NodeKind

/-- A hierarchy as arrays. -/
structure Hierarchy (α : Type) where
  /-- The triangles in the order of the leaves. -/
  prims : Array PrimRef
  /-- The nodes, depth first. -/
  nodes : Array (Node α)

namespace Hierarchy

variable {α : Type}

/-- Puts down a node whose parts are yet to be written. -/
@[inline] def reserve (h : Hierarchy α) (box : Box α) (axis : Axis) : Hierarchy α :=
  { h with nodes := h.nodes.push ⟨box, .interior 0 axis⟩ }

/-- Writes into a node where its right part is. -/
@[inline] def patch (h : Hierarchy α) (place right : Nat) (axis : Axis) :
    Outcome (Hierarchy α) := do
  let node ← Outcome.get h.nodes place
  pure { h with nodes := h.nodes.setIfInBounds place { node with kind := .interior right axis } }

variable [Scalar α]

/-- Writes some triangles, and a leaf for them. Returns the place of the leaf. -/
@[specialize] def pushLeaf (ps : List (Primitive α)) (h : Hierarchy α) : Nat × Hierarchy α :=
  let nodes := h.nodes.push ⟨boxOf ps, .leaf h.prims.size ps.length⟩
  (nodes.size - 1, ⟨h.prims ++ (ps.map Primitive.ref).toArray, nodes⟩)

/-- Divides some triangles and writes what comes of it: a leaf if they stay together, and a node
with both parts behind it otherwise. Returns the place of the leaf or the node. Each part has to be
smaller than the whole; otherwise dividing would not end. -/
@[specialize] def write (a : Arrangement) (maxPerLeaf : Nat) (ps : List (Primitive α))
    (h : Hierarchy α) : Outcome (Nat × Hierarchy α) :=
  match split a maxPerLeaf ps with
  | .leaf => .ok (pushLeaf ps h)
  | .halves axis left right =>
    if _h : left.length < ps.length ∧ right.length < ps.length then do
      let place := h.nodes.size
      let (_, h) ← write a maxPerLeaf left (h.reserve (boxOf ps) axis)
      let (rightPlace, h) ← write a maxPerLeaf right h
      let h ← h.patch place rightPlace axis
      pure (place, h)
    else violate .capacity
termination_by ps.length
decreasing_by
  · omega
  · omega

/-- The hierarchy of the triangles of some meshes. There is no node if there are no triangles. -/
@[specialize] def build (a : Arrangement) (meshes : Array (Mesh α)) (maxPerLeaf : Nat) :
    Outcome (Hierarchy α) :=
  match primitives meshes with
  | [] => .ok ⟨#[], #[]⟩
  | ps => do
    let (_, h) ← write a (max maxPerLeaf 1) ps ⟨#[], #[]⟩
    pure h

/-- The box around everything. -/
@[inline] def box (h : Hierarchy α) : Box α :=
  match h.nodes[0]? with
  | some node => node.box
  | none => Box.empty

end Hierarchy

end RadianceTransfer.Bvh
