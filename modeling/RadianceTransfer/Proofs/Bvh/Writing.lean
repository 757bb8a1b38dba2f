import RadianceTransfer.Proofs.Bvh.Tree

/-!
# What writing a hierarchy writes

The arrays grow while the triangles are divided, and a node is patched after its parts have been
written. Whatever is in the arrays before, writing puts the tree of the triangles behind it and
changes nothing else: its nodes as `Tree.nodes` numbers them from the place where they start, and
its triangles from the place where those start. The induction is on the triangles, for all arrays
that may be there before, since the second part is written behind the first one.

## Main definitions

* `Hierarchy.append`: a tree behind what is there.

## Main statements

* `Hierarchy.patch_append`: patching a node that is followed by both its parts.
* `Hierarchy.write_eq`: what writing writes.
* `Hierarchy.build_eq`: a hierarchy is the layout of a tree.
-/

namespace RadianceTransfer.Bvh.Hierarchy

variable {α : Type}

/-- A tree behind what is there. -/
def append (h : Hierarchy α) (t : Tree α) : Hierarchy α :=
  ⟨h.prims ++ t.prims.toArray, h.nodes ++ (t.nodes h.nodes.size h.prims.size).toArray⟩

@[simp] theorem size_nodes_append (h : Hierarchy α) (t : Tree α) :
    (h.append t).nodes.size = h.nodes.size + t.size := by
  simp [append]

@[simp] theorem size_nodes_reserve (h : Hierarchy α) (box : Box α) (axis : Axis) :
    (h.reserve box axis).nodes.size = h.nodes.size + 1 :=
  Array.size_push _

theorem empty_append (t : Tree α) : append ⟨#[], #[]⟩ t = t.layout := by
  simp [append, Tree.layout]

/-- With both parts behind a node, everything but the node is as in the tree. -/
theorem reserve_append_append (h : Hierarchy α) (box : Box α) (axis : Axis) (l r : Tree α) :
    ((h.reserve box axis).append l).append r =
      ⟨h.prims ++ (l.prims ++ r.prims).toArray,
        h.nodes ++ (⟨box, .interior 0 axis⟩ :: (l.nodes (h.nodes.size + 1) h.prims.size ++
          r.nodes (h.nodes.size + 1 + l.size) (h.prims.size + l.prims.length))).toArray⟩ := by
  simp [append, reserve, Nat.add_right_comm _ 1, Nat.add_assoc]

theorem patch_eq {h : Hierarchy α} {place : Nat} {node : Node α}
    (hn : h.nodes[place]? = some node) (right : Nat) (axis : Axis) :
    h.patch place right axis =
      .ok ⟨h.prims, h.nodes.setIfInBounds place ⟨node.box, .interior right axis⟩⟩ := by
  rw [patch, Outcome.get_eq_ok_iff.2 hn, Outcome.bind_ok]
  rfl

/-- Patched with the place of its second part, the node is as in the tree too. -/
theorem patch_append (h : Hierarchy α) (box : Box α) (axis : Axis) (l r : Tree α) :
    (((h.reserve box axis).append l).append r).patch h.nodes.size (h.nodes.size + 1 + l.size) axis =
      .ok (h.append (.node box axis l r)) := by
  have hnode : (((h.reserve box axis).append l).append r).nodes[h.nodes.size]? =
      some ⟨box, .interior 0 axis⟩ := by
    simp [reserve_append_append]
  rw [patch_eq hnode, reserve_append_append]
  simp [append, Tree.nodes, Tree.prims]

variable [Scalar α]

theorem pushLeaf_eq (ps : List (Primitive α)) (h : Hierarchy α) :
    pushLeaf ps h = (h.nodes.size, h.append (.leaf (boxOf ps) (ps.map Primitive.ref))) := by
  simp [pushLeaf, append, Tree.prims, Tree.nodes]

/-- **Writing puts the tree of the triangles behind what is there**, and returns the place where it
starts. -/
theorem write_eq (a : Arrangement) (m : Nat) (ps : List (Primitive α)) (h : Hierarchy α) :
    write a m ps h = Tree.build a m ps >>= fun t => pure (h.nodes.size, h.append t) := by
  fun_induction write a m ps h with
  | case1 ps h hsplit =>
    rw [Tree.build_of_leaf hsplit, pushLeaf_eq]
    rfl
  | case2 ps h axis left right hsplit hlt place ihl ihr =>
    -- the hypotheses are about other arrays: the first part goes behind the node, the second one
    -- behind the first
    rw [Tree.build_of_halves hsplit hlt, ihl]
    simp only [ihr, bind_assoc, pure_bind]
    refine Outcome.bind_congr fun l _ => Outcome.bind_congr fun r _ => ?_
    rw [size_nodes_append, size_nodes_reserve, patch_append, Outcome.bind_ok]
  | case3 ps h axis left right hsplit hlt =>
    rw [Tree.build_eq_violate hsplit hlt]
    rfl

/-- Without triangles there is nothing to write. -/
theorem build_of_eq_nil (a : Arrangement) {meshes : Array (Mesh α)} (hnone : primitives meshes = [])
    (m : Nat) : build a meshes m = .ok ⟨#[], #[]⟩ := by
  rw [build, hnone]

/-- What is built is the layout of the tree of the triangles. -/
theorem build_eq (a : Arrangement) {meshes : Array (Mesh α)} (hne : primitives meshes ≠ [])
    (m : Nat) : build a meshes m =
      Tree.build a (max m 1) (primitives meshes) >>= fun t => pure t.layout := by
  rw [build]
  split
  · rename_i hnone
    exact absurd hnone hne
  · simp only [write_eq, bind_assoc, pure_bind, empty_append]

end RadianceTransfer.Bvh.Hierarchy
