import RadianceTransfer.Bvh.Layout
import RadianceTransfer.Proofs.Outcome

/-!
# Trees of triangles

A hierarchy is written as arrays, but its triangles are divided like the parts of a tree, and most
of what there is to say of it goes by induction on that tree. Dividing gives a tree, and a tree has
a layout: what its nodes and its triangles are in the arrays.

## Main definitions

* `Tree`: leaves with triangles, and nodes with two parts.
* `Tree.build`: the tree of a list of triangles.
* `Tree.nodes`: the nodes of a tree; their number is the size of the tree, `Tree.length_nodes`.
* `Tree.layout`: the arrays of a tree.

## Main statements

* `Tree.build_of_leaf`, `Tree.build_of_halves`, `Tree.build_eq_violate`: one call of `Tree.build`.
* `Tree.parts_of_build`: the calls below it.
-/

namespace RadianceTransfer.Bvh

/-- A hierarchy of boxes. -/
inductive Tree (α : Type) where
  /-- Triangles that stay together. -/
  | leaf (box : Box α) (prims : List PrimRef)
  /-- Two parts, divided along an axis. -/
  | node (box : Box α) (axis : Axis) (left right : Tree α)

namespace Tree

variable {α : Type}

/-- The box around everything below. -/
def box : Tree α → Box α
  | leaf b _ => b
  | node b _ _ _ => b

/-- The triangles of the leaves from left to right. -/
def prims : Tree α → List PrimRef
  | leaf _ ps => ps
  | node _ _ l r => l.prims ++ r.prims

/-- The number of leaves and nodes. -/
def size : Tree α → Nat
  | leaf _ _ => 1
  | node _ _ l r => 1 + l.size + r.size

/-- The nodes of a tree, depth first, when the first one is put at a given place and its triangles
start at a given one. -/
def nodes : Tree α → (place first : Nat) → List (Node α)
  | leaf box ps, _, first => [⟨box, .leaf first ps.length⟩]
  | node box axis l r, place, first =>
    let right := place + 1 + l.size
    ⟨box, .interior right axis⟩ ::
      (l.nodes (place + 1) first ++ r.nodes right (first + l.prims.length))

@[simp] theorem length_nodes (t : Tree α) (place first : Nat) :
    (t.nodes place first).length = t.size := by
  induction t generalizing place first with
  | leaf _ _ => rfl
  | node _ _ l r ihl ihr => simp [nodes, size, ihl, ihr]; omega

/-- The arrays of a tree. -/
def layout (t : Tree α) : Hierarchy α :=
  ⟨t.prims.toArray, (t.nodes 0 0).toArray⟩

variable [Scalar α]

/-- The tree of a list of triangles. Each part of a division has to be smaller than the whole. -/
def build (a : Arrangement) (maxPerLeaf : Nat) (ps : List (Primitive α)) : Outcome (Tree α) :=
  match split a maxPerLeaf ps with
  | .leaf => .ok (leaf (boxOf ps) (ps.map Primitive.ref))
  | .halves axis left right =>
    if _h : left.length < ps.length ∧ right.length < ps.length then do
      let l ← build a maxPerLeaf left
      let r ← build a maxPerLeaf right
      pure (node (boxOf ps) axis l r)
    else violate .capacity
termination_by ps.length
decreasing_by
  · omega
  · omega

variable {a : Arrangement} {m : Nat} {ps l r : List (Primitive α)} {axis : Axis} {t : Tree α}

theorem build_of_leaf (h : split a m ps = .leaf) :
    build a m ps = .ok (leaf (boxOf ps) (ps.map Primitive.ref)) := by
  rw [build, h]

theorem build_of_halves (h : split a m ps = .halves axis l r)
    (hlt : l.length < ps.length ∧ r.length < ps.length) :
    build a m ps = build a m l >>= fun tl => build a m r >>= fun tr =>
      pure (node (boxOf ps) axis tl tr) := by
  rw [build, h]
  exact dif_pos hlt

/-- A part that is the whole leaves building without end. -/
theorem build_eq_violate (h : split a m ps = .halves axis l r)
    (hlength : ¬ (l.length < ps.length ∧ r.length < ps.length)) :
    build a m ps = violate .capacity := by
  rw [build, h]
  exact dif_neg hlength

/-- If building ends for triangles that are divided, both parts are smaller and it ends for them. -/
theorem parts_of_build (ht : build a m ps = .ok t) (h : split a m ps = .halves axis l r) :
    (l.length < ps.length ∧ r.length < ps.length) ∧ ∃ tl tr, build a m l = .ok tl ∧
      build a m r = .ok tr ∧ t = node (boxOf ps) axis tl tr := by
  by_cases hlt : l.length < ps.length ∧ r.length < ps.length
  · rw [build_of_halves h hlt] at ht
    obtain ⟨tl, hl, hrest⟩ := Outcome.bind_eq_ok_iff.1 ht
    obtain ⟨tr, hr, ⟨⟩⟩ := Outcome.bind_eq_ok_iff.1 hrest
    exact ⟨hlt, tl, tr, hl, hr, rfl⟩
  · rw [build_eq_violate h hlt] at ht
    cases ht

end Tree

end RadianceTransfer.Bvh
