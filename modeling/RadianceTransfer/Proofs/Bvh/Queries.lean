import RadianceTransfer.Proofs.Bvh.Primitives
import RadianceTransfer.Proofs.Bvh.Walk
import RadianceTransfer.Proofs.Bvh.Writing

/-!
# Questions to a hierarchy

A hierarchy that is built has no nodes, or is the layout of a tree that arises from the triangles of
the meshes. Asked with a ray, it does what a walk of the tree does, and every triangle on the way is
there. So a question is answered unless the stack is full, and the stack is never full if it has
room for as many parts as the tree is high.

## Main definitions

* `Hierarchy.Arises`: the hierarchies of the triangles of some meshes.

## Main statements

* `Hierarchy.exists_build`: building ends with one of them.
* `Hierarchy.Arises.answers`: what becomes of a question.
-/

namespace RadianceTransfer.Bvh

section

variable {α σ : Type} [Scalar α] {meshes : Array (Mesh α)} {frame : RayFrame α} {ray : Ray α}
  {m : Nat}

/-- The test of a triangle that there is, by its corners. -/
theorem exists_hitPrim {p : PrimRef} (hp : IsTriangle meshes p) :
    ∃ c0 c1 c2, IsCorner meshes p c0 ∧ IsCorner meshes p c1 ∧ IsCorner meshes p c2 ∧
      ∀ (frame : RayFrame α) (ray : Ray α) (tFar : α),
        hitPrim meshes frame ray tFar p = .ok (frame.hit? ray tFar c0 c1 c2) := by
  obtain ⟨m, hm, hlt⟩ := hp
  have ht : m.triangles[p.triangle]? = some m.triangles[p.triangle] :=
    Array.getElem?_eq_getElem hlt
  generalize m.triangles[p.triangle] = t at ht
  obtain ⟨c0, c1, c2, h0, h1, h2, hhit⟩ := exists_hit? (Array.mem_of_getElem? ht)
  refine ⟨c0, c1, c2, ⟨m, t, hm, ht, t.i0, by simp [Triangle.toList], h0⟩,
    ⟨m, t, hm, ht, t.i1, by simp [Triangle.toList], h1⟩,
    ⟨m, t, hm, ht, t.i2, by simp [Triangle.toList], h2⟩, fun frame ray tFar => ?_⟩
  rw [hitPrim, Outcome.get_eq_ok_iff.2 hm]
  show (m.triangle p.triangle >>= m.hit? frame ray tFar) = _
  rw [Mesh.triangle, Outcome.get_eq_ok_iff.2 ht]
  exact hhit frame ray tFar

theorem exists_nearest {p : PrimRef} (hp : IsTriangle meshes p) (tFar : α)
    (closest : Option (PrimRef × TriangleHit α)) :
    ∃ o, Visitor.nearest meshes frame ray p tFar closest = .ok o := by
  obtain ⟨c0, c1, c2, -, -, -, hhit⟩ := exists_hitPrim hp
  rw [Visitor.nearest, hhit]
  cases frame.hit? ray tFar c0 c1 c2 with
  | none => exact ⟨_, rfl⟩
  | some hit => exact ⟨_, rfl⟩

theorem exists_anyHit {p : PrimRef} (hp : IsTriangle meshes p) (tFar : α) (found : Bool) :
    ∃ o, Visitor.anyHit meshes frame ray p tFar found = .ok o := by
  obtain ⟨c0, c1, c2, -, -, -, hhit⟩ := exists_hitPrim hp
  rw [Visitor.anyHit, hhit]
  cases frame.hit? ray tFar c0 c1 c2 with
  | none => exact ⟨_, rfl⟩
  | some hit => exact ⟨_, rfl⟩

/-! ### Hierarchies that are built -/

/-- A tree that arises from some of the triangles of the meshes. -/
def Tree.Within (meshes : Array (Mesh α)) (m : Nat) (t : Tree α) : Prop :=
  ∃ ps, (∀ p ∈ ps, p ∈ primitives meshes) ∧ t.Arises m ps

theorem Tree.Within.parts {box : Box α} {axis : Axis} {l r : Tree α}
    (h : (node box axis l r).Within meshes m) : l.Within meshes m ∧ r.Within meshes m := by
  obtain ⟨ps, hps, ht⟩ := h
  cases ht with
  | node _ hs hl hr =>
    exact ⟨⟨_, fun p hp => hps p (hs.perm.subset (List.mem_append_left _ hp)), hl⟩,
      ⟨_, fun p hp => hps p (hs.perm.subset (List.mem_append_right _ hp)), hr⟩⟩

theorem Tree.Within.ne_nil {box : Box α} {qs : List PrimRef} (h : (leaf box qs).Within meshes m) :
    qs ≠ [] := by
  obtain ⟨ps, -, ht⟩ := h
  cases ht with
  | leaf hne => exact fun h => hne (List.map_eq_nil_iff.1 h)

theorem Tree.Within.isTriangle {t : Tree α} (h : t.Within meshes m) :
    ∀ p ∈ t.prims, IsTriangle meshes p := by
  obtain ⟨ps, hps, ht⟩ := h
  intro p hp
  obtain ⟨q, hq, rfl⟩ := List.mem_map.1 (ht.prims_perm.subset hp)
  exact mem_refs_iff.1 (List.mem_map_of_mem (hps q hq))

theorem Tree.Within.exists_prim {t : Tree α} (h : t.Within meshes m) : ∃ p, p ∈ t.prims := by
  obtain ⟨ps, -, ht⟩ := h
  obtain ⟨p, hp⟩ := List.exists_mem_of_ne_nil ps ht.ne_nil
  exact ⟨p.ref, ht.prims_perm.symm.subset (List.mem_map_of_mem hp)⟩

/-- What is built from the triangles of some meshes. -/
inductive Hierarchy.Arises (meshes : Array (Mesh α)) (maxPerLeaf : Nat) : Hierarchy α → Prop where
  /-- There are no triangles. -/
  | empty (hnone : primitives meshes = []) : Arises meshes maxPerLeaf ⟨#[], #[]⟩
  /-- The layout of a tree. -/
  | layout {t : Tree α} (ht : t.Arises (max maxPerLeaf 1) (primitives meshes)) :
      Arises meshes maxPerLeaf t.layout

namespace Hierarchy.Arises

variable {h : Hierarchy α} {maxPerLeaf : Nat}

/-- A question is answered, or there is less room than a tree of so many triangles can be high and
the stack was full. -/
theorem answers (ha : Arises meshes maxPerLeaf h) {visit : Visitor α σ}
    (hvisit : ∀ p, IsTriangle meshes p → ∀ tFar result, ∃ o, visit p tFar result = .ok o)
    (capacity : Option Nat) (ray : Ray α) (tFar : α) (result : σ) :
    (∃ answer, h.traverse capacity ray tFar result visit = .ok answer) ∨
      (∃ c, capacity = some c ∧ c < Tree.maxHeight (primitives meshes).length) ∧
        h.traverse capacity ray tFar result visit = violate .capacity := by
  cases ha with
  | empty => exact .inl ⟨result, rfl⟩
  | @layout t ht =>
    rw [t.traverse_layout]
    have hprims : ∀ p ∈ t.prims, ∀ tFar result, ∃ o, visit p tFar result = .ok o :=
      fun p hp => hvisit p (mem_refs_iff.1 (ht.prims_perm.subset hp))
    rcases Tree.walk_ok_or_full hprims capacity tFar result with ⟨o, ho⟩ | ⟨⟨c, hc, hlt⟩, hfull⟩
    · rw [ho]
      exact .inl ⟨o.2, rfl⟩
    · rw [hfull]
      exact .inr ⟨⟨c, hc, hlt.trans_le ht.height_le⟩, rfl⟩

/-- Both questions. -/
theorem closestHitWithin (ha : Arises meshes maxPerLeaf h) (capacity : Option Nat) (ray : Ray α)
    (tFar : α) :
    (∃ closest, h.closestHitWithin capacity meshes ray tFar = .ok closest) ∨
      (∃ c, capacity = some c ∧ c < Tree.maxHeight (primitives meshes).length) ∧
        h.closestHitWithin capacity meshes ray tFar = violate .capacity :=
  ha.answers (fun _ hp => exists_nearest hp) capacity ray tFar none

theorem isHitWithin (ha : Arises meshes maxPerLeaf h) (capacity : Option Nat) (ray : Ray α)
    (tFar : α) :
    (∃ found, h.isHitWithin capacity meshes ray tFar = .ok found) ∨
      (∃ c, capacity = some c ∧ c < Tree.maxHeight (primitives meshes).length) ∧
        h.isHitWithin capacity meshes ray tFar = violate .capacity :=
  ha.answers (fun _ hp => exists_anyHit hp) capacity ray tFar false

end Hierarchy.Arises

end

variable {K : Type} [Field K] [LinearOrder K] [FloorSemiring K] [ExactFunctions K]
  [IsStrictOrderedRing K] {a : Arrangement} {meshes : Array (Mesh (Exact K))}

omit [IsStrictOrderedRing K] in
/-- The box of a subtree fits the corners of the triangles below it. -/
theorem Tree.Within.box_fits (hfin : ∀ m ∈ meshes, m.IsFinite) {m : Nat} {t : Tree (Exact K)}
    (ht : t.Within meshes m) : t.box.Fits fun v => ∃ p ∈ t.prims, IsCorner meshes p v := by
  obtain ⟨ps, hps, hta⟩ := ht
  exact hta.box_fits fun p hp => fits_of_mem_primitives hfin p (hps p hp)

/-- **Building ends** with a hierarchy of the triangles. -/
theorem Hierarchy.exists_build (ha : a.Lawful) (hfin : ∀ m ∈ meshes, m.IsFinite)
    (maxPerLeaf : Nat) :
    ∃ h, build a meshes maxPerLeaf = .ok h ∧ h.Arises meshes maxPerLeaf := by
  by_cases hnone : primitives meshes = []
  · exact ⟨_, build_of_eq_nil a hnone maxPerLeaf, .empty hnone⟩
  · obtain ⟨t, ht, harises⟩ := Tree.exists_build (m := max maxPerLeaf 1) ha hnone
      (centroid_finite_of_mem_primitives hfin)
    refine ⟨t.layout, ?_, .layout harises⟩
    rw [build_eq a hnone, ht, Outcome.bind_ok]
    rfl

end RadianceTransfer.Bvh
