import RadianceTransfer.Proofs.Bvh.Queries

/-!
# The arrays of a hierarchy

What can be relied on in the two arrays of every hierarchy that is built: which triangles there are,
how the nodes make a tree, which ranges the leaves have, and how large boxes and leaves are. All of
it is said of the arrays that are written and of the meshes, not of the tree that was divided.

The numbers in the arrays are meant for words of 32 bits. Those of nodes and of triangles are kept
small by the number of triangles. The number of a mesh is not, since there may be any number of
meshes without triangles in front of it, so it takes a bound of its own.

## Main definitions

* `Hierarchy.WellFormed`: what can be relied on.
* `NodeKind.numbers`: the numbers in a node.

## Main statements

* `Hierarchy.WellFormed.le_of_mem_numbers`, `Hierarchy.WellFormed.isTriangle_lt`: how large the
  numbers are.
* `Hierarchy.exists_wellFormed`: building ends with arrays that are well-formed, whose numbers fit
  words, and over which no question leaves a range.
-/

namespace RadianceTransfer.Bvh

namespace Hierarchy

variable {α : Type} [Scalar α]

/-- The arrays of a hierarchy as they should be. -/
structure WellFormed (h : Hierarchy α) (meshes : Array (Mesh α)) (maxPerLeaf : Nat) : Prop where
  /-- No triangle comes twice. -/
  nodup : h.prims.toList.Nodup
  /-- The triangles are those of the meshes. -/
  mem_prims : ∀ p, p ∈ h.prims ↔ IsTriangle meshes p
  /-- All nodes together are those of a tree whose leaves hold all triangles. -/
  root : 0 < h.nodes.size → h.Spans 0 h.nodes.size h.prims.toList
  /-- From every place on there are the nodes of a tree. -/
  spans : ∀ i < h.nodes.size, ∃ stop ps, h.Spans i stop ps
  /-- The left part of a node follows it, the right part follows the left one; both are there. -/
  parts : ∀ (i : Nat) (box : Box α) (right : Nat) (axis : Axis),
    h.nodes[i]? = some ⟨box, .interior right axis⟩ →
    i + 1 < right ∧ right < h.nodes.size ∧ ∃ ps, h.Spans (i + 1) right ps
  /-- Every node but the first is a part of exactly one other. -/
  parent : ∀ j : Nat, 0 < j → j < h.nodes.size → ∃! i, h.IsChild i j
  /-- The ranges of the leaves are not empty and follow one another through all triangles. -/
  leaves : Follow 0 h.prims.size h.leafRanges
  /-- The box of a node is the smallest one around the corners of the triangles below it. -/
  box : ∀ (i : Nat) (node : Node α) (stop : Nat) (ps : List PrimRef),
    h.nodes[i]? = some node → h.Spans i stop ps →
    node.box.IsHull fun v => ∃ p ∈ ps, IsCorner meshes p v
  /-- A leaf holds more triangles than it should only if their centers coincide. -/
  crowded : ∀ (i : Nat) (box : Box α) (first count : Nat),
    h.nodes[i]? = some ⟨box, .leaf first count⟩ → max maxPerLeaf 1 < count →
    ∀ p ∈ primitives meshes, ∀ q ∈ primitives meshes,
      p.ref ∈ h.prims.extract first (first + count) →
      q.ref ∈ h.prims.extract first (first + count) → p.centroid = q.centroid

theorem wellFormed_empty {meshes : Array (Mesh α)} (hnone : primitives meshes = [])
    (maxPerLeaf : Nat) : WellFormed ⟨#[], #[]⟩ meshes maxPerLeaf where
  nodup := List.nodup_nil
  mem_prims p := by
    rw [← mem_refs_iff, hnone]
    simp
  root h := absurd h (lt_irrefl 0)
  spans i h := absurd h (Nat.not_lt_zero i)
  parts i box right axis h := by simp at h
  parent j _ h := absurd h (Nat.not_lt_zero j)
  leaves := .nil 0
  box i node stop ps h := by simp at h
  crowded i box first count h := by simp at h

end Hierarchy

/-! ### The numbers in the arrays -/

/-- The numbers in a node. -/
def NodeKind.numbers : NodeKind → List Nat
  | .leaf first count => [first, count]
  | .interior right _ => [right]

namespace Hierarchy.WellFormed

variable {α : Type} [Scalar α] {h : Hierarchy α} {meshes : Array (Mesh α)} {m : Nat}

/-- A node has the place of another node, or the range of some triangles. -/
theorem le_of_mem_numbers (hwf : h.WellFormed meshes m) {node : Node α} (hnode : node ∈ h.nodes)
    {n : Nat} (hn : n ∈ node.kind.numbers) : n ≤ max h.nodes.size h.prims.size := by
  obtain ⟨box, kind⟩ := node
  cases kind with
  | leaf first count =>
    have hrange : (first, count) ∈ h.leafRanges :=
      List.mem_filterMap.2 ⟨_, Array.mem_toList_iff.2 hnode, rfl⟩
    have hle := hwf.leaves.le_stop.2 _ hrange
    simp only [NodeKind.numbers, List.mem_cons, List.not_mem_nil, or_false] at hn
    dsimp only at hle
    omega
  | interior right axis =>
    obtain ⟨i, hi⟩ := Array.mem_iff_getElem?.1 hnode
    obtain ⟨-, hlt, -⟩ := hwf.parts i box right axis hi
    obtain rfl : n = right := by simpa [NodeKind.numbers] using hn
    omega

/-- A triangle has the number of a mesh, and one of the numbers of the triangles of all meshes. -/
theorem isTriangle_lt (hwf : h.WellFormed meshes m) {p : PrimRef} (hp : p ∈ h.prims) :
    p.mesh < meshes.size ∧ p.triangle < (primitives meshes).length := by
  obtain ⟨mesh, hmesh, hlt⟩ := (hwf.mem_prims p).1 hp
  have hle := List.le_sum_of_mem (List.mem_map_of_mem (f := Mesh.triangleCount)
    (Array.mem_toList_iff.2 (Array.mem_of_getElem? hmesh)))
  rw [← length_primitives] at hle
  exact ⟨(Array.getElem?_eq_some_iff.1 hmesh).1, hlt.trans_le hle⟩

end Hierarchy.WellFormed

/-! ### The layout of a tree -/

section

variable {α : Type} [Scalar α] {meshes : Array (Mesh α)} {m : Nat}

/-- The triangles of a leaf that holds more than it should. -/
theorem Tree.Within.crowded {box : Box α} {qs : List PrimRef} (h : (leaf box qs).Within meshes m)
    (hlt : max m 1 < qs.length) {p q : Primitive α} (hp : p ∈ primitives meshes)
    (hq : q ∈ primitives meshes) (hpq : p.ref ∈ qs) (hqq : q.ref ∈ qs) :
    p.centroid = q.centroid := by
  obtain ⟨ps, hps, ht⟩ := h
  cases ht with
  | leaf hne hcoincide =>
    rw [List.length_map] at hlt
    -- a triangle is determined by its number
    have mem {p : Primitive α} (hp : p ∈ primitives meshes) (href : p.ref ∈ ps.map Primitive.ref) :
        p ∈ ps := by
      obtain ⟨p', hp', heq⟩ := List.mem_map.1 href
      rwa [← List.inj_on_of_nodup_map nodup_primitives (hps p' hp') hp heq]
    exact hcoincide.resolve_left (Nat.not_le.2 hlt) p (mem hp hpq) q (mem hq hqq)

end

variable {K : Type} [Field K] [LinearOrder K] [FloorSemiring K] [ExactFunctions K]
  {meshes : Array (Mesh (Exact K))} {maxPerLeaf : Nat}

theorem Hierarchy.wellFormed_layout (hfin : ∀ m ∈ meshes, m.IsFinite) {t : Tree (Exact K)}
    (ht : t.Arises (max maxPerLeaf 1) (primitives meshes)) :
    t.layout.WellFormed meshes maxPerLeaf := by
  have hsize : t.layout.nodes.size = t.size := by simp [Tree.layout]
  have hprims : t.layout.prims.toList = t.prims := rfl
  have hwithin : t.Within meshes (max maxPerLeaf 1) := ⟨_, fun _ hp => hp, ht⟩
  -- at every place there is a subtree
  have subtree {i : Nat} (hi : i < t.layout.nodes.size) :
      ∃ (s : Tree (Exact K)) (first : Nat), s.At t.layout i first ∧
        s.Within meshes (max maxPerLeaf 1) ∧ i + s.size ≤ t.size := by
    obtain ⟨s, first, hs, hsw, hle⟩ := t.layout_at.exists_subtree Tree.Within.parts hwithin
      (Nat.zero_le i) (by omega)
    exact ⟨s, first, hs, hsw, by omega⟩
  have inside {i : Nat} {node : Node (Exact K)} (hn : t.layout.nodes[i]? = some node) :
      i < t.layout.nodes.size := (Array.getElem?_eq_some_iff.1 hn).1
  constructor
  case nodup =>
    rw [hprims]
    exact ht.prims_perm.nodup_iff.2 nodup_primitives
  case mem_prims =>
    intro p
    rw [← Array.mem_toList_iff, hprims, ht.prims_perm.mem_iff, mem_refs_iff]
  case root =>
    intro _
    rw [hsize, hprims, ← Nat.zero_add t.size]
    exact t.layout_at.spans
  case spans =>
    intro i hi
    obtain ⟨s, first, hs, -, -⟩ := subtree hi
    exact ⟨_, _, hs.spans⟩
  case parts =>
    intro i box right axis hn
    obtain ⟨s, first, hs, -, hle⟩ := subtree (inside hn)
    cases s with
    | leaf => simp [hs.1] at hn
    | node _ _ l r =>
      obtain ⟨-, rfl, -⟩ : _ ∧ _ ∧ _ := by simpa [hs.1] using hn
      have := l.size_pos
      have := r.size_pos
      rw [Tree.size] at hle
      exact ⟨by omega, by omega, _, hs.2.1.spans⟩
  case parent =>
    intro j hj hlt
    exact t.existsUnique_parent hj (by omega)
  case leaves =>
    rw [show t.layout.prims.size = 0 + t.prims.length by simp [Tree.layout]]
    exact Tree.follow_leafRanges Tree.Within.parts Tree.Within.ne_nil hwithin 0 0
  case box =>
    intro i node stop ps hn hspans
    obtain ⟨s, first, hs, hsw, -⟩ := subtree (inside hn)
    obtain ⟨kind, hkind⟩ := hs.exists_node
    obtain rfl : node = ⟨s.box, kind⟩ := by simpa [hkind, eq_comm] using hn
    obtain ⟨-, rfl⟩ := hspans.unique hs.spans
    exact (hsw.box_fits hfin).isHull
  case crowded =>
    intro i box first count hn hlt p hp q hq hpr hqr
    obtain ⟨s, first', hs, hsw, -⟩ := subtree (inside hn)
    cases s with
    | node => simp [hs.1] at hn
    | leaf _ qs =>
      obtain ⟨rfl, rfl, rfl⟩ : _ ∧ _ ∧ _ := by simpa [hs.1] using hn
      rw [← Array.mem_toList_iff, hs.2.2] at hpr hqr
      exact hsw.crowded (by omega) hp hq hpr hqr

variable [IsStrictOrderedRing K]

/-- **Building ends with well-formed arrays**: what is written while the triangles are divided, with
every node patched, is well-formed. As long as there are fewer than `2 ^ 31` triangles, the numbers
of nodes and triangles fit words of 32 bits, and those of meshes do if there are at most `2 ^ 32`
meshes. Over these arrays no question leaves a range, whatever the ray: it is answered, or the stack
was full. -/
theorem Hierarchy.exists_wellFormed {a : Arrangement} (ha : a.Lawful)
    (hfin : ∀ m ∈ meshes, m.IsFinite)
    (hcount : (meshes.toList.map Mesh.triangleCount).sum < 2 ^ 31) (maxPerLeaf : Nat) :
    ∃ h, build a meshes maxPerLeaf = .ok h ∧ h.WellFormed meshes maxPerLeaf ∧
      h.nodes.size < 2 ^ 32 ∧ h.prims.size < 2 ^ 32 ∧
      (∀ node ∈ h.nodes, ∀ n ∈ node.kind.numbers, n < 2 ^ 32) ∧
      (∀ p ∈ h.prims, p.triangle < 2 ^ 32 ∧ (meshes.size ≤ 2 ^ 32 → p.mesh < 2 ^ 32)) ∧
      ∀ (capacity : Option Nat) (ray : Ray (Exact K)) (tFar : Exact K),
        ((∃ closest, h.closestHitWithin capacity meshes ray tFar = .ok closest) ∨
          capacity ≠ none ∧ h.closestHitWithin capacity meshes ray tFar = violate .capacity) ∧
        ((∃ found, h.isHitWithin capacity meshes ray tFar = .ok found) ∨
          capacity ≠ none ∧ h.isHitWithin capacity meshes ray tFar = violate .capacity) := by
  obtain ⟨h, hbuild, harises⟩ := exists_build ha hfin maxPerLeaf
  rw [← length_primitives] at hcount
  have hwf : h.WellFormed meshes maxPerLeaf := by
    cases harises with
    | empty hnone => exact wellFormed_empty hnone maxPerLeaf
    | layout ht => exact wellFormed_layout hfin ht
  have hsize : h.nodes.size ≤ 2 * (primitives meshes).length ∧
      h.prims.size ≤ (primitives meshes).length := by
    cases harises with
    | empty hnone => simp
    | layout ht =>
      have hprims := ht.prims_perm.length_eq
      rw [List.length_map] at hprims
      simp [Tree.layout, hprims, ht.size_lt.le]
  refine ⟨h, hbuild, hwf, by omega, by omega, fun node hnode n hn => ?_, fun p hp => ?_,
    fun capacity ray tFar => ⟨?_, ?_⟩⟩
  · have hle := hwf.le_of_mem_numbers hnode hn
    omega
  · obtain ⟨hmesh, htriangle⟩ := hwf.isTriangle_lt hp
    exact ⟨by omega, fun hmeshes => hmesh.trans_le hmeshes⟩
  · refine (harises.closestHitWithin capacity ray tFar).imp_right ?_
    rintro ⟨⟨c, hc, -⟩, hfull⟩
    exact ⟨by simp [hc], hfull⟩
  · refine (harises.isHitWithin capacity ray tFar).imp_right ?_
    rintro ⟨⟨c, hc, -⟩, hfull⟩
    exact ⟨by simp [hc], hfull⟩

/-- Two triangles. -/
theorem Hierarchy.exists_wellFormed_tiles :
    ∃ h, build .stable tiles 1 = .ok h ∧ h.WellFormed tiles 1 ∧ ∀ p ∈ h.prims, p.mesh < 2 ^ 32 := by
  obtain ⟨h, hbuild, hwf, -, -, -, hprims, -⟩ := exists_wellFormed Arrangement.lawful_stable
    tiles_isFinite (by decide) 1
  exact ⟨h, hbuild, hwf, fun p hp => (hprims p hp).2 (by decide)⟩

end RadianceTransfer.Bvh
