import RadianceTransfer.Bvh.Primitives
import RadianceTransfer.Proofs.Bvh.Search
import RadianceTransfer.Proofs.Geometry.Box

/-!
# The triangles of some meshes

The triangles from which a hierarchy is built are those of all meshes, each of them once. If all
positions are finite, the box of a triangle fits its corners and its center is finite.

## Main definitions

* `Mesh.IsFinite`: a mesh with finite positions.
* `Mesh.single`: the mesh of a single triangle.
* `IsTriangle`, `IsCorner`: the triangles that there are, and their corners.

## Main statements

* `mem_primitives_iff`, `nodup_primitives`, `length_primitives`: which triangles there are.
* `fits_of_mem_primitives`: their boxes.
-/

namespace RadianceTransfer

/-- A mesh with finite positions. -/
def Mesh.IsFinite {K : Type} (m : Mesh (Exact K)) : Prop :=
  ∀ v ∈ m.positions, v.IsFinite

/-- The mesh of a single triangle. -/
def Mesh.single {α : Type} [Scalar α] (c0 c1 c2 : Vec3 α) : Mesh α where
  positions := #[c0, c1, c2]
  normals := #[⟨0, 0, 1⟩, ⟨0, 0, 1⟩, ⟨0, 0, 1⟩]
  triangles := #[⟨0, 1, 2⟩]
  size_normals := rfl
  inRange := by simp [Triangle.InRange]

theorem Mesh.getElem?_triangles_single {α : Type} [Scalar α] {c0 c1 c2 : Vec3 α} {i : Nat}
    {t : Triangle} : (single c0 c1 c2).triangles[i]? = some t ↔ i = 0 ∧ t = ⟨0, 1, 2⟩ := by
  cases i <;> simp [single, eq_comm]

theorem Mesh.single_isFinite {K : Type} [Scalar (Exact K)] {c0 c1 c2 : Vec3 (Exact K)}
    (h0 : c0.IsFinite) (h1 : c1.IsFinite) (h2 : c2.IsFinite) : (single c0 c1 c2).IsFinite := by
  intro v hv
  simp only [single, List.mem_toArray, List.mem_cons, List.not_mem_nil, or_false] at hv
  rcases hv with rfl | rfl | rfl
  exacts [h0, h1, h2]

namespace Bvh

section

variable {α : Type}

/-- A triangle that there is. -/
def IsTriangle (meshes : Array (Mesh α)) (p : PrimRef) : Prop :=
  ∃ m, meshes[p.mesh]? = some m ∧ p.triangle < m.triangleCount

/-- The position of a corner of a triangle. -/
def IsCorner (meshes : Array (Mesh α)) (p : PrimRef) (v : Vec3 α) : Prop :=
  ∃ m t, meshes[p.mesh]? = some m ∧ m.triangles[p.triangle]? = some t ∧
    ∃ i ∈ t.toList, m.positions[i.toNat]? = some v

theorem IsCorner.isFinite {K : Type} {meshes : Array (Mesh (Exact K))} {p : PrimRef}
    {v : Vec3 (Exact K)} (h : IsCorner meshes p v) (hfin : ∀ m ∈ meshes, m.IsFinite) :
    v.IsFinite := by
  obtain ⟨m, t, hm, -, i, -, hi⟩ := h
  exact hfin m (Array.mem_of_getElem? hm) v (Array.mem_of_getElem? hi)

/-- The corners of a triangle of a mesh are vertices. -/
theorem exists_corner {m : Mesh α} {t : Triangle} (ht : t ∈ m.triangles) :
    ∀ i ∈ t.toList, ∃ v, m.positions[i.toNat]? = some v := by
  intro i hi
  obtain ⟨h0, h1, h2⟩ := m.inRange t ht
  have hlt : i.toNat < m.positions.size := by
    simp only [Triangle.toList, List.mem_cons, List.not_mem_nil, or_false] at hi
    rcases hi with rfl | rfl | rfl
    exacts [h0, h1, h2]
  exact ⟨m.positions[i.toNat], Array.getElem?_eq_getElem hlt⟩

variable [Scalar α] {meshes : Array (Mesh α)}

/-- The test of a triangle of a mesh, by its corners. -/
theorem exists_hit? {m : Mesh α} {t : Triangle} (ht : t ∈ m.triangles) :
    ∃ c0 c1 c2, m.positions[t.i0.toNat]? = some c0 ∧ m.positions[t.i1.toNat]? = some c1 ∧
      m.positions[t.i2.toNat]? = some c2 ∧ ∀ (frame : RayFrame α) (ray : Ray α) (tFar : α),
        m.hit? frame ray tFar t = .ok (frame.hit? ray tFar c0 c1 c2) := by
  have corner := exists_corner ht
  obtain ⟨c0, h0⟩ := corner t.i0 (by simp [Triangle.toList])
  obtain ⟨c1, h1⟩ := corner t.i1 (by simp [Triangle.toList])
  obtain ⟨c2, h2⟩ := corner t.i2 (by simp [Triangle.toList])
  refine ⟨c0, c1, c2, h0, h1, h2, fun frame ray tFar => ?_⟩
  rw [Mesh.hit?, Mesh.position, Mesh.position, Mesh.position, Outcome.get_eq_ok_iff.2 h0,
    Outcome.get_eq_ok_iff.2 h1, Outcome.get_eq_ok_iff.2 h2]
  rfl

theorem mem_primitives_iff {p : Primitive α} :
    p ∈ primitives meshes ↔ ∃ m t, meshes[p.ref.mesh]? = some m ∧
      m.triangles[p.ref.triangle]? = some t ∧ p.box = triangleBox m t ∧
      p.centroid = p.box.centroid := by
  simp only [primitives, List.mem_flatMap, List.mem_map, Prod.exists, List.mem_zipIdx_iff_getElem?,
    Array.getElem?_toList]
  constructor
  · rintro ⟨m, mesh, hm, t, triangle, ht, rfl⟩
    exact ⟨m, t, hm, ht, rfl, rfl⟩
  · obtain ⟨⟨mesh, triangle⟩, box, centroid⟩ := p
    rintro ⟨m, t, hm, ht, hbox, hcentroid⟩
    simp only at hm ht hbox hcentroid
    exact ⟨m, mesh, hm, t, triangle, ht, by rw [hcentroid, hbox]⟩

theorem triangleBox_single (c0 c1 c2 : Vec3 α) :
    triangleBox (Mesh.single c0 c1 c2) ⟨0, 1, 2⟩ =
      ((Box.empty.addPoint c0).addPoint c1).addPoint c2 := rfl

/-- The triangles are those of the meshes. -/
theorem mem_refs_iff {p : PrimRef} :
    p ∈ (primitives meshes).map Primitive.ref ↔ IsTriangle meshes p := by
  simp only [List.mem_map, mem_primitives_iff, IsTriangle, Mesh.triangleCount]
  constructor
  · rintro ⟨q, ⟨m, t, hm, ht, -, -⟩, rfl⟩
    exact ⟨m, hm, (Array.getElem?_eq_some_iff.1 ht).1⟩
  · rintro ⟨m, hm, hlt⟩
    exact ⟨⟨p, triangleBox m m.triangles[p.triangle],
      (triangleBox m m.triangles[p.triangle]).centroid⟩,
      ⟨m, m.triangles[p.triangle], hm, Array.getElem?_eq_getElem hlt, rfl, rfl⟩, rfl⟩

theorem refs_eq : (primitives meshes).map Primitive.ref =
    meshes.toList.zipIdx.flatMap fun (m, mesh) =>
      (List.range m.triangleCount).map fun triangle => ⟨mesh, triangle⟩ := by
  simp only [primitives, List.map_flatMap, List.map_map]
  congr 1
  funext ⟨m, mesh⟩
  have hsnd : m.triangles.toList.zipIdx.map Prod.snd = List.range m.triangleCount := by
    rw [List.zipIdx_map_snd, List.range_eq_range', Array.length_toList]
    rfl
  rw [← hsnd, List.map_map]
  rfl

/-- There is every triangle once. -/
theorem nodup_primitives : ((primitives meshes).map Primitive.ref).Nodup := by
  rw [refs_eq, List.nodup_flatMap]
  constructor
  · rintro ⟨m, mesh⟩ -
    exact List.nodup_range.map fun i j h => by simpa using h
  · have hnodup : (meshes.toList.zipIdx.map Prod.snd).Nodup := List.nodup_zipIdx_map_snd _
    refine (List.pairwise_map.1 hnodup).imp fun {x y} hne => ?_
    intro p hx hy
    obtain ⟨_, _, rfl⟩ := List.mem_map.1 hx
    obtain ⟨_, _, heq⟩ := List.mem_map.1 hy
    exact hne (congrArg PrimRef.mesh heq).symm

theorem length_primitives :
    (primitives meshes).length = (meshes.toList.map Mesh.triangleCount).sum := by
  have hfst : meshes.toList.zipIdx.map Prod.fst = meshes.toList := List.zipIdx_map_fst 0 _
  rw [← List.length_map Primitive.ref, refs_eq, List.length_flatMap, ← hfst, List.map_map]
  simp [Function.comp_def]

end

variable {K : Type} [Field K] [LinearOrder K] [FloorSemiring K] [ExactFunctions K]

open Exact

theorem triangleBox_fits {m : Mesh (Exact K)} (hm : m.IsFinite) {t : Triangle}
    (ht : t ∈ m.triangles) :
    (triangleBox m t).Fits fun v => ∃ i ∈ t.toList, m.positions[i.toNat]? = some v := by
  have hpoint {i : UInt32} (hi : i ∈ t.toList) {v : Vec3 (Exact K)} :
      v = m.positions[i.toNat]?.getD Vec3.zero ↔ m.positions[i.toNat]? = some v := by
    obtain ⟨w, hw⟩ := exists_corner ht i hi
    rw [hw, Option.getD_some, Option.some.injEq, eq_comm]
  refine Box.Fits.congr (Box.Fits.foldl_addPoint_empty (by simp [Triangle.toList]) ?_)
    fun v => exists_congr fun i => and_congr_right fun hi => hpoint hi
  intro i hi
  exact hm _ (Array.mem_of_getElem? ((hpoint hi).1 rfl))

theorem Box.Fits.centroid_finite {b : Box (Exact K)} {S : Vec3 (Exact K) → Prop} (h : b.Fits S) :
    b.centroid.IsFinite := by
  intro i
  obtain ⟨lo, hlo⟩ := h.lower_finite i
  obtain ⟨hi, hhi⟩ := h.upper_finite i
  rw [Box.centroid, Vec3.get_scale, Vec3.get_add, hlo, hhi]
  exact ⟨_, rfl⟩

variable {meshes : Array (Mesh (Exact K))}

/-- The box of a triangle fits its corners. -/
theorem fits_of_mem_primitives (hfin : ∀ m ∈ meshes, m.IsFinite) :
    ∀ p ∈ primitives meshes, p.box.Fits (IsCorner meshes p.ref) := by
  intro p hp
  obtain ⟨m, t, hm, ht, hbox, -⟩ := mem_primitives_iff.1 hp
  rw [hbox]
  refine (triangleBox_fits (hfin m (Array.mem_of_getElem? hm)) (Array.mem_of_getElem? ht)).congr
    fun v => ?_
  constructor
  · intro hv
    exact ⟨m, t, hm, ht, hv⟩
  · rintro ⟨m', t', hm', ht', hv⟩
    obtain rfl : m = m' := by simpa [hm] using hm'
    obtain rfl : t = t' := by simpa [ht] using ht'
    exact hv

theorem centroid_finite_of_mem_primitives (hfin : ∀ m ∈ meshes, m.IsFinite) :
    ∀ p ∈ primitives meshes, p.centroid.IsFinite := by
  intro p hp
  obtain ⟨m, t, hm, ht, -, hcentroid⟩ := mem_primitives_iff.1 hp
  rw [hcentroid]
  exact Box.Fits.centroid_finite (fits_of_mem_primitives hfin p hp)

/-! ### Two triangles -/

/-- Two triangles, one behind the other. -/
def tiles : Array (Mesh (Exact ℚ)) :=
  #[.single ⟨fin 0, fin 0, fin 1⟩ ⟨fin 2, fin 0, fin 1⟩ ⟨fin 0, fin 2, fin 1⟩,
    .single ⟨fin 0, fin 0, fin 2⟩ ⟨fin 2, fin 0, fin 2⟩ ⟨fin 0, fin 2, fin 2⟩]

theorem tiles_isFinite : ∀ m ∈ tiles, m.IsFinite := by
  intro m hm
  simp only [tiles, List.mem_toArray, List.mem_cons, List.not_mem_nil, or_false] at hm
  rcases hm with rfl | rfl
  · exact Mesh.single_isFinite (Vec3.isFinite_fin _ _ _) (Vec3.isFinite_fin _ _ _)
      (Vec3.isFinite_fin _ _ _)
  · exact Mesh.single_isFinite (Vec3.isFinite_fin _ _ _) (Vec3.isFinite_fin _ _ _)
      (Vec3.isFinite_fin _ _ _)

/-- A ray that meets both. -/
def tilesRay : Ray (Exact ℚ) :=
  ⟨⟨fin 0, fin 0, fin 0⟩, ⟨fin 1, fin 1, fin 4⟩⟩

end Bvh

end RadianceTransfer
