import RadianceTransfer.Proofs.Mesh.Crossing

/-!
# Rays that leave a vertex

A ray that leaves a vertex starts a little way along its direction, so the vertex is behind it. A
triangle with a corner there is crossed, if at all, at that corner: the edge functions of the two
edges that meet in it vanish, and the third one has the sign of their sum. So the ray never hits the
triangle, whatever its direction. Where the ray runs in the plane of the triangle, or the triangle
has no area, the sum vanishes too, and the test stops at that.

## Main definitions

* `Mesh.Touches`: a ray that hits a triangle with a given corner.

## Main statements

* `Mesh.hit?_offset_eq_none`: a ray that leaves a vertex does not hit the triangles at it.
-/

namespace RadianceTransfer

open Exact

variable {K : Type} [Field K] [LinearOrder K] [FloorSemiring K] [ExactFunctions K]

theorem Ray.isProper_offset {p wi : Vec3 (Exact K)} (hp : p.IsFinite) (hwi : wi.IsFinite)
    (hne : ∃ i, wi.get i ≠ fin 0) (b : K) : (Ray.offset p wi (fin b)).IsProper where
  org i := by
    obtain ⟨x, hx⟩ := hp i
    obtain ⟨d, hd⟩ := hwi i
    exact ⟨x + d * b, by rw [Ray.offset, Vec3.get_add, Vec3.get_scale, hx, hd]; rfl⟩
  dir := hwi
  dir_ne := hne

namespace RayFrame

variable [IsStrictOrderedRing K]

omit [FloorSemiring K] [ExactFunctions K] in
/-- A triangle with a corner behind the ray is crossed behind it, if at all. -/
theorem parameterAlong_nonpos_of_corner {o d p c0 c1 c2 : Vec3 K} {k : Axis} (hk : d.get k ≠ 0)
    {b : K} (hb : 0 < b) (ho : ∀ i, o.get i = p.get i + d.get i * b)
    (hp : p = c0 ∨ p = c1 ∨ p = c2) : parameterAlong o d c0 c1 c2 k ≤ 0 := by
  by_cases hzero : total (edgesAlong o d c0 c1 c2 k) = 0
  · rw [parameterAlong, parameter, hzero, div_zero, mul_zero]
  · obtain ⟨w, hsum, hblend⟩ : ∃ w : Vec3 K, w.x + w.y + w.z = 1 ∧ ∀ i,
        w.x * c0.get i + w.y * c1.get i + w.z * c2.get i = o.get i + d.get i * (-b) := by
      rcases hp with rfl | rfl | rfl
      · exact ⟨⟨1, 0, 0⟩, by ring, fun i => by rw [ho i]; ring⟩
      · exact ⟨⟨0, 1, 0⟩, by ring, fun i => by rw [ho i]; ring⟩
      · exact ⟨⟨0, 0, 1⟩, by ring, fun i => by rw [ho i]; ring⟩
    rw [parameterAlong_eq_of_blend hk hsum hblend hzero]
    exact neg_nonpos.2 hb.le

/-- A ray that leaves a corner of a triangle does not hit it. -/
theorem hit?_offset_eq_none {p wi c0 c1 c2 : Vec3 (Exact K)} (h0 : c0.IsFinite) (h1 : c1.IsFinite)
    (h2 : c2.IsFinite) (hp : p = c0 ∨ p = c1 ∨ p = c2) (hwi : wi.IsFinite)
    (hne : ∃ i, wi.get i ≠ fin 0) {b : K} (hb : 0 < b) (tFar : Exact K) :
    (ofRay (Ray.offset p wi (fin b))).hit? (Ray.offset p wi (fin b)) tFar c0 c1 c2 = none := by
  have hpfin : p.IsFinite := by
    rcases hp with rfl | rfl | rfl
    exacts [h0, h1, h2]
  have hr := Ray.isProper_offset hpfin hwi hne b
  obtain ⟨o, ho⟩ := hr.org.exists_map
  obtain ⟨p, rfl⟩ := hpfin.exists_map
  obtain ⟨d, rfl⟩ := hwi.exists_map
  obtain ⟨c0, rfl⟩ := h0.exists_map
  obtain ⟨c1, rfl⟩ := h1.exists_map
  obtain ⟨c2, rfl⟩ := h2.exists_map
  obtain ⟨k, hk, hnone, -⟩ := hit?_along hr ho rfl c0 c1 c2
  have hinj : Function.Injective (Vec3.map fin : Vec3 K → Vec3 (Exact K)) := by
    rintro ⟨x, y, z⟩ ⟨x', y', z'⟩ h
    simpa [Vec3.map] using h
  refine hnone (parameterAlong_nonpos_of_corner (p := p) hk hb (fun i => ?_) ?_) tFar
  · have hi := congrArg (·.get i) ho
    simpa [Ray.offset] using hi.symm
  · exact hp.imp (fun h => hinj h) (Or.imp (fun h => hinj h) fun h => hinj h)

end RayFrame

/-- A ray hits a triangle of a mesh with a given corner, up to some parameter. -/
def Mesh.Touches {α : Type} [Scalar α] (m : Mesh α) (vertex : UInt32) (ray : Ray α) : Prop :=
  ∃ tri ∈ m.triangles, vertex ∈ tri.toList ∧
    ∃ tFar, m.hit? (RayFrame.ofRay ray) ray tFar tri ≠ .ok none

variable [IsStrictOrderedRing K]

/-- **A ray that leaves a vertex does not hit the triangles at it**, up to whatever parameter hits
count. -/
theorem Mesh.hit?_offset_eq_none {m : Mesh (Exact K)} (hm : m.IsFinite) {tri : Triangle}
    (htri : tri ∈ m.triangles) {vertex : UInt32} (hvertex : vertex ∈ tri.toList)
    {p wi : Vec3 (Exact K)} (hp : m.position vertex.toNat = .ok p) (hwi : wi.IsFinite)
    (hne : ∃ i, wi.get i ≠ fin 0) {b : K} (hb : 0 < b) (tFar : Exact K) :
    m.hit? (RayFrame.ofRay (Ray.offset p wi (fin b))) (Ray.offset p wi (fin b)) tFar tri =
      .ok none := by
  obtain ⟨c0, c1, c2, h0, h1, h2, hhit⟩ := Bvh.exists_hit? htri
  have hfin {c : Vec3 (Exact K)} {i : Nat} (h : m.positions[i]? = some c) : c.IsFinite :=
    hm c (Array.mem_of_getElem? h)
  have hp' : m.positions[vertex.toNat]? = some p := Outcome.get_eq_ok_iff.1 hp
  have hcorner : p = c0 ∨ p = c1 ∨ p = c2 := by
    simp only [Triangle.toList, List.mem_cons, List.not_mem_nil, or_false] at hvertex
    rcases hvertex with rfl | rfl | rfl
    · exact .inl (Option.some.inj (hp'.symm.trans h0))
    · exact .inr (.inl (Option.some.inj (hp'.symm.trans h1)))
    · exact .inr (.inr (Option.some.inj (hp'.symm.trans h2)))
  rw [hhit, RayFrame.hit?_offset_eq_none (hfin h0) (hfin h1) (hfin h2) hcorner hwi hne hb]

theorem Mesh.not_touches_offset {m : Mesh (Exact K)} (hm : m.IsFinite) {vertex : UInt32}
    {p wi : Vec3 (Exact K)} (hp : m.position vertex.toNat = .ok p) (hwi : wi.IsFinite)
    (hne : ∃ i, wi.get i ≠ fin 0) {b : K} (hb : 0 < b) :
    ¬ m.Touches vertex (Ray.offset p wi (fin b)) := by
  rintro ⟨tri, htri, hvertex, tFar, hhit⟩
  exact hhit (Mesh.hit?_offset_eq_none hm htri hvertex hp hwi hne hb tFar)

end RadianceTransfer
