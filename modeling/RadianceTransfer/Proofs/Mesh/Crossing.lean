import RadianceTransfer.Proofs.Bvh.Primitives
import RadianceTransfer.Proofs.Mesh.Hit

/-!
# Where a ray crosses a triangle

The test of a triangle is exact in what it reports: a hit is a point of the ray that is a blend of
the corners, and every such point in front of the ray is reported, as long as its parameter exceeds
the bound on the rounding error and is not past the one up to which hits count. Neither the
orientation of the triangle nor the axis along which the ray mainly runs matters.

Seen from the ray, weights that blend the corners to a point of the ray bring them together at the
origin of the plane. That determines them up to a factor, so they are the edge functions over their
sum; and the sum vanishes only if the ray is parallel to the plane of the triangle.

The test divides twice, by a component of the direction and by the sum of the edge functions. Run
with a division that fails at zero, it does not fail.

## Main definitions

* `TriangleHit.IsOn`: a point of a ray and the weights with which it is a blend of three corners.
* `Ray.IsTransversal`: a ray that is not parallel to the plane of three corners.
* `RayFrame.ofRayWith`, `RayFrame.hitWith?`: the test with another division.

## Main statements

* `RayFrame.hit?_eq_some_iff_isOn`: which hits are reported.
* `Mesh.reports_crossings`: the test of a triangle of a mesh.
-/

namespace RadianceTransfer

open Exact

/-! ### Weights and edge functions -/

namespace RayFrame

section

variable {K : Type} [Field K]

/-- Weights that bring the corners together on the ray are the edge functions over their sum. -/
theorem edges_eq_of_weighted {p0 p1 p2 w : Vec3 K} (hsum : w.x + w.y + w.z = 1)
    (hx : w.x * p0.x + w.y * p1.x + w.z * p2.x = 0)
    (hy : w.x * p0.y + w.y * p1.y + w.z * p2.y = 0) :
    edges p0 p1 p2 = w.scale (total (edges p0 p1 p2)) := by
  simp only [edges, total, Vec3.scale]
  congr 1
  · linear_combination (-(p1.x * p2.y - p1.y * p2.x)) * hsum + (p2.y - p1.y) * hx +
      (p1.x - p2.x) * hy
  · linear_combination (-(p2.x * p0.y - p2.y * p0.x)) * hsum + (p0.y - p2.y) * hx +
      (p2.x - p0.x) * hy
  · linear_combination (-(p0.x * p1.y - p0.y * p1.x)) * hsum + (p1.y - p0.y) * hx +
      (p0.x - p1.x) * hy

/-- Weights that blend three coordinates to the one of a point of the ray blend their offsets from
the ray to nothing. -/
theorem weighted_offset {w : Vec3 K} {o d t r ck0 ck1 ck2 c0 c1 c2 ok dk : K}
    (hsum : w.x + w.y + w.z = 1) (hr : dk * r = 1)
    (hk : w.x * ck0 + w.y * ck1 + w.z * ck2 = ok + dk * t)
    (h : w.x * c0 + w.y * c1 + w.z * c2 = o + d * t) :
    w.x * (-d * r * (ck0 - ok) + (c0 - o)) + w.y * (-d * r * (ck1 - ok) + (c1 - o)) +
      w.z * (-d * r * (ck2 - ok) + (c2 - o)) = 0 := by
  linear_combination (-d * r) * hk + h + (d * r * ok - o) * hsum - d * t * hr

/-- Up to a component of the direction the sum of the edge functions is the product of the direction
with the normal of the triangle. -/
theorem total_edgesAlong (o : Vec3 K) {d : Vec3 K} {k : Axis} (hk : d.get k ≠ 0)
    (c0 c1 c2 : Vec3 K) :
    total (edgesAlong o d c0 c1 c2 k) * d.get k = d.dot ((c1 - c0).cross (c2 - c0)) := by
  show _ = d.x * ((c1.y - c0.y) * (c2.z - c0.z) - (c1.z - c0.z) * (c2.y - c0.y)) +
    d.y * ((c1.z - c0.z) * (c2.x - c0.x) - (c1.x - c0.x) * (c2.z - c0.z)) +
    d.z * ((c1.x - c0.x) * (c2.y - c0.y) - (c1.y - c0.y) * (c2.x - c0.x))
  cases k <;>
  · simp only [Vec3.get] at hk
    simp only [edgesAlong, total, edges, sight, Axis.next, Vec3.get]
    field_simp
    ring

theorem total_edgesAlong_ne_zero_iff (o : Vec3 K) {d : Vec3 K} {k : Axis} (hk : d.get k ≠ 0)
    (c0 c1 c2 : Vec3 K) :
    total (edgesAlong o d c0 c1 c2 k) ≠ 0 ↔ d.dot ((c1 - c0).cross (c2 - c0)) ≠ 0 := by
  rw [← total_edgesAlong o hk c0 c1 c2, mul_ne_zero_iff]
  exact (and_iff_left hk).symm

variable {o d c0 c1 c2 w : Vec3 K} {t : K} {k : Axis}

/-- Weights that blend the corners to a point of the ray are the edge functions over their sum. -/
theorem edgesAlong_eq_of_blend (hk : d.get k ≠ 0) (hsum : w.x + w.y + w.z = 1)
    (hblend : ∀ i, w.x * c0.get i + w.y * c1.get i + w.z * c2.get i = o.get i + d.get i * t) :
    edgesAlong o d c0 c1 c2 k = w.scale (total (edgesAlong o d c0 c1 c2 k)) := by
  have hr : d.get k * (1 / d.get k) = 1 := mul_one_div_cancel hk
  exact edges_eq_of_weighted hsum (weighted_offset hsum hr (hblend k) (hblend k.next))
    (weighted_offset hsum hr (hblend k) (hblend k.next.next))

/-- Then the weights of the edge functions are these weights. -/
theorem weight_eq_of_blend (hk : d.get k ≠ 0) (hsum : w.x + w.y + w.z = 1)
    (hblend : ∀ i, w.x * c0.get i + w.y * c1.get i + w.z * c2.get i = o.get i + d.get i * t)
    (hzero : total (edgesAlong o d c0 c1 c2 k) ≠ 0) :
    (edgesAlong o d c0 c1 c2 k).map (· * (1 / total (edgesAlong o d c0 c1 c2 k))) = w := by
  have he := edgesAlong_eq_of_blend hk hsum hblend
  generalize total (edgesAlong o d c0 c1 c2 k) = s at he hzero ⊢
  rw [he]
  simp only [Vec3.map, Vec3.scale, mul_assoc, mul_one_div_cancel hzero, mul_one]

/-- Then the parameter of the edge functions is the one of the point. -/
theorem parameterAlong_eq_of_blend (hk : d.get k ≠ 0) (hsum : w.x + w.y + w.z = 1)
    (hblend : ∀ i, w.x * c0.get i + w.y * c1.get i + w.z * c2.get i = o.get i + d.get i * t)
    (hzero : total (edgesAlong o d c0 c1 c2 k) ≠ 0) :
    parameterAlong o d c0 c1 c2 k = t := by
  have hx := weight_eq_of_blend hk hsum hblend hzero
  refine mul_left_cancel₀ hk (add_left_cancel (a := o.get k) ?_)
  rw [blend_eq_parameterAlong o hk hzero k, ← hblend k]
  rw [Vec3.ext_iff] at hx
  obtain ⟨hx, hy, hz⟩ := hx
  simp only [Vec3.map] at hx hy hz
  rw [hx, hy, hz]

variable [LinearOrder K] [IsStrictOrderedRing K]

/-- Edge functions in the ratio of weights that are not negative have one sign. -/
theorem not_mixed_scale (hw : ∀ i, 0 ≤ w.get i) (s : K) : ¬ Mixed (w.scale s) := by
  have hx : 0 ≤ w.x := hw .x
  have hy : 0 ≤ w.y := hw .y
  have hz : 0 ≤ w.z := hw .z
  rcases le_total 0 s with hs | hs
  · refine fun h => ?_
    simp only [Mixed, Vec3.scale, not_lt.2 (mul_nonneg hx hs), not_lt.2 (mul_nonneg hy hs),
      not_lt.2 (mul_nonneg hz hs), or_self, false_and] at h
  · refine fun h => ?_
    simp only [Mixed, Vec3.scale, not_lt.2 (mul_nonpos_of_nonneg_of_nonpos hx hs),
      not_lt.2 (mul_nonpos_of_nonneg_of_nonpos hy hs),
      not_lt.2 (mul_nonpos_of_nonneg_of_nonpos hz hs), or_self, and_false] at h

end

end RayFrame

/-! ### Points of a ray in a triangle -/

/-- The parameter of a hit is that of a point of the ray which is the blend of three corners with
the weights of the hit. -/
structure TriangleHit.IsOn {α : Type} [Scalar α] (hit : TriangleHit α) (ray : Ray α)
    (c0 c1 c2 : Vec3 α) : Prop where
  /-- No weight is negative. -/
  nonneg : ∀ i, 0 ≤ hit.weights.get i
  /-- The weights sum to one. -/
  sum : hit.weights.x + hit.weights.y + hit.weights.z = 1
  /-- The blend is the point. -/
  blend : c0.scale hit.weights.x + c1.scale hit.weights.y + c2.scale hit.weights.z =
    ray.pointAt hit.t

/-- The direction of a ray is not parallel to the plane of three corners, which do not lie on a
line. -/
def Ray.IsTransversal {α : Type} [Scalar α] (ray : Ray α) (c0 c1 c2 : Vec3 α) : Prop :=
  ray.dir.dot ((c1 - c0).cross (c2 - c0)) ≠ 0

variable {K : Type} [Field K] [LinearOrder K] [FloorSemiring K] [ExactFunctions K]

theorem TriangleHit.isOn_fin_iff (o d c0 c1 c2 w : Vec3 K) (t : K) :
    (⟨fin t, w.map fin⟩ : TriangleHit (Exact K)).IsOn ⟨o.map fin, d.map fin⟩ (c0.map fin)
        (c1.map fin) (c2.map fin) ↔
      (∀ i, 0 ≤ w.get i) ∧ w.x + w.y + w.z = 1 ∧
        ∀ i, w.x * c0.get i + w.y * c1.get i + w.z * c2.get i = o.get i + d.get i * t := by
  have hpoint (i : Axis) : ((c0.map fin).scale (fin w.x) + (c1.map fin).scale (fin w.y) +
      (c2.map fin).scale (fin w.z) : Vec3 (Exact K)).get i =
        ((⟨o.map fin, d.map fin⟩ : Ray (Exact K)).pointAt (fin t)).get i ↔
      w.x * c0.get i + w.y * c1.get i + w.z * c2.get i = o.get i + d.get i * t := by
    simp only [Ray.pointAt, Vec3.get_add, Vec3.get_scale, Vec3.get_map, fin_mul_fin, fin_add_fin,
      Exact.fin.injEq, mul_comm]
  constructor
  · rintro ⟨hnonneg, hsum, hblend⟩
    refine ⟨fun i => ?_, ?_, fun i => (hpoint i).1 (congrArg (·.get i) hblend)⟩
    · simpa [zero_eq] using hnonneg i
    · simpa [one_eq, Vec3.map] using hsum
  · rintro ⟨hnonneg, hsum, hblend⟩
    refine ⟨fun i => ?_, ?_, Vec3.ext_get fun i => (hpoint i).2 (hblend i)⟩
    · simpa [zero_eq] using hnonneg i
    · simpa [one_eq, Vec3.map] using hsum

/-- A point in a finite triangle has a finite parameter and finite weights. -/
theorem TriangleHit.IsOn.exists_fin {hit : TriangleHit (Exact K)} {ray : Ray (Exact K)}
    {c0 c1 c2 : Vec3 (Exact K)} (h : hit.IsOn ray c0 c1 c2) (h0 : c0.IsFinite) (h1 : c1.IsFinite)
    (h2 : c2.IsFinite) : ∃ (t : K) (w : Vec3 K), hit = ⟨fin t, w.map fin⟩ := by
  have hsum : (hit.weights.x + hit.weights.y + hit.weights.z).IsFinite :=
    ⟨1, h.sum.trans one_eq⟩
  obtain ⟨hxy, w2, hw2⟩ := isFinite_of_add hsum
  obtain ⟨⟨w0, hw0⟩, w1, hw1⟩ := isFinite_of_add hxy
  have hpoint : (ray.pointAt hit.t).x.IsFinite := by
    obtain ⟨b0, hb0⟩ := h0 .x
    obtain ⟨b1, hb1⟩ := h1 .x
    obtain ⟨b2, hb2⟩ := h2 .x
    rw [← h.blend, hw0, hw1, hw2]
    show (c0.get .x * fin w0 + c1.get .x * fin w1 + c2.get .x * fin w2).IsFinite
    rw [hb0, hb1, hb2]
    exact ⟨_, rfl⟩
  obtain ⟨t, ht⟩ := (isFinite_of_mul (isFinite_of_add hpoint).2).2
  refine ⟨t, ⟨w0, w1, w2⟩, ?_⟩
  calc hit = ⟨hit.t, ⟨hit.weights.x, hit.weights.y, hit.weights.z⟩⟩ := rfl
    _ = _ := by rw [ht, hw0, hw1, hw2]; rfl

theorem Ray.isTransversal_fin_iff (o d c0 c1 c2 : Vec3 K) :
    (⟨o.map fin, d.map fin⟩ : Ray (Exact K)).IsTransversal (c0.map fin) (c1.map fin) (c2.map fin) ↔
      d.dot ((c1 - c0).cross (c2 - c0)) ≠ 0 := by
  have hsub (v w : Vec3 K) : (v.map fin - w.map fin : Vec3 (Exact K)) = (v - w).map fin :=
    Vec3.ext_get fun i => by simp only [Vec3.get_sub, Vec3.get_map, fin_sub_fin]
  rw [Ray.IsTransversal, hsub, hsub]
  simp only [Vec3.dot, Vec3.cross, Vec3.map, fin_mul_fin, fin_sub_fin, fin_add_fin, zero_eq, ne_eq,
    Exact.fin.injEq]

namespace RayFrame

variable [IsStrictOrderedRing K]

/-- **Exactly the points of the ray in the triangle are reported** whose parameter exceeds the bound
on the rounding error and is not past `tFar`. -/
theorem hit?_eq_some_iff_isOn {ray : Ray (Exact K)} (hr : ray.IsProper) {c0 c1 c2 : Vec3 (Exact K)}
    (h0 : c0.IsFinite) (h1 : c1.IsFinite) (h2 : c2.IsFinite) {tFar : Exact K} (htFar : tFar ≠ nan)
    {hit : TriangleHit (Exact K)} :
    (ofRay ray).hit? ray tFar c0 c1 c2 = some hit ↔
      hit.IsOn ray c0 c1 c2 ∧ ray.IsTransversal c0 c1 c2 ∧
        (ofRay ray).tolerance ray.org c0 c1 c2 < hit.t ∧ hit.t ≤ tFar := by
  obtain ⟨o, d, rfl⟩ : ∃ o d : Vec3 K, ray = ⟨o.map fin, d.map fin⟩ := by
    obtain ⟨o, ho⟩ := hr.org.exists_map
    obtain ⟨d, hd⟩ := hr.dir.exists_map
    exact ⟨o, d, by rw [← ho, ← hd]⟩
  obtain ⟨c0, rfl⟩ := h0.exists_map
  obtain ⟨c1, rfl⟩ := h1.exists_map
  obtain ⟨c2, rfl⟩ := h2.exists_map
  obtain ⟨k, hk, -, B, -, hbound, hiff⟩ := hit?_along hr rfl rfl c0 c1 c2
  rw [hiff tFar hit htFar, Ray.isTransversal_fin_iff, ← total_edgesAlong_ne_zero_iff o hk]
  constructor
  · rintro ⟨hmixed, hzero, hlt, hle, rfl⟩
    rw [hbound hzero]
    refine ⟨(TriangleHit.isOn_fin_iff ..).2 ⟨?_, weight_sum hzero, fun i => ?_⟩, hzero, hlt, hle⟩
    · obtain ⟨hx, hy, hz⟩ := weight_nonneg hmixed
      rintro (_ | _ | _)
      exacts [hx, hy, hz]
    · exact (blend_eq_parameterAlong o hk hzero i).symm
  · rintro ⟨hon, hzero, hlt, hle⟩
    obtain ⟨t, w, rfl⟩ := hon.exists_fin h0 h1 h2
    obtain ⟨hnonneg, hsum, hblend⟩ := (TriangleHit.isOn_fin_iff ..).1 hon
    rw [hbound hzero] at hlt
    have ht := parameterAlong_eq_of_blend hk hsum hblend hzero
    refine ⟨?_, hzero, ?_, ?_, ?_⟩
    · rw [edgesAlong_eq_of_blend hk hsum hblend]
      exact not_mixed_scale hnonneg _
    · rw [ht]
      exact hlt
    · rw [ht]
      exact hle
    · rw [ht, weight_eq_of_blend hk hsum hblend hzero]

/-- The parameter of a hit is positive. -/
theorem pos_of_hit? {ray : Ray (Exact K)} (hr : ray.IsProper) {c0 c1 c2 : Vec3 (Exact K)}
    (h0 : c0.IsFinite) (h1 : c1.IsFinite) (h2 : c2.IsFinite) {tFar : Exact K} (htFar : tFar ≠ nan)
    {hit : TriangleHit (Exact K)} (hhit : (ofRay ray).hit? ray tFar c0 c1 c2 = some hit) :
    0 < hit.t := by
  obtain ⟨e, t, B, hB, hiff, -⟩ := exists_crossing hr h0 h1 h2
  obtain ⟨-, -, hlt, -, rfl⟩ := (hiff tFar hit htFar).1 hhit
  rw [zero_eq]
  exact hB.trans_lt hlt

end RayFrame

/-! ### The divisions -/

namespace RayFrame

section

variable {α : Type} [Scalar α] {M : Type → Type} [Monad M]

/-- The frame of a ray, with another division. -/
def ofRayWith (div : α → α → M α) (ray : Ray α) : M (RayFrame α) := do
  let main := ray.dir.abs.maxDim
  let second := main.next
  let third := second.next
  let inv ← div 1 (ray.dir.get main)
  pure ⟨second, third, main, ⟨-ray.dir.get second * inv, -ray.dir.get third * inv, inv⟩⟩

/-- The test once a triangle is seen from the ray, with another division. -/
def judgeWith (div : α → α → M α) (tFar : α) (p0 p1 p2 z e : Vec3 α) :
    M (Option (TriangleHit α)) :=
  if (e.x < 0 ∨ e.y < 0 ∨ e.z < 0) ∧ (0 < e.x ∨ 0 < e.y ∨ 0 < e.z) then pure none
  else if e.x + e.y + e.z == 0 then pure none
  else if (e.x + e.y + e.z < 0 ∧ (0 ≤ e.x * z.x + e.y * z.y + e.z * z.z ∨
        e.x * z.x + e.y * z.y + e.z * z.z < tFar * (e.x + e.y + e.z))) ∨
      (0 < e.x + e.y + e.z ∧ (e.x * z.x + e.y * z.y + e.z * z.z ≤ 0 ∨
        tFar * (e.x + e.y + e.z) < e.x * z.x + e.y * z.y + e.z * z.z)) then pure none
  else do
    let inv ← div 1 (e.x + e.y + e.z)
    let t := (e.x * z.x + e.y * z.y + e.z * z.z) * inv
    if t ≤ errorBound p0 p1 p2 z e inv then pure none
    else pure (some ⟨t, ⟨e.x * inv, e.y * inv, e.z * inv⟩⟩)

/-- The test of a triangle, with another division. -/
def hitWith? (div : α → α → M α) (f : RayFrame α) (ray : Ray α) (tFar : α) (c0 c1 c2 : Vec3 α) :
    M (Option (TriangleHit α)) :=
  let p0 := f.look ray.org c0
  let p1 := f.look ray.org c1
  let p2 := f.look ray.org c2
  judgeWith div tFar p0 p1 p2 ((⟨p0.z, p1.z, p2.z⟩ : Vec3 α).scale f.shear.z) (edges p0 p1 p2)

/-- With the division of scalars it is the frame of a ray. -/
theorem ofRayWith_div (ray : Ray α) :
    ofRayWith (M := Id) (fun a b => pure (a / b)) ray = pure (ofRay ray) :=
  rfl

/-- With the division of scalars it is the test. -/
theorem hitWith?_div (f : RayFrame α) (ray : Ray α) (tFar : α) (c0 c1 c2 : Vec3 α) :
    f.hitWith? (M := Id) (fun a b => pure (a / b)) ray tFar c0 c1 c2 =
      pure (f.hit? ray tFar c0 c1 c2) :=
  rfl

/-- Division that fails at zero. -/
def divide? (a b : α) : Option α :=
  if b == 0 then none else some (a / b)

theorem judgeWith_divide? (tFar : α) (p0 p1 p2 z e : Vec3 α) :
    judgeWith divide? tFar p0 p1 p2 z e = some (judge tFar p0 p1 p2 z e) := by
  unfold judgeWith judge
  by_cases hmixed : (e.x < 0 ∨ e.y < 0 ∨ e.z < 0) ∧ (0 < e.x ∨ 0 < e.y ∨ 0 < e.z)
  · rw [if_pos hmixed, if_pos hmixed]
    rfl
  rw [if_neg hmixed, if_neg hmixed]
  by_cases hsum : (e.x + e.y + e.z == 0) = true
  · rw [if_pos hsum, if_pos hsum]
    rfl
  rw [if_neg hsum, if_neg hsum, divide?, if_neg hsum, Option.bind_eq_bind, Option.bind_some]
  split
  · rfl
  · dsimp only
    split <;> rfl

/-- The test never divides by zero: a sum of edge functions that is zero is refused before. -/
theorem hitWith?_divide? (f : RayFrame α) (ray : Ray α) (tFar : α) (c0 c1 c2 : Vec3 α) :
    f.hitWith? divide? ray tFar c0 c1 c2 = some (f.hit? ray tFar c0 c1 c2) :=
  judgeWith_divide? ..

end

/-- Neither does the frame of a ray whose direction is not zero. -/
theorem ofRayWith_divide? [IsStrictOrderedRing K] {ray : Ray (Exact K)} (hr : ray.IsProper) :
    ofRayWith divide? ray = some (ofRay ray) := by
  obtain ⟨d, hd⟩ := hr.dir.exists_map
  have hne : (ray.dir.get ray.dir.abs.maxDim == 0) = false := by
    have hz : d.get ray.dir.abs.maxDim ≠ 0 := zAxis_ne_zero hr hd
    rw [zero_eq, hd, Vec3.get_map, fin_beq_fin, ← hd]
    exact decide_eq_false hz
  simp only [ofRayWith, divide?, hne]
  rfl

end RayFrame

/-! ### The triangles of a mesh -/

variable [IsStrictOrderedRing K]

/-- **The test of a triangle of a mesh.** For a ray whose direction is not zero, whatever its main
axis and the orientation of the triangle, the test answers and divides by nothing that is zero. It
reports a hit exactly at the point of the ray in the triangle, with the weights of that point, if the
ray is not parallel to the triangle and the parameter exceeds the bound on the rounding error and is
not past `tFar`; and the parameter of a hit is positive. -/
theorem Mesh.reports_crossings {m : Mesh (Exact K)} (hm : m.IsFinite) {tri : Triangle}
    (htri : tri ∈ m.triangles) {ray : Ray (Exact K)} (hr : ray.IsProper) {tFar : Exact K}
    (htFar : 0 < tFar) :
    ∃ c0 c1 c2 answer, m.position tri.i0.toNat = .ok c0 ∧ m.position tri.i1.toNat = .ok c1 ∧
      m.position tri.i2.toNat = .ok c2 ∧
      m.hit? (RayFrame.ofRay ray) ray tFar tri = .ok answer ∧
      (RayFrame.ofRayWith RayFrame.divide? ray >>= fun f =>
        f.hitWith? RayFrame.divide? ray tFar c0 c1 c2) = some answer ∧
      (∀ hit, answer = some hit ↔ hit.IsOn ray c0 c1 c2 ∧ ray.IsTransversal c0 c1 c2 ∧
        (RayFrame.ofRay ray).tolerance ray.org c0 c1 c2 < hit.t ∧ hit.t ≤ tFar) ∧
      ∀ hit, answer = some hit → 0 < hit.t := by
  obtain ⟨c0, c1, c2, h0, h1, h2, hhit⟩ := Bvh.exists_hit? htri
  have hnan : tFar ≠ nan := by
    rintro rfl
    exact htFar.elim
  have hfin {c : Vec3 (Exact K)} {i : Nat} (h : m.positions[i]? = some c) : c.IsFinite :=
    hm c (Array.mem_of_getElem? h)
  refine ⟨c0, c1, c2, (RayFrame.ofRay ray).hit? ray tFar c0 c1 c2, Outcome.get_eq_ok_iff.2 h0,
    Outcome.get_eq_ok_iff.2 h1, Outcome.get_eq_ok_iff.2 h2, hhit .., ?_, ?_, ?_⟩
  · rw [RayFrame.ofRayWith_divide? hr, Option.bind_eq_bind, Option.bind_some]
    exact RayFrame.hitWith?_divide? ..
  · exact fun hit => RayFrame.hit?_eq_some_iff_isOn hr (hfin h0) (hfin h1) (hfin h2) hnan
  · exact fun hit => RayFrame.pos_of_hit? hr (hfin h0) (hfin h1) (hfin h2) hnan

/-- The test finds the point of a ray in a tile. -/
theorem Mesh.reports_crossings_tile :
    Bvh.tilesRay.IsProper ∧
      (Mesh.single ⟨fin 0, fin 0, fin 1⟩ ⟨fin 2, fin 0, fin 1⟩ ⟨fin 0, fin 2, fin 1⟩).hit?
        (RayFrame.ofRay Bvh.tilesRay) Bvh.tilesRay posInf ⟨0, 1, 2⟩ =
      .ok (some (⟨fin (1 / 4), ⟨fin (3 / 4), fin (1 / 8), fin (1 / 8)⟩⟩ :
        TriangleHit (Exact ℚ))) := by
  have hr : Bvh.tilesRay.IsProper :=
    ⟨Vec3.isFinite_fin _ _ _, Vec3.isFinite_fin _ _ _, .x, by decide⟩
  refine ⟨hr, ?_⟩
  have hm := Mesh.single_isFinite (Vec3.isFinite_fin (0 : ℚ) 0 1) (Vec3.isFinite_fin (2 : ℚ) 0 1)
    (Vec3.isFinite_fin (0 : ℚ) 2 1)
  have htri : (⟨0, 1, 2⟩ : Triangle) ∈ #[(⟨0, 1, 2⟩ : Triangle)] := by simp
  have hpos : (0 : Exact ℚ) < posInf := trivial
  obtain ⟨c0, c1, c2, answer, h0, h1, h2, hanswer, -, hiff, -⟩ :=
    Mesh.reports_crossings hm htri hr hpos
  cases h0
  cases h1
  cases h2
  rw [hanswer]
  refine congrArg Except.ok ((hiff _).2 ⟨⟨?_, ?_, ?_⟩, ?_, ?_, trivial⟩)
  · rintro (_ | _ | _) <;> decide +kernel
  · decide +kernel
  · decide +kernel
  · rw [Ray.IsTransversal]
    decide +kernel
  · decide +kernel

end RadianceTransfer
