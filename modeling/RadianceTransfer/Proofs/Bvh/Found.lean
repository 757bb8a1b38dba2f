import RadianceTransfer.Scene
import RadianceTransfer.Proofs.Bvh.Search
import RadianceTransfer.Proofs.Outcome

/-!
# What a search finds is there

What every visit of a triangle keeps true of the result holds when the search ends, whatever nodes
it has looked at. So what is found was found by the test of some triangle: a scene that names a hit
names a triangle that the ray hits, and one that says that a ray is blocked has such a triangle.

## Main definitions

* `HitsTriangle`: a triangle of some meshes that a ray hits.

## Main statements

* `Hierarchy.traverse_invariant`: a search keeps what every visit keeps.
* `Scene.hitsTriangle_of_closest`, `Scene.exists_hitsTriangle_of_blocked`: the answers of a scene.
-/

namespace RadianceTransfer

namespace Bvh

/-! ### What every visit keeps -/

section

variable {α σ : Type}

/-- Every visit keeps a condition on the result. -/
def Visitor.Keeps (visit : Visitor α σ) (P : σ → Prop) : Prop :=
  ∀ p tFar r o, P r → visit p tFar r = .ok o → P o.2

/-- The result so far, or the result. -/
def Progress.result : Progress α σ → σ
  | .running s => s.result
  | .done result => result

theorem Search.pop_result (tFar : α) (r : σ) (stack : List Nat) :
    (Search.pop tFar r stack).result = r := by
  cases stack <;> rfl

variable {P : σ → Prop} {visit : Visitor α σ}

theorem Visitor.Keeps.visitAll (hvisit : visit.Keeps P) {ps : List PrimRef} {tFar : α} {r : σ}
    {o : Option α × σ} (hr : P r) (h : Bvh.visitAll visit ps tFar r = .ok o) : P o.2 := by
  induction ps generalizing tFar r with
  | nil =>
    cases h
    exact hr
  | cons p ps ih =>
    obtain ⟨⟨_ | tFar', r'⟩, hv, h⟩ := Outcome.bind_eq_ok_iff.1 h
    · cases h
      exact hvisit p tFar r _ hr hv
    · exact ih (hvisit p tFar r _ hr hv) h

variable [Scalar α] {h : Hierarchy α} {capacity : Option Nat} {probe : Probe α}

theorem Visitor.Keeps.step (hvisit : visit.Keeps P) {s : Search α σ} {p : Progress α σ}
    (hs : Search.Step h capacity probe visit s p) (hr : P s.result) : P p.result := by
  cases hs with
  | miss hn hb =>
    rw [Search.pop_result]
    exact hr
  | @leaf _ _ _ o hn hb hle hv =>
    have ho := hvisit.visitAll hr hv
    obtain ⟨_ | tFar, r⟩ := o
    · exact ho
    · rw [Search.resume, Search.pop_result]
      exact ho
  | interior hn hb room => exact hr

theorem Visitor.Keeps.run (hvisit : visit.Keeps P) {n : Nat} {s : Search α σ} {r : σ}
    (hr : P s.result) (hs : s.run h capacity probe visit n = .ok r) : P r := by
  induction n generalizing s with
  | zero => cases hs
  | succ n ih =>
    rcases Search.run_eq_ok_iff.1 hs with hstep | ⟨t, hstep, ht⟩
    · exact hvisit.step hstep hr
    · exact ih (hvisit.step hstep hr) ht

/-- **A search keeps what every visit keeps.** -/
theorem Visitor.Keeps.traverse (hvisit : visit.Keeps P) {ray : Ray α} {tFar : α} {r r' : σ}
    (hr : P r) (ht : h.traverse capacity ray tFar r visit = .ok r') : P r' := by
  unfold Hierarchy.traverse at ht
  split at ht
  · cases ht
    exact hr
  · exact hvisit.run hr ht

end

/-! ### The two questions -/

variable {α : Type} [Scalar α]

/-- The test of a triangle finds a hit, up to some parameter. -/
def Hits (meshes : Array (Mesh α)) (ray : Ray α) (p : PrimRef) : Prop :=
  ∃ tFar hit, hitPrim meshes (RayFrame.ofRay ray) ray tFar p = .ok (some hit)

variable {meshes : Array (Mesh α)} {ray : Ray α} {h : Hierarchy α} {capacity : Option Nat}

theorem keeps_nearest : (Visitor.nearest meshes (RayFrame.ofRay ray) ray).Keeps
    fun c => ∀ p hit, c = some (p, hit) → Hits meshes ray p := by
  intro p tFar c o hc hv
  obtain ⟨_ | hit, hp, hv⟩ := Outcome.bind_eq_ok_iff.1 hv
  · cases hv
    exact hc
  · cases hv
    rintro _ _ ⟨⟩
    exact ⟨tFar, hit, hp⟩

theorem keeps_anyHit : (Visitor.anyHit meshes (RayFrame.ofRay ray) ray).Keeps
    fun found => found = true → ∃ p, Hits meshes ray p := by
  intro p tFar found o hfound hv
  obtain ⟨_ | hit, hp, hv⟩ := Outcome.bind_eq_ok_iff.1 hv
  · cases hv
    exact hfound
  · exact fun _ => ⟨p, tFar, hit, hp⟩

/-- The nearest hit is a hit of its triangle. -/
theorem Hierarchy.hits_of_closestHitWithin {tFar : α} {p : PrimRef} {hit : TriangleHit α}
    (hc : h.closestHitWithin capacity meshes ray tFar = .ok (some (p, hit))) :
    Hits meshes ray p :=
  keeps_nearest.traverse (r := none) (fun _ _ hnone => nomatch hnone) hc p hit rfl

/-- If there is any hit, some triangle is hit. -/
theorem Hierarchy.exists_hits_of_isHitWithin {tFar : α}
    (hc : h.isHitWithin capacity meshes ray tFar = .ok true) : ∃ p, Hits meshes ray p :=
  keeps_anyHit.traverse (r := false) (fun hfalse => nomatch hfalse) hc rfl

end Bvh

/-! ### The answers of a scene -/

/-- A ray hits a triangle of one of some meshes, up to some parameter. -/
def HitsTriangle {α : Type} [Scalar α] (meshes : Array (Mesh α)) (ray : Ray α) (i : Nat)
    (tri : Triangle) : Prop :=
  ∃ mesh, meshes[i]? = some mesh ∧ tri ∈ mesh.triangles ∧
    ∃ tFar hit, mesh.hit? (RayFrame.ofRay ray) ray tFar tri = .ok (some hit)

variable {α : Type} [Scalar α] {s : Scene α} {ray : Ray α}

open Bvh

theorem Bvh.Hits.exists_triangle {meshes : Array (Mesh α)} {p : PrimRef}
    (h : Hits meshes ray p) : ∃ mesh tri, Outcome.get meshes p.mesh = .ok mesh ∧
      mesh.triangle p.triangle = .ok tri ∧ HitsTriangle meshes ray p.mesh tri := by
  obtain ⟨tFar, hit, h⟩ := h
  obtain ⟨mesh, hm, h⟩ := Outcome.bind_eq_ok_iff.1 h
  obtain ⟨tri, ht, h⟩ := Outcome.bind_eq_ok_iff.1 h
  exact ⟨mesh, tri, hm, ht, mesh, Outcome.get_eq_ok_iff.1 hm,
    Array.mem_of_getElem? (Outcome.get_eq_ok_iff.1 ht), tFar, hit, h⟩

/-- The nearest hit of a scene names a triangle that the ray hits. -/
theorem Scene.hitsTriangle_of_closest {hit : SurfaceHit α} (h : s.closest ray = .ok (some hit)) :
    HitsTriangle s.meshes ray hit.mesh hit.corners := by
  obtain ⟨_ | ⟨p, hit'⟩, hc, h⟩ := Outcome.bind_eq_ok_iff.1 h
  · cases h
  obtain ⟨mesh, hm, h⟩ := Outcome.bind_eq_ok_iff.1 h
  obtain ⟨corners, ht, h⟩ := Outcome.bind_eq_ok_iff.1 h
  cases h
  obtain ⟨mesh', tri, hm', ht', htri⟩ := (Hierarchy.hits_of_closestHitWithin hc).exists_triangle
  obtain rfl : mesh = mesh' := Except.ok.inj (hm.symm.trans hm')
  obtain rfl : corners = tri := Except.ok.inj (ht.symm.trans ht')
  exact htri

/-- A ray that is blocked hits a triangle of the scene. -/
theorem Scene.exists_hitsTriangle_of_blocked (h : s.blocked ray = .ok true) :
    ∃ i tri, HitsTriangle s.meshes ray i tri := by
  obtain ⟨p, hp⟩ := Hierarchy.exists_hits_of_isHitWithin h
  obtain ⟨-, tri, -, -, htri⟩ := hp.exists_triangle
  exact ⟨p.mesh, tri, htri⟩

end RadianceTransfer
