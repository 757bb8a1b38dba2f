import RadianceTransfer.Proofs.Bvh.Found
import RadianceTransfer.Proofs.Mesh.Leaving
import RadianceTransfer.Proofs.Sampling.Sphere
import RadianceTransfer.Proofs.Transport.Passes

/-!
# No vertex shadows itself

The passes over the vertices cast rays that leave a vertex in the directions of samples, and such a
ray never hits a triangle at this vertex. That none of them does is said by a caster that refuses
those rays: asked with a ray that hits a triangle at the vertex that is being computed, it fails.
Whatever the caster, a pass gives the same as if it refused them, so it never asks.

A scene that answers such a ray names other triangles, and if it says that the ray is blocked, then
by another triangle.

## Main definitions

* `RayCaster.refusing`: a caster that fails for some rays.
* `projectDirectWith`, `projectBounceWith`: the passes with a caster for each vertex.

## Main statements

* `vertices_never_shadow_themselves`: all of this.
-/

namespace RadianceTransfer

open Exact

/-! ### Casters that refuse rays -/

section

variable {α : Type} {caster : RayCaster α} {p : Ray α → Prop} {ray : Ray α}

open Classical in
/-- A caster that fails for some rays. -/
noncomputable def RayCaster.refusing (caster : RayCaster α) (p : Ray α → Prop) : RayCaster α where
  blocked ray := if p ray then violate .precondition else caster.blocked ray
  closest ray := if p ray then violate .precondition else caster.closest ray

theorem RayCaster.blocked_refusing (h : ¬ p ray) :
    (caster.refusing p).blocked ray = caster.blocked ray :=
  if_neg h

theorem RayCaster.closest_refusing (h : ¬ p ray) :
    (caster.refusing p).closest ray = caster.closest ray :=
  if_neg h

variable [Scalar α]

/-- A triangle that a ray hits is not at a vertex whose triangles it does not touch. -/
theorem HitsTriangle.not_at {meshes : Array (Mesh α)} {mesh : Mesh α} {vertex : UInt32} {i j : Nat}
    {tri : Triangle} (h : HitsTriangle meshes ray j tri) (hmesh : meshes[i]? = some mesh)
    (hray : ¬ mesh.Touches vertex ray) : ¬ (j = i ∧ vertex ∈ tri.toList) := by
  rintro ⟨rfl, hvertex⟩
  obtain ⟨mesh', hmesh', htri, tFar, hit, hhit⟩ := h
  obtain rfl : mesh = mesh' := Option.some.inj (hmesh.symm.trans hmesh')
  exact hray ⟨tri, htri, hvertex, tFar, by simp [hhit]⟩

/-- The direct transport of a mesh, with a caster for each vertex. -/
def projectDirectWith (casterAt : UInt32 → RayCaster α) (meshId : UInt32) (mesh : Mesh α)
    (param : TransportParam α) : Outcome (TransportTable α) :=
  Harmonics.coefficientCount? param.order >>= fun shLen =>
    TransportTable.fill shLen mesh.vertexCount param.threads fun v =>
      directColumn (casterAt v.toUInt32) meshId mesh param v.toUInt32

/-- A level of interreflection, with a caster for each vertex of each mesh. -/
def projectBounceWith (casterAt : Mesh α → UInt32 → RayCaster α) (meshes : Array (Mesh α))
    (prev : List (TransportTable α)) (depth : UInt32) (param : TransportParam α) :
    Outcome (List (TransportTable α)) :=
  meshes.toList.zipIdx.mapM fun (mesh, i) =>
    Outcome.get prev.toArray i >>= fun t =>
      TransportTable.fill t.shLen mesh.vertexCount param.threads fun v =>
        bounceColumn (casterAt mesh v.toUInt32) meshes prev.toArray depth param t.shLen i.toUInt32
          mesh v.toUInt32

/-- With the same caster for all vertices they are the passes. -/
theorem projectDirectWith_const (caster : RayCaster α) (meshId : UInt32) (mesh : Mesh α)
    (param : TransportParam α) :
    projectDirectWith (fun _ => caster) meshId mesh param =
      projectDirect caster meshId mesh param :=
  rfl

theorem projectBounceWith_const (caster : RayCaster α) (meshes : Array (Mesh α))
    (prev : List (TransportTable α)) (depth : UInt32) (param : TransportParam α) :
    projectBounceWith (fun _ _ => caster) meshes prev depth param =
      projectBounce caster meshes prev depth param :=
  rfl

/-! ### One vertex -/

theorem Harmonics.projectFunction_congr {order : Nat} {sampler : StratifiedSphere Pcg}
    {f g : SphereSample α → Outcome α} (h : ∀ s ∈ (sampler.pass (α := α)).1, f s = g s) :
    projectFunction order sampler f = projectFunction order sampler g := by
  refine congrArg (requireRoom _ >>= ·) (funext fun _ => congrArg (· >>= _) ?_)
  exact Outcome.foldlM_congr fun s hs coeffs => by rw [h s hs]

theorem Harmonics.projectVector_congr {len : Nat} {sampler : StratifiedSphere Pcg}
    {f g : SphereSample α → List α → Outcome (List α)}
    (h : ∀ s ∈ (sampler.pass (α := α)).1, f s = g s) :
    projectVector len sampler f = projectVector len sampler g := by
  refine congrArg (· >>= _) ?_
  exact Outcome.foldlM_congr fun s hs sum => by rw [h s hs]

variable {param : TransportParam α} {point normal : Vec3 α} {sample : SphereSample α}

theorem incoming_refusing (h : ¬ p (Ray.offset point sample.dir param.rayBias)) :
    incoming (caster.refusing p) param point normal sample =
      incoming caster param point normal sample := by
  unfold incoming
  rw [RayCaster.blocked_refusing h]

theorem gather_refusing {meshes : Array (Mesh α)} {prev : Array (TransportTable α)}
    (h : ¬ p (Ray.offset point sample.dir param.rayBias)) :
    gather (caster.refusing p) meshes prev param point normal sample =
      gather caster meshes prev param point normal sample := by
  funext sum
  unfold gather
  rw [RayCaster.closest_refusing h]

end

variable {K : Type} [Field K] [LinearOrder K] [FloorSemiring K] [ExactFunctions K]
  [IsStrictOrderedRing K] {bias : K}

section

variable [IsTrigonometric K] {mesh : Mesh (Exact K)} {vertex : UInt32}
  {param : TransportParam (Exact K)}

/-- The rays of a vertex do not hit the triangles at it. -/
theorem Mesh.not_touches_sample (hm : mesh.IsFinite) (hparam : param.rayBias = fin bias)
    (hbias : 0 < bias) {point : Vec3 (Exact K)} (hpoint : mesh.position vertex.toNat = .ok point)
    {sampler : StratifiedSphere Pcg} {s : SphereSample (Exact K)}
    (hs : s ∈ (sampler.pass (α := Exact K)).1) :
    ¬ mesh.Touches vertex (Ray.offset point s.dir param.rayBias) := by
  obtain ⟨hfin, hlength⟩ := StratifiedSphere.dir_of_mem_pass hs
  rw [hparam]
  exact Mesh.not_touches_offset hm hpoint hfin (Vec3.exists_ne_zero_of_lengthSquared hlength) hbias

theorem directColumn_refusing (hm : mesh.IsFinite) (hparam : param.rayBias = fin bias)
    (hbias : 0 < bias) (caster : RayCaster (Exact K)) (meshId : UInt32) :
    directColumn (caster.refusing (mesh.Touches vertex)) meshId mesh param vertex =
      directColumn caster meshId mesh param vertex := by
  refine Outcome.bind_congr fun point hpoint => Outcome.bind_congr fun normal _ => ?_
  refine Harmonics.projectFunction_congr fun s hs => ?_
  exact incoming_refusing (Mesh.not_touches_sample hm hparam hbias hpoint hs)

theorem bounceColumn_refusing (hm : mesh.IsFinite) (hparam : param.rayBias = fin bias)
    (hbias : 0 < bias) (caster : RayCaster (Exact K)) (meshes : Array (Mesh (Exact K)))
    (prev : Array (TransportTable (Exact K))) (depth : UInt32) (shLen : Nat) (meshId : UInt32) :
    bounceColumn (caster.refusing (mesh.Touches vertex)) meshes prev depth param shLen meshId mesh
        vertex =
      bounceColumn caster meshes prev depth param shLen meshId mesh vertex := by
  refine Outcome.bind_congr fun point hpoint => Outcome.bind_congr fun normal _ => ?_
  refine Harmonics.projectVector_congr fun s hs => ?_
  exact gather_refusing (Mesh.not_touches_sample hm hparam hbias hpoint hs)

/-! ### The passes -/

theorem projectDirect_refusing (hm : mesh.IsFinite) (hparam : param.rayBias = fin bias)
    (hbias : 0 < bias) (caster : RayCaster (Exact K)) (meshId : UInt32) :
    projectDirectWith (fun v => caster.refusing (mesh.Touches v)) meshId mesh param =
      projectDirect caster meshId mesh param := by
  rw [← projectDirectWith_const]
  unfold projectDirectWith
  simp only [directColumn_refusing hm hparam hbias]

theorem projectBounce_refusing {meshes : Array (Mesh (Exact K))}
    (hfin : ∀ m ∈ meshes, m.IsFinite) (hparam : param.rayBias = fin bias) (hbias : 0 < bias)
    (caster : RayCaster (Exact K)) (prev : List (TransportTable (Exact K))) (depth : UInt32) :
    projectBounceWith (fun m v => caster.refusing (m.Touches v)) meshes prev depth param =
      projectBounce caster meshes prev depth param := by
  rw [← projectBounceWith_const]
  unfold projectBounceWith
  refine Outcome.mapM_congr fun ⟨m, i⟩ hmem => ?_
  have hm : m.IsFinite := hfin m (Array.mem_of_getElem? (by
    rw [← Array.getElem?_toList]
    exact List.mem_zipIdx_iff_getElem?.1 hmem))
  simp only [bounceColumn_refusing hm hparam hbias]

end

/-! ### All rays -/

/-- **No vertex shadows itself.** A ray that leaves a corner of a triangle does not hit the triangle,
whatever its direction. So no pass over the vertices asks for a ray that hits a triangle at the
vertex it leaves, and what a scene answers is never such a triangle. -/
theorem vertices_never_shadow_themselves {meshes : Array (Mesh (Exact K))}
    (hfin : ∀ m ∈ meshes, m.IsFinite) (hbias : 0 < bias) :
    (∀ mesh ∈ meshes, ∀ tri ∈ mesh.triangles, ∀ v ∈ tri.toList, ∀ p wi : Vec3 (Exact K),
      mesh.position v.toNat = .ok p → wi.IsFinite → (∃ i, wi.get i ≠ fin 0) → ∀ tFar,
        mesh.hit? (RayFrame.ofRay (Ray.offset p wi (fin bias))) (Ray.offset p wi (fin bias)) tFar
          tri = .ok none) ∧
    (∀ [IsTrigonometric K] (caster : RayCaster (Exact K)) (param : TransportParam (Exact K)),
      param.rayBias = fin bias →
        (∀ mesh ∈ meshes, ∀ meshId,
          projectDirectWith (fun v => caster.refusing (mesh.Touches v)) meshId mesh param =
            projectDirect caster meshId mesh param) ∧
        ∀ prev depth,
          projectBounceWith (fun m v => caster.refusing (m.Touches v)) meshes prev depth param =
            projectBounce caster meshes prev depth param) ∧
    ∀ s : Scene (Exact K), s.meshes = meshes → ∀ i mesh v, ∀ p wi : Vec3 (Exact K),
      meshes[i]? = some mesh → mesh.position v.toNat = .ok p → wi.IsFinite →
      (∃ i, wi.get i ≠ fin 0) →
        (∀ hit, s.caster.closest (Ray.offset p wi (fin bias)) = .ok (some hit) →
          ¬ (hit.mesh = i ∧ v ∈ hit.corners.toList)) ∧
        (s.caster.blocked (Ray.offset p wi (fin bias)) = .ok true →
          ∃ j tri, HitsTriangle meshes (Ray.offset p wi (fin bias)) j tri ∧
            ¬ (j = i ∧ v ∈ tri.toList)) := by
  refine ⟨?_, ?_, ?_⟩
  · intro mesh hmesh tri htri v hv p wi hp hwi hne tFar
    exact Mesh.hit?_offset_eq_none (hfin mesh hmesh) htri hv hp hwi hne hbias tFar
  · intro _ caster param hparam
    exact ⟨fun mesh hmesh => projectDirect_refusing (hfin mesh hmesh) hparam hbias caster,
      projectBounce_refusing hfin hparam hbias caster⟩
  · rintro s rfl i mesh v p wi hmesh hp hwi hne
    have hray := Mesh.not_touches_offset (hfin mesh (Array.mem_of_getElem? hmesh)) hp hwi hne hbias
    constructor
    · intro hit hclosest
      exact (Scene.hitsTriangle_of_closest hclosest).not_at hmesh hray
    · intro hblocked
      obtain ⟨j, tri, htri⟩ := Scene.exists_hitsTriangle_of_blocked hblocked
      exact ⟨j, tri, htri, htri.not_at hmesh hray⟩

/-- A tile over the real numbers: a ray in its plane, from one of its corners along an edge, does not
hit it, and no pass over it asks for such a ray. -/
theorem vertices_never_shadow_themselves_tile :
    let tile : Mesh (Exact ℝ) :=
      .single ⟨fin 0, fin 0, fin 1⟩ ⟨fin 1, fin 0, fin 1⟩ ⟨fin 0, fin 1, fin 1⟩
    let ray : Ray (Exact ℝ) :=
      Ray.offset ⟨fin 0, fin 0, fin 1⟩ ⟨fin 1, fin 0, fin 0⟩ (fin 1)
    tile.hit? (RayFrame.ofRay ray) ray posInf ⟨0, 1, 2⟩ = .ok none ∧
      projectDirectWith (fun v => (Facing.caster (α := Exact ℝ)).refusing (tile.Touches v)) 0 tile
          ⟨2, 16, 7, true, fin 1, ⟨1, 64⟩⟩ =
        projectDirect Facing.caster 0 tile ⟨2, 16, 7, true, fin 1, ⟨1, 64⟩⟩ := by
  intro tile ray
  have htile : ∀ m ∈ #[tile], m.IsFinite := by
    intro m hm
    rw [List.mem_toArray, List.mem_singleton] at hm
    rw [hm]
    exact Mesh.single_isFinite (Vec3.isFinite_fin _ _ _) (Vec3.isFinite_fin _ _ _)
      (Vec3.isFinite_fin _ _ _)
  obtain ⟨hmiss, hpasses, -⟩ := vertices_never_shadow_themselves htile one_pos
  refine ⟨?_, ?_⟩
  · exact hmiss tile (by simp) ⟨0, 1, 2⟩ (by simp [tile, Mesh.single]) 0 (by decide) _ _ rfl
      (Vec3.isFinite_fin _ _ _) ⟨.x, by simp [Vec3.get]⟩ posInf
  · exact (hpasses Facing.caster ⟨2, 16, 7, true, fin 1, ⟨1, 64⟩⟩ rfl).1 tile (by simp) 0

end RadianceTransfer
