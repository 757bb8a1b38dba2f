import RadianceTransfer.Proofs.Bvh.Queries
import RadianceTransfer.Proofs.Mesh.Hit

/-!
# The nearest hit is found

Over exact numbers, asking a hierarchy for the nearest hit gives what trying all triangles gives,
for every ray that runs along no plane of the axes.

The parameter up to which hits count only shrinks, so parts that wait were put aside under a larger
one. What a search knows of the triangles it has dealt with does not depend on the order: no hit of
theirs is before the parameter, and the parameter is that of the hit which is kept (`Leads`). A
triangle that is dealt with by its test keeps this up, and so does a part whose box is missed: a hit
before the parameter would lie in the box, and the slab test is conservative.

## Main definitions

* `Meets`: what the test of a triangle reports without a bound on the parameter.
* `Leads`: what a search knows of the triangles it has dealt with.

## Main statements

* `Tree.walk_leads`: a walk keeps it up.
* `Hierarchy.closestHitWithin_nearest`: the answer of a hierarchy.
-/

namespace RadianceTransfer.Bvh

open Exact

variable {K : Type} [Field K] [LinearOrder K] [FloorSemiring K] [ExactFunctions K]

/-- A ray meets a triangle: this is what its test reports without a bound on the parameter. -/
def Meets (meshes : Array (Mesh (Exact K))) (ray : Ray (Exact K)) (p : PrimRef)
    (hit : TriangleHit (Exact K)) : Prop :=
  hitPrim meshes (RayFrame.ofRay ray) ray posInf p = .ok (some hit)

/-- What a search that started at a parameter knows of the triangles it has dealt with. -/
structure Leads (meshes : Array (Mesh (Exact K))) (ray : Ray (Exact K)) (start : Exact K)
    (dealt : PrimRef → Prop) (tFar : Exact K) (closest : Option (PrimRef × TriangleHit (Exact K))) :
    Prop where
  /-- The parameter can be compared. -/
  ne_nan : tFar ≠ nan
  /-- No triangle is met before the parameter. -/
  le : ∀ p hit, dealt p → Meets meshes ray p hit → tFar ≤ hit.t
  /-- The parameter is the one of the hit that is kept, or nothing was found yet. -/
  kept : closest = none ∧ tFar = start ∨ ∃ p hit, closest = some (p, hit) ∧
    Meets meshes ray p hit ∧ tFar = hit.t ∧ hit.t ≤ start

/-- Part of a search goes on, and what it knows then. -/
def LeadsTo (meshes : Array (Mesh (Exact K))) (ray : Ray (Exact K)) (start : Exact K)
    (dealt : PrimRef → Prop)
    (x : Outcome (Option (Exact K) × Option (PrimRef × TriangleHit (Exact K)))) : Prop :=
  ∃ tFar closest, x = .ok (some tFar, closest) ∧ Leads meshes ray start dealt tFar closest

variable {meshes : Array (Mesh (Exact K))} {ray : Ray (Exact K)} {start tFar : Exact K}
  {dealt dealt' : PrimRef → Prop} {closest : Option (PrimRef × TriangleHit (Exact K))}

theorem LeadsTo.congr {x : Outcome (Option (Exact K) × Option (PrimRef × TriangleHit (Exact K)))}
    (h : LeadsTo meshes ray start dealt x) (hd : ∀ p, dealt' p → dealt p) :
    LeadsTo meshes ray start dealt' x := by
  obtain ⟨tFar, closest, hx, h⟩ := h
  exact ⟨tFar, closest, hx, h.ne_nan, fun p hit hp => h.le p hit (hd p hp), h.kept⟩

theorem LeadsTo.andThen {x : Outcome (Option (Exact K) × Option (PrimRef × TriangleHit (Exact K)))}
    {rest : Exact K → Option (PrimRef × TriangleHit (Exact K)) →
      Outcome (Option (Exact K) × Option (PrimRef × TriangleHit (Exact K)))}
    (hx : LeadsTo meshes ray start dealt x)
    (hrest : ∀ {tFar closest}, Leads meshes ray start dealt tFar closest →
      LeadsTo meshes ray start dealt' (rest tFar closest)) :
    LeadsTo meshes ray start dealt' (andThen x rest) := by
  obtain ⟨tFar, closest, rfl, h⟩ := hx
  exact hrest h

theorem isTriangle_of_meets {p : PrimRef} {hit : TriangleHit (Exact K)}
    (h : Meets meshes ray p hit) : IsTriangle meshes p := by
  unfold Meets hitPrim at h
  cases hm : meshes[p.mesh]? with
  | none => simp [Outcome.get, hm, violate, bind, Except.bind] at h
  | some m =>
    rw [Outcome.get_eq_ok_iff.2 hm] at h
    cases ht : m.triangles[p.triangle]? with
    | none => simp [Mesh.triangle, Outcome.get, ht, violate, bind, Except.bind] at h
    | some t => exact ⟨m, hm, (Array.getElem?_eq_some_iff.1 ht).1⟩

section

variable [IsStrictOrderedRing K] (hfin : ∀ m ∈ meshes, m.IsFinite) (hr : ray.IsRegular)
include hfin hr

/-! ### One triangle -/

/-- The test of a triangle up to a parameter. -/
theorem exists_hitPrim_iff {p : PrimRef} (hp : IsTriangle meshes p) (htFar : tFar ≠ nan) :
    ∃ o, hitPrim meshes (RayFrame.ofRay ray) ray tFar p = .ok o ∧
      ∀ hit, o = some hit ↔ Meets meshes ray p hit ∧ hit.t ≤ tFar := by
  obtain ⟨c0, c1, c2, h0, h1, h2, hhit⟩ := exists_hitPrim hp
  refine ⟨_, hhit _ _ _, fun hit => ?_⟩
  rw [Meets, hhit, Except.ok.injEq]
  exact RayFrame.hit?_eq_some_iff hr (h0.isFinite hfin) (h1.isFinite hfin)
    (h2.isFinite hfin) htFar

/-- A hit is at a positive parameter, in every box around the corners. -/
theorem meets_contains {p : PrimRef} {hit : TriangleHit (Exact K)} (h : Meets meshes ray p hit) :
    ∃ t, hit.t = fin t ∧ 0 < t ∧ ∀ b : Box (Exact K), b.lower.IsFinite → b.upper.IsFinite →
      (∀ v, IsCorner meshes p v → b.Contains v) → b.Contains (ray.pointAt (fin t)) := by
  obtain ⟨c0, c1, c2, h0, h1, h2, hhit⟩ := exists_hitPrim (isTriangle_of_meets h)
  rw [Meets, hhit, Except.ok.injEq] at h
  obtain ⟨t, ht, hpos, hin⟩ := RayFrame.hit?_contains hr (h0.isFinite hfin)
    (h1.isFinite hfin) (h2.isFinite hfin) h
  exact ⟨t, ht, hpos, fun b hlo hhi hb => hin b hlo hhi (hb c0 h0) (hb c1 h1) (hb c2 h2)⟩

/-- Testing a triangle keeps up what is known. -/
theorem nearest_leads {p : PrimRef} (hp : IsTriangle meshes p)
    (h : Leads meshes ray start dealt tFar closest) :
    LeadsTo meshes ray start (fun q => dealt q ∨ q = p)
      (Visitor.nearest meshes (RayFrame.ofRay ray) ray p tFar closest) := by
  obtain ⟨o, ho, hiff⟩ := exists_hitPrim_iff hfin hr hp h.ne_nan
  rw [Visitor.nearest, ho]
  cases o with
  | none =>
    refine ⟨tFar, closest, rfl, h.ne_nan, ?_, h.kept⟩
    rintro q hit (hq | rfl) hmeets
    · exact h.le q hit hq hmeets
    · obtain ⟨t, ht, -⟩ := meets_contains hfin hr hmeets
      have hnot : ¬ hit.t ≤ tFar := fun hle => by simpa using (hiff hit).2 ⟨hmeets, hle⟩
      rw [ht] at hnot ⊢
      exact (fin_lt_or_le h.ne_nan t).resolve_left (mt le_of_lt' hnot)
  | some hit =>
    obtain ⟨hmeets, hle⟩ := (hiff hit).1 rfl
    obtain ⟨t, ht, -⟩ := meets_contains hfin hr hmeets
    have hstart : hit.t ≤ start := by
      rcases h.kept with ⟨-, hs⟩ | ⟨_, hit', -, -, hs, hle'⟩
      · exact hs ▸ hle
      · exact le_trans' (hs ▸ hle) hle'
    refine ⟨hit.t, some (p, hit), rfl, by simp [ht], ?_, .inr ⟨p, hit, rfl, hmeets, rfl, hstart⟩⟩
    rintro q hit' (hq | rfl) hmeets'
    · exact le_trans' hle (h.le q hit' hq hmeets')
    · obtain rfl : hit = hit' := by simpa using hmeets.symm.trans hmeets'
      rw [ht]
      exact le_refl t

/-- So does testing several. -/
theorem visitAll_leads {ps : List PrimRef} (hps : ∀ p ∈ ps, IsTriangle meshes p)
    (h : Leads meshes ray start dealt tFar closest) :
    LeadsTo meshes ray start (fun q => dealt q ∨ q ∈ ps)
      (visitAll (Visitor.nearest meshes (RayFrame.ofRay ray) ray) ps tFar closest) := by
  induction ps generalizing dealt tFar closest with
  | nil => exact ⟨tFar, closest, rfl, h.ne_nan, by simpa using h.le, h.kept⟩
  | cons p ps ih =>
    rw [visitAll_cons]
    refine LeadsTo.andThen (nearest_leads hfin hr (hps p List.mem_cons_self) h) fun h' => ?_
    refine (ih (fun q hq => hps q (.tail p hq)) h').congr fun q hq => ?_
    rwa [or_assoc, ← List.mem_cons]

/-! ### A walk -/

/-- A part whose box is missed has no hit before the parameter. -/
theorem Leads.of_miss {m : Nat} {t : Tree (Exact K)} (ht : t.Within meshes m)
    (h : Leads meshes ray start dealt tFar closest) (hmiss : ¬ t.box.hits ray tFar
      (Probe.ofRay ray).invDir (Probe.ofRay ray).backwards = true) :
    Leads meshes ray start (fun q => dealt q ∨ q ∈ t.prims) tFar closest := by
  refine ⟨h.ne_nan, ?_, h.kept⟩
  rintro p hit (hp | hp) hmeets
  · exact h.le p hit hp hmeets
  · have hfits := ht.box_fits hfin
    obtain ⟨x, hx, hpos, hin⟩ := meets_contains hfin hr hmeets
    rw [hx]
    refine (fin_lt_or_le h.ne_nan x).resolve_left fun hlt => hmiss ?_
    refine Box.hits_of_contains hfits.lower_finite hfits.upper_finite hr.org hr.dir hpos hlt ?_
    exact hin t.box hfits.lower_finite hfits.upper_finite fun v hv => hfits.contains v ⟨p, hp, hv⟩

/-- **A walk keeps up what is known**, and at its end it is known of all triangles of the tree. -/
theorem Tree.walk_leads {m : Nat} {t : Tree (Exact K)} (ht : t.Within meshes m)
    (h : Leads meshes ray start dealt tFar closest) :
    LeadsTo meshes ray start (fun q => dealt q ∨ q ∈ t.prims)
      (t.walk (Probe.ofRay ray) (Visitor.nearest meshes (RayFrame.ofRay ray) ray) none tFar
        closest) := by
  induction t generalizing dealt tFar closest with
  | leaf box ps =>
    rw [walk]
    split
    · exact visitAll_leads hfin hr ht.isTriangle h
    · rename_i hmiss
      exact ⟨tFar, closest, rfl, h.of_miss hfin hr ht hmiss⟩
  | node box axis l r ihl ihr =>
    obtain ⟨hl, hr'⟩ := ht.parts
    rw [walk]
    split
    case isFalse hmiss => exact ⟨tFar, closest, rfl, h.of_miss hfin hr ht hmiss⟩
    rw [if_neg (by simp)]
    split
    · refine ((ihr hr' h).andThen fun h' => ihl hl h').congr fun q hq => ?_
      rw [prims, List.mem_append] at hq
      tauto
    · refine ((ihl hl h).andThen fun h' => ihr hr' h').congr fun q hq => ?_
      rw [prims, List.mem_append] at hq
      tauto

/-- A hierarchy of the triangles: what its answer is known to be. -/
theorem Hierarchy.Arises.leads {h : Hierarchy (Exact K)} {maxPerLeaf : Nat}
    (ha : Hierarchy.Arises meshes maxPerLeaf h) (htFar : tFar ≠ nan) :
    ∃ tFar' closest, h.closestHitWithin none meshes ray tFar = .ok closest ∧
      Leads meshes ray tFar (IsTriangle meshes) tFar' closest := by
  have hstart : Leads meshes ray tFar (fun _ => False) tFar none :=
    ⟨htFar, fun _ _ hp => hp.elim, .inl ⟨rfl, rfl⟩⟩
  cases ha with
  | empty hnone =>
    refine ⟨tFar, none, rfl, htFar, fun p hit hp => ?_, hstart.kept⟩
    rw [← mem_refs_iff, hnone] at hp
    exact absurd hp List.not_mem_nil
  | @layout t ht =>
    obtain ⟨tFar', closest, hwalk, h'⟩ :=
      t.walk_leads hfin hr ⟨_, fun _ hp => hp, ht⟩ hstart
    refine ⟨tFar', closest, ?_, h'.ne_nan, fun p hit hp => h'.le p hit (.inr ?_), h'.kept⟩
    · rw [Hierarchy.closestHitWithin, Tree.traverse_layout, hwalk]
      rfl
    · exact ht.prims_perm.symm.subset (mem_refs_iff.2 hp)

end

/-- **The nearest hit is found**: on a stack without bound, a hierarchy of finite meshes answers
with the nearest of all hits if one is before `tFar`, and with none if none is up to there. -/
theorem Hierarchy.closestHitWithin_nearest [IsStrictOrderedRing K] {a : Arrangement} (ha : a.Lawful)
    (hfin : ∀ m ∈ meshes, m.IsFinite) (maxPerLeaf : Nat) (hr : ray.IsRegular) (htFar : 0 < tFar) :
    ∃ h, Hierarchy.build a meshes maxPerLeaf = .ok h ∧
      ((∃ p hit, Meets meshes ray p hit ∧ hit.t < tFar) →
        ∃ p hit, h.closestHitWithin none meshes ray tFar = .ok (some (p, hit)) ∧
          Meets meshes ray p hit ∧ ∀ q hit', Meets meshes ray q hit' → hit.t ≤ hit'.t) ∧
      ((∀ p hit, Meets meshes ray p hit → ¬ hit.t ≤ tFar) →
        h.closestHitWithin none meshes ray tFar = .ok none) := by
  obtain ⟨h, hbuild, harises⟩ := Hierarchy.exists_build ha hfin maxPerLeaf
  have hne : tFar ≠ nan := by
    rintro rfl
    exact htFar
  obtain ⟨tFar', closest, hanswer, hleads⟩ := harises.leads hfin hr hne
  have hle (q) (hit') (hmeets : Meets meshes ray q hit') : tFar' ≤ hit'.t :=
    hleads.le q hit' (isTriangle_of_meets hmeets) hmeets
  refine ⟨h, hbuild, ?_, ?_⟩
  · rintro ⟨q, hit', hmeets', hlt⟩
    rcases hleads.kept with ⟨-, rfl⟩ | ⟨p, hit, rfl, hmeets, rfl, -⟩
    · exact absurd (hle q hit' hmeets') (not_le_of_lt hlt)
    · exact ⟨p, hit, hanswer, hmeets, hle⟩
  · intro hnone
    rcases hleads.kept with ⟨rfl, -⟩ | ⟨p, hit, -, hmeets, -, hupTo⟩
    · exact hanswer
    · exact absurd hupTo (hnone p hit hmeets)

/-- Of two triangles that a ray meets, the nearest one is found. -/
theorem Hierarchy.closestHitWithin_nearest_tiles :
    ∃ h, Hierarchy.build .stable tiles 1 = .ok h ∧
      ∃ p hit, h.closestHitWithin none tiles tilesRay posInf = .ok (some (p, hit)) ∧
        Meets tiles tilesRay p hit ∧ ∀ q hit', Meets tiles tilesRay q hit' → hit.t ≤ hit'.t := by
  have hr : tilesRay.IsRegular :=
    ⟨Vec3.isFinite_fin _ _ _, by rintro (_ | _ | _) <;> exact ⟨_, rfl, by norm_num⟩⟩
  have hpos : 0 < (posInf : Exact ℚ) := trivial
  obtain ⟨h, hbuild, hsome, -⟩ :=
    closestHitWithin_nearest Arrangement.lawful_stable tiles_isFinite 1 hr hpos
  obtain ⟨hit, hmeets⟩ : ∃ hit, Meets tiles tilesRay ⟨1, 0⟩ hit :=
    Outcome.exists_of_isSome (by decide +kernel)
  obtain ⟨t, ht, -⟩ := meets_contains tiles_isFinite hr hmeets
  exact ⟨h, hbuild, hsome ⟨⟨1, 0⟩, hit, hmeets, ht ▸ fin_lt_posInf⟩⟩

end RadianceTransfer.Bvh
