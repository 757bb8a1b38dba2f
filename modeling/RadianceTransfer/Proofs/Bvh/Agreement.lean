import RadianceTransfer.Proofs.Bvh.Found
import RadianceTransfer.Proofs.Bvh.Primitives
import RadianceTransfer.Proofs.Bvh.Tree

/-!
# The two questions agree

Whether a ray hits anything and what it hits first are found by the same search with two visitors.
The one ends the search at the first hit. The other lowers the parameter there and goes on, so from
then on the two look at different nodes.

Up to the first hit they look at the same nodes with the same parameter, and a hit that has been
found is never lost again. So whenever the nearest hit is found, or found missing, the other
question has the matching answer. Nothing is assumed of scalars: not an order, not even an equality
that holds between a value and itself.

## Main statements

* `run_anyHit`: the two searches, in lockstep up to the first hit.
* `isHit_of_closestHit`: the answers of a hierarchy and of a scene.
-/

namespace RadianceTransfer.Bvh

/-- What the search for the nearest hit carries along. -/
abbrev Closest (α : Type) : Type := Option (PrimRef × TriangleHit α)

variable {α : Type}

/-! ### The same search for another question -/

/-- Whether a hit is found once a step was made. -/
def Progress.found : Progress α (Closest α) → Bool
  | .running s => s.result.isSome
  | .done c => c.isSome

/-- The search for any hit at the place of one for the nearest, which has found nothing yet. -/
def Search.asAny (s : Search α (Closest α)) : Search α Bool :=
  ⟨s.tFar, false, s.node, s.stack⟩

/-- Where the search for any hit is once the one for the nearest has made a step: it has ended if
something was found. -/
def Progress.asAny (p : Progress α (Closest α)) : Progress α Bool :=
  if p.found then .done true
  else match p with
    | .running s => .running s.asAny
    | .done _ => .done false

theorem Search.found_pop (tFar : α) (c : Closest α) (stack : List Nat) :
    (Search.pop tFar c stack).found = c.isSome := by
  cases stack <;> rfl

theorem Search.asAny_pop (tFar : α) (stack : List Nat) :
    (Search.pop tFar (none : Closest α) stack).asAny = Search.pop tFar false stack := by
  cases stack <;> rfl

variable [Scalar α] {meshes : Array (Mesh α)} {frame : RayFrame α} {ray : Ray α}

/-! ### Some triangles -/

/-- The visitor for the nearest hit never ends a search. -/
theorem visitAll_nearest {ps : List PrimRef} {tFar : α} {c c' : Closest α} {o : Option α}
    (h : visitAll (Visitor.nearest meshes frame ray) ps tFar c = .ok (o, c')) : o.isSome := by
  induction ps generalizing tFar c with
  | nil =>
    cases h
    rfl
  | cons p ps ih =>
    obtain ⟨⟨tFar', c''⟩, hv, h⟩ := Outcome.bind_eq_ok_iff.1 h
    obtain ⟨_ | hit, -, hv⟩ := Outcome.bind_eq_ok_iff.1 hv
    · cases hv
      exact ih h
    · cases hv
      exact ih h

/-- What it has found stays found. -/
theorem keeps_isSome : (Visitor.nearest meshes frame ray).Keeps fun c => c.isSome = true := by
  intro p tFar c o hc hv
  obtain ⟨_ | hit, -, hv⟩ := Outcome.bind_eq_ok_iff.1 hv
  · cases hv
    exact hc
  · cases hv
    rfl

/-- Over some triangles the two visitors do the same, until one is hit. -/
theorem visitAll_anyHit {ps : List PrimRef} {tFar : α} {c : Closest α} {o : Option α}
    (h : visitAll (Visitor.nearest meshes frame ray) ps tFar none = .ok (o, c)) :
    visitAll (Visitor.anyHit meshes frame ray) ps tFar false =
      .ok (if c.isSome then (none, true) else (o, false)) := by
  induction ps generalizing tFar with
  | nil =>
    cases h
    rfl
  | cons p ps ih =>
    simp only [visitAll, Visitor.nearest, Visitor.anyHit] at h ⊢
    cases hp : hitPrim meshes frame ray tFar p with
    | error e => simp [hp, bind, Except.bind] at h
    | ok hit =>
      rw [hp] at h
      cases hit with
      | none => exact ih h
      | some hit =>
        rw [keeps_isSome.visitAll (r := some (p, hit)) rfl h]
        rfl

/-! ### A step and a run -/

variable {h : Hierarchy α} {capacity : Option Nat} {probe : Probe α}

/-- As long as nothing is found the two searches step alike. -/
theorem step_anyHit {s : Search α (Closest α)} {p : Progress α (Closest α)}
    (hs : Search.Step h capacity probe (Visitor.nearest meshes frame ray) s p)
    (hc : s.result = none) :
    Search.Step h capacity probe (Visitor.anyHit meshes frame ray) s.asAny p.asAny := by
  obtain ⟨tFar, _, node, stack⟩ := s
  subst hc
  cases hs with
  | miss hn hb =>
    rw [Search.asAny_pop]
    exact .miss hn hb
  | @leaf _ _ _ o hn hb hr hv =>
    obtain ⟨o, c⟩ := o
    obtain ⟨tFar, rfl⟩ := Option.isSome_iff_exists.1 (visitAll_nearest hv)
    have hany : Search.Step h capacity probe (Visitor.anyHit meshes frame ray)
        (Search.asAny ⟨_, none, node, stack⟩) _ := .leaf hn hb hr (visitAll_anyHit hv)
    cases c with
    | none =>
      rw [Search.resume, Search.asAny_pop]
      exact hany
    | some c =>
      have hfound : (Search.resume stack (some tFar, some c)).asAny = .done true := by
        rw [Progress.asAny.eq_def, Search.resume, Search.found_pop]
        rfl
      rw [hfound]
      exact hany
  | interior hn hb room => exact .interior hn hb room

/-- The two searches in lockstep: the one for any hit ends where the one for the nearest first finds
something, and otherwise they end together. -/
theorem run_anyHit {n : Nat} {s : Search α (Closest α)} {c : Closest α}
    (hs : s.run h capacity probe (Visitor.nearest meshes frame ray) n = .ok c)
    (hc : s.result = none) :
    s.asAny.run h capacity probe (Visitor.anyHit meshes frame ray) n = .ok c.isSome := by
  induction n generalizing s with
  | zero => cases hs
  | succ n ih =>
    rcases Search.run_eq_ok_iff.1 hs with hstep | ⟨t, hstep, ht⟩
    · rw [Search.run_of_step (step_anyHit hstep hc)]
      cases c <;> rfl
    · rw [Search.run_of_step (step_anyHit hstep hc)]
      cases hr : t.result with
      | none =>
        have hasAny : (Progress.running t).asAny = .running t.asAny := by
          simp [Progress.asAny, Progress.found, hr]
        rw [hasAny, Search.proceed, ih ht hr]
      | some x =>
        have hasAny : (Progress.running t).asAny = .done true := by
          simp [Progress.asAny, Progress.found, hr]
        rw [hasAny, Search.proceed, keeps_isSome.run (by rw [hr]; rfl) ht]

theorem Hierarchy.isHitWithin_of_closestHitWithin {h : Hierarchy α} {capacity : Option Nat}
    {ray : Ray α} {tFar : α} {c : Closest α}
    (hc : h.closestHitWithin capacity meshes ray tFar = .ok c) :
    h.isHitWithin capacity meshes ray tFar = .ok c.isSome := by
  unfold Hierarchy.closestHitWithin Hierarchy.traverse at hc
  unfold Hierarchy.isHitWithin Hierarchy.traverse
  split at hc
  · rename_i hempty
    cases hc
    rw [if_pos hempty]
    rfl
  · rename_i hempty
    rw [if_neg hempty]
    exact run_anyHit hc rfl

end RadianceTransfer.Bvh

namespace RadianceTransfer

open Bvh

variable {α : Type} [Scalar α]

theorem Scene.blocked_of_closest {s : Scene α} {ray : Ray α} {c : Option (SurfaceHit α)}
    (hc : s.closest ray = .ok c) : s.blocked ray = .ok c.isSome := by
  unfold Scene.closest at hc
  cases hq : s.hierarchy.closestHit s.meshes ray Scalar.infinity with
  | error e =>
    rw [hq] at hc
    cases hc
  | ok q =>
    have hb := Hierarchy.isHitWithin_of_closestHitWithin hq
    rw [hq] at hc
    cases q with
    | none =>
      cases hc
      exact hb
    | some q =>
      obtain ⟨p, hit⟩ := q
      simp only [bind, Except.bind] at hc
      split at hc
      · cases hc
      · split at hc
        · cases hc
        · cases hc
          exact hb

/-- **The questions agree**: whenever the nearest hit of a ray up to a parameter is found, or found
missing, the search for any hit returns as well, and says whether there is one. So do the two
questions of a scene. -/
theorem isHit_of_closestHit :
    (∀ (h : Hierarchy α) (meshes : Array (Mesh α)) (ray : Ray α) (tFar : α) (c : Closest α),
      h.closestHit meshes ray tFar = .ok c → h.isHit meshes ray tFar = .ok c.isSome) ∧
    (∀ (s : Scene α) (ray : Ray α) (c : Option (SurfaceHit α)),
      s.caster.closest ray = .ok c → s.caster.blocked ray = .ok c.isSome) := by
  constructor
  · intro h meshes ray tFar c hc
    exact Hierarchy.isHitWithin_of_closestHitWithin hc
  · intro s ray c hc
    exact Scene.blocked_of_closest hc

/-- Where the nearest of two triangles is found, there is a hit. -/
theorem isHit_of_closestHit_tiles :
    let h : Hierarchy (Exact ℚ) := (Tree.leaf
      ⟨⟨.fin 0, .fin 0, .fin 1⟩, ⟨.fin 2, .fin 2, .fin 2⟩⟩ [⟨0, 0⟩, ⟨1, 0⟩]).layout
    ∃ closest, h.closestHit tiles tilesRay .posInf = .ok (some closest) ∧
      h.isHit tiles tilesRay .posInf = .ok true := by
  intro h
  obtain ⟨closest, hc⟩ : ∃ closest, h.closestHit tiles tilesRay .posInf = .ok (some closest) :=
    Outcome.exists_of_isSome (by decide +kernel)
  exact ⟨closest, hc, isHit_of_closestHit.1 h tiles tilesRay .posInf (some closest) hc⟩

end RadianceTransfer
