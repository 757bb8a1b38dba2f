import RadianceTransfer.Bvh.Layout
import RadianceTransfer.Mesh.Hit

/-!
# Rays through a hierarchy

A ray visits the triangles of every leaf whose box it passes before some parameter. Of two parts the
one nearer to the ray's origin comes first, and the other one waits on a stack of fixed capacity;
the capacity is a parameter, so that the search can be looked at without one. What is done with a
triangle is up to a visitor, which may lower the parameter or end the search.

## Main definitions

* `Visitor`: what is done with a triangle.
* `Search`: where a search stands.
* `Search.step`, `Search.run`: one node, and all of them.
* `Visitor.anyHit`, `Visitor.nearest`: the two things that are done with a triangle.
* `Hierarchy.isHit`: whether anything is hit.
* `Hierarchy.closestHit`: the nearest hit.
-/

namespace RadianceTransfer.Bvh

/-- What is done with a triangle: from the parameter up to which hits count and the result so far,
a new parameter, or none to end the search, and a new result. -/
abbrev Visitor (α σ : Type) : Type := PrimRef → α → σ → Outcome (Option α × σ)

/-- How many parts can wait. -/
def stackCapacity : Nat := 64

/-- What all nodes need to know about the ray. -/
structure Probe (α : Type) where
  /-- The ray. -/
  ray : Ray α
  /-- One over each component of its direction. -/
  invDir : Vec3 α
  /-- Along which axes it runs backwards. Where zero has a sign, it counts. -/
  backwards : Vec3 Bool

/-- Where a search stands. -/
structure Search (α σ : Type) where
  /-- The parameter up to which hits count. -/
  tFar : α
  /-- The result so far. -/
  result : σ
  /-- The node to look at. -/
  node : Nat
  /-- The parts that wait, the last one put there first. -/
  stack : List Nat

variable {α σ : Type} [Scalar α]

/-- The probe of a ray. -/
@[inline] def Probe.ofRay (ray : Ray α) : Probe α :=
  let invDir := ray.dir.divideInto 1
  ⟨ray, invDir, invDir.signs⟩

/-- Visits some triangles in order. No parameter is left once the visitor has ended the search. -/
@[specialize] def visitAll (visit : Visitor α σ) : List PrimRef → α → σ → Outcome (Option α × σ)
  | [], tFar, result => .ok (some tFar, result)
  | p :: ps, tFar, result => do
    match ← visit p tFar result with
    | (some tFar, result) => visitAll visit ps tFar result
    | (none, result) => pure (none, result)

/-- What one step of a search leads to. -/
inductive Progress (α σ : Type) where
  /-- The search goes on. -/
  | running (s : Search α σ)
  /-- It has ended with a result. -/
  | done (result : σ)

/-- Takes the part that waits on top of the stack, if one does. -/
@[inline] def Search.pop (tFar : α) (result : σ) : List Nat → Progress α σ
  | [] => .done result
  | node :: stack => .running ⟨tFar, result, node, stack⟩

/-- Whether a further part can wait. Without a capacity it always can. -/
@[inline] def hasRoom (capacity : Option Nat) (stack : List Nat) : Bool :=
  capacity.all fun c => decide (stack.length < c)

/-- Looks at one node. -/
@[specialize] def Search.step (h : Hierarchy α) (capacity : Option Nat) (probe : Probe α)
    (visit : Visitor α σ) (s : Search α σ) : Outcome (Progress α σ) := do
  let node ← Outcome.get h.nodes s.node
  if node.box.hits probe.ray s.tFar probe.invDir probe.backwards then
    match node.kind with
    | .leaf first count =>
      if h.prims.size < first + count then violate .indexOutOfRange
      else
        match ← visitAll visit (h.prims.extract first (first + count)).toList s.tFar s.result with
        | (some tFar, result) => pure (Search.pop tFar result s.stack)
        | (none, result) => pure (.done result)
    | .interior right axis =>
      let left := s.node + 1
      let (first, second) := if probe.backwards.get axis then (right, left) else (left, right)
      if hasRoom capacity s.stack then pure (.running ⟨s.tFar, s.result, first, second :: s.stack⟩)
      else violate .capacity
  else pure (Search.pop s.tFar s.result s.stack)

/-- Looks at nodes until the search ends, at most as many as allowed. -/
@[specialize] def Search.run (h : Hierarchy α) (capacity : Option Nat) (probe : Probe α)
    (visit : Visitor α σ) : Nat → Search α σ → Outcome σ
  | 0, _ => violate .capacity
  | steps + 1, s => do
    match ← s.step h capacity probe visit with
    | .running s => run h capacity probe visit steps s
    | .done result => pure result

/-- Where a ray meets a triangle of the meshes. -/
@[specialize] def hitPrim (meshes : Array (Mesh α)) (frame : RayFrame α) (ray : Ray α) (tFar : α)
    (p : PrimRef) : Outcome (Option (TriangleHit α)) := do
  let mesh ← Outcome.get meshes p.mesh
  let t ← mesh.triangle p.triangle
  mesh.hit? frame ray tFar t

namespace Visitor

/-- Whether there is any hit. The first one ends the search. -/
@[inline] def anyHit (meshes : Array (Mesh α)) (frame : RayFrame α) (ray : Ray α) :
    Visitor α Bool := fun p tFar found => do
  match ← hitPrim meshes frame ray tFar p with
  | some _ => pure (none, true)
  | none => pure (some tFar, found)

/-- The nearest hit. Every hit lowers the parameter. -/
@[inline] def nearest (meshes : Array (Mesh α)) (frame : RayFrame α) (ray : Ray α) :
    Visitor α (Option (PrimRef × TriangleHit α)) := fun p tFar closest => do
  match ← hitPrim meshes frame ray tFar p with
  | some hit => pure (some hit.t, some (p, hit))
  | none => pure (some tFar, closest)

end Visitor

namespace Hierarchy

/-- Visits the triangles of every leaf that a ray passes. No node is looked at twice. -/
@[specialize] def traverse (h : Hierarchy α) (capacity : Option Nat) (ray : Ray α) (tFar : α)
    (result : σ) (visit : Visitor α σ) : Outcome σ :=
  if h.nodes.isEmpty then .ok result
  else Search.run h capacity (Probe.ofRay ray) visit h.nodes.size ⟨tFar, result, 0, []⟩

/-- Whether a ray hits anything up to a parameter, with a stack of some capacity or without
bound. -/
@[specialize] def isHitWithin (h : Hierarchy α) (capacity : Option Nat) (meshes : Array (Mesh α))
    (ray : Ray α) (tFar : α) : Outcome Bool :=
  h.traverse capacity ray tFar false (Visitor.anyHit meshes (RayFrame.ofRay ray) ray)

/-- The nearest hit of a ray up to a parameter, with a stack of some capacity or without bound. -/
@[specialize] def closestHitWithin (h : Hierarchy α) (capacity : Option Nat)
    (meshes : Array (Mesh α)) (ray : Ray α) (tFar : α) :
    Outcome (Option (PrimRef × TriangleHit α)) :=
  h.traverse capacity ray tFar none (Visitor.nearest meshes (RayFrame.ofRay ray) ray)

/-- Whether a ray hits anything up to a parameter. -/
@[specialize] def isHit (h : Hierarchy α) (meshes : Array (Mesh α)) (ray : Ray α) (tFar : α) :
    Outcome Bool :=
  h.isHitWithin (some stackCapacity) meshes ray tFar

/-- The nearest hit of a ray up to a parameter. -/
@[specialize] def closestHit (h : Hierarchy α) (meshes : Array (Mesh α)) (ray : Ray α) (tFar : α) :
    Outcome (Option (PrimRef × TriangleHit α)) :=
  h.closestHitWithin (some stackCapacity) meshes ray tFar

end Hierarchy

end RadianceTransfer.Bvh
