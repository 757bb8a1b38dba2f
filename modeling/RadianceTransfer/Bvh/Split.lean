import RadianceTransfer.Geometry.Box

/-!
# Dividing triangles

A hierarchy of boxes is built by dividing the triangles of a node in two, again and again. Few
triangles are divided in the middle along the axis on which their centers spread most. Many are put
into buckets along that axis, and divided between the two buckets where the expected cost of a ray
is least: the surface areas of the two halves, weighted by how many triangles they hold.

## Rearranging

Dividing rearranges a list. How elements that compare equal are ordered afterwards is left to an
`Arrangement`; `Arrangement.Lawful` says what one must do.

## Main definitions

* `Primitive`: a triangle with its box and center.
* `Arrangement`: the two ways of rearranging a list.
* `Split`: what becomes of the triangles of a node.
* `split`: the decision.
-/

namespace RadianceTransfer.Bvh

/-- A triangle of a mesh, by number. -/
structure PrimRef where
  /-- The mesh. -/
  mesh : Nat
  /-- The triangle in it. -/
  triangle : Nat
  deriving DecidableEq

/-- A triangle with what is needed to place it in the hierarchy. -/
structure Primitive (α : Type) where
  /-- The triangle. -/
  ref : PrimRef
  /-- Its box. -/
  box : Box α
  /-- The center of its box. -/
  centroid : Vec3 α

/-- The two ways of rearranging a list. -/
structure Arrangement where
  /-- Brings the element that sorting would put at a position to that position, with none greater
  before it and none less after it. -/
  select : {β : Type} → (β → β → Bool) → Nat → List β → List β
  /-- Divides a list into the elements that satisfy a test and those that do not. -/
  divide : {β : Type} → (β → Bool) → List β → List β × List β

namespace Arrangement

/-- What a rearrangement promises: it loses nothing, adds nothing, and divides by the test. -/
structure Lawful (a : Arrangement) : Prop where
  /-- Selecting permutes the list. -/
  select_perm : ∀ {β : Type} (less : β → β → Bool) (k : Nat) (xs : List β),
    (a.select less k xs).Perm xs
  /-- Dividing permutes the list. -/
  divide_perm : ∀ {β : Type} (p : β → Bool) (xs : List β),
    ((a.divide p xs).1 ++ (a.divide p xs).2).Perm xs
  /-- The first part satisfies the test. -/
  divide_left : ∀ {β : Type} (p : β → Bool) (xs : List β), ∀ x ∈ (a.divide p xs).1, p x = true
  /-- The second part does not. -/
  divide_right : ∀ {β : Type} (p : β → Bool) (xs : List β), ∀ x ∈ (a.divide p xs).2, p x = false

/-- Rearranging that keeps the order of elements that compare equal. -/
def stable : Arrangement where
  select less _ xs := xs.mergeSort fun x y => !less y x
  divide p xs := xs.partition p

theorem lawful_stable : stable.Lawful where
  select_perm _ _ xs := List.mergeSort_perm xs _
  divide_perm p xs := by
    induction xs with
    | nil => simp [stable]
    | cons x xs ih =>
      simp only [stable, List.partition_eq_filter_filter] at ih ⊢
      by_cases h : p x
      · simpa [h] using ih
      · simpa [h] using (List.perm_middle.trans (ih.cons x))
  divide_left p xs x h := by
    simp only [stable, List.partition_eq_filter_filter, List.mem_filter] at h
    exact h.2
  divide_right p xs x h := by
    simp only [stable, List.partition_eq_filter_filter, List.mem_filter] at h
    simpa using h.2

end Arrangement

/-- What becomes of the triangles of a node. -/
inductive Split (α : Type) where
  /-- They stay together. -/
  | leaf
  /-- They are divided along an axis. -/
  | halves (axis : Axis) (left right : List (Primitive α))

/-- How many buckets there are along an axis. -/
def bucketCount : Nat := 12

/-- The triangles of one bucket. -/
structure Bucket (α : Type) where
  /-- How many there are. -/
  count : Nat
  /-- The box around them. -/
  box : Box α

section

variable {α : Type} [Scalar α]

namespace Bucket

/-- A bucket that holds nothing. -/
@[inline] def empty : Bucket α :=
  ⟨0, Box.empty⟩

/-- The bucket with a further triangle. -/
@[inline] def add (b : Bucket α) (p : Primitive α) : Bucket α :=
  ⟨b.count + 1, b.box.union p.box⟩

/-- The contents of several buckets together. -/
@[specialize] def merge (bs : List (Bucket α)) : Bucket α :=
  bs.foldl (fun s b => ⟨s.count + b.count, s.box.union b.box⟩) empty

/-- The surface area of a bucket as often as it holds triangles. -/
@[specialize] def cost (b : Bucket α) : α :=
  if 0 < b.count then Scalar.ofNat b.count * b.box.surfaceArea else 0

end Bucket

/-- The box around all triangles. -/
@[specialize] def boxOf (ps : List (Primitive α)) : Box α :=
  ps.foldl (fun b p => b.union p.box) Box.empty

/-- The box around all centers. -/
@[specialize] def centroidBox (ps : List (Primitive α)) : Box α :=
  ps.foldl (fun b p => b.addPoint p.centroid) Box.empty

/-- The bucket of a triangle, by where its center lies between the outermost ones. -/
@[specialize] def bucketOf (bounds : Box α) (axis : Axis) (p : Primitive α) : Nat :=
  min (Scalar.toNat (Scalar.ofNat bucketCount * (bounds.offset p.centroid).get axis))
    (bucketCount - 1)

/-- The buckets filled with triangles. -/
@[specialize] def fillBuckets (bounds : Box α) (axis : Axis) (ps : List (Primitive α)) :
    Array (Bucket α) :=
  ps.foldl (fun bs p => bs.modify (bucketOf bounds axis p) (·.add p))
    (Array.replicate bucketCount Bucket.empty)

/-- The expected cost of dividing behind each bucket but the last, relative to the area of the
whole. -/
@[specialize] def splitCosts (buckets : List (Bucket α)) (area : α) : List α :=
  (List.range (bucketCount - 1)).map fun i =>
    0.125 + ((Bucket.merge (buckets.take (i + 1))).cost +
      (Bucket.merge (buckets.drop (i + 1))).cost) / area

/-- The first position with the least cost, and that cost; position 0 and no bound where no cost
is below any bound. -/
@[specialize] def leastCost (costs : List α) : Nat × α :=
  costs.zipIdx.foldl (fun (best, least) (c, i) => if c < least then (i, c) else (best, least))
    (0, Scalar.infinity)

/-- Divides the triangles of a node, or leaves them together. A single triangle stays, and so do
triangles whose centers coincide. Up to four are divided in the middle. More are divided by cost,
unless they fit a leaf and dividing does not pay. -/
@[specialize] def split (a : Arrangement) (maxPerLeaf : Nat) (ps : List (Primitive α)) : Split α :=
  let bounds := centroidBox ps
  let axis := bounds.maxDim
  let n := ps.length
  if n = 1 ∨ bounds.upper.get axis == bounds.lower.get axis then .leaf
  else if n ≤ 4 then
    let before := fun (p q : Primitive α) => decide (p.centroid.get axis < q.centroid.get axis)
    let sorted := a.select before (n / 2) ps
    .halves axis (sorted.take (n / 2)) (sorted.drop (n / 2))
  else
    let buckets := (fillBuckets bounds axis ps).toList
    let (best, least) := leastCost (splitCosts buckets (boxOf ps).surfaceArea)
    if maxPerLeaf < n ∨ least < Scalar.ofNat n then
      let (left, right) := a.divide (fun p => decide (bucketOf bounds axis p ≤ best)) ps
      .halves axis left right
    else .leaf

end

end RadianceTransfer.Bvh
