import Mathlib
import RadianceTransfer.Mesh.Basic
import RadianceTransfer.Proofs.Geometry.UnitVector

/-!
# Meshes and their normals

A mesh is made of any parts that fit together, and keeps them. Its normals are unit vectors. Those
that are generated start as sums: the loop over the triangles adds the edge cross product of each to
its three corners, so in the end a vertex has the sum over all corners that are this vertex, in the
order of the triangles. This holds of any scalars. Over the real numbers the order does not matter,
nor at which corner the cross product is taken, as long as the winding stays.

## Main definitions

* `Mesh.Fits`: parts that fit together.
* `Mesh.cornerSum`: the sum of the edge cross products at the corners that are a vertex.
* `Triangle.SameWinding`, `Triangle.Reordered`: triangles whose corners are turned round, and lists
  of them in any order.

## Main statements

* `Mesh.exists_build`, `Mesh.exists_report_of_not_fits`: which parts are accepted.
* `Mesh.getElem?_faceNormalSums`: what the loop over the triangles computes.
* `Mesh.cornerSum_reordered`, `Mesh.cornerSum_reverse`: order and winding.
* `Mesh.build_normals`: all of it.
-/

namespace RadianceTransfer

/-! ### Triangles -/

namespace Triangle

/-- The triangle from its second corner on. -/
def rotate (t : Triangle) : Triangle :=
  ⟨t.i1, t.i2, t.i0⟩

/-- The triangle with the opposite winding. -/
def reverse (t : Triangle) : Triangle :=
  ⟨t.i2, t.i1, t.i0⟩

/-- The corners are the same in the same cyclic order. -/
def SameWinding (t t' : Triangle) : Prop :=
  t' = t ∨ t' = t.rotate ∨ t' = t.rotate.rotate

/-- The triangles are the same in any order, each from any of its corners on. -/
def Reordered (ts ts' : List Triangle) : Prop :=
  ∃ us, List.Forall₂ SameWinding ts us ∧ us.Perm ts'

/-- How many of the corners are a vertex. -/
def cornersAt (t : Triangle) (v : Nat) : Nat :=
  t.toList.countP (·.toNat == v)

/-- The cross product of the edges that leave the first corner. A corner that is no vertex counts as
the origin. -/
def edgeProduct {α : Type} [Scalar α] (positions : Array (Vec3 α)) (t : Triangle) : Vec3 α :=
  let p (i : UInt32) : Vec3 α := positions[i.toNat]?.getD Vec3.zero
  (p t.i1 - p t.i0).cross (p t.i2 - p t.i0)

theorem perm_toList_rotate (t : Triangle) : t.rotate.toList.Perm t.toList := by
  show ([t.i1, t.i2] ++ [t.i0]).Perm ([t.i0] ++ [t.i1, t.i2])
  exact List.perm_append_comm

theorem toList_reverse (t : Triangle) : t.reverse.toList = t.toList.reverse :=
  rfl

theorem cornersAt_rotate (t : Triangle) (v : Nat) : t.rotate.cornersAt v = t.cornersAt v :=
  t.perm_toList_rotate.countP_eq _

theorem cornersAt_reverse (t : Triangle) (v : Nat) : t.reverse.cornersAt v = t.cornersAt v := by
  rw [cornersAt, toList_reverse, List.countP_reverse, cornersAt]

theorem mem_toList_rotate (t : Triangle) (i : UInt32) : i ∈ t.rotate.toList ↔ i ∈ t.toList :=
  t.perm_toList_rotate.mem_iff

theorem mem_toList_reverse (t : Triangle) (i : UInt32) : i ∈ t.reverse.toList ↔ i ∈ t.toList := by
  rw [toList_reverse, List.mem_reverse]

/-- Each corner lies between the two others in the same way. -/
theorem edgeProduct_rotate (positions : Array (Vec3 ℝ)) (t : Triangle) :
    t.rotate.edgeProduct positions = t.edgeProduct positions := by
  have hcross (a b c : Vec3 ℝ) : (c - b).cross (a - b) = (b - a).cross (c - a) := by
    ext
    · show (c.y - b.y) * (a.z - b.z) - (c.z - b.z) * (a.y - b.y) =
        (b.y - a.y) * (c.z - a.z) - (b.z - a.z) * (c.y - a.y)
      ring
    · show (c.z - b.z) * (a.x - b.x) - (c.x - b.x) * (a.z - b.z) =
        (b.z - a.z) * (c.x - a.x) - (b.x - a.x) * (c.z - a.z)
      ring
    · show (c.x - b.x) * (a.y - b.y) - (c.y - b.y) * (a.x - b.x) =
        (b.x - a.x) * (c.y - a.y) - (b.y - a.y) * (c.x - a.x)
      ring
  exact hcross _ _ _

theorem edgeProduct_reverse (positions : Array (Vec3 ℝ)) (t : Triangle) :
    t.reverse.edgeProduct positions = -t.edgeProduct positions := by
  have hcross (a b c : Vec3 ℝ) : (b - c).cross (a - c) = -(b - a).cross (c - a) := by
    ext
    · show (b.y - c.y) * (a.z - c.z) - (b.z - c.z) * (a.y - c.y) =
        -((b.y - a.y) * (c.z - a.z) - (b.z - a.z) * (c.y - a.y))
      ring
    · show (b.z - c.z) * (a.x - c.x) - (b.x - c.x) * (a.z - c.z) =
        -((b.z - a.z) * (c.x - a.x) - (b.x - a.x) * (c.z - a.z))
      ring
    · show (b.x - c.x) * (a.y - c.y) - (b.y - c.y) * (a.x - c.x) =
        -((b.x - a.x) * (c.y - a.y) - (b.y - a.y) * (c.x - a.x))
      ring
  exact hcross _ _ _

section

variable {t t' : Triangle}

theorem SameWinding.cornersAt_eq (h : SameWinding t t') (v : Nat) :
    t.cornersAt v = t'.cornersAt v := by
  rcases h with rfl | rfl | rfl <;> simp only [cornersAt_rotate]

theorem SameWinding.mem_toList_iff (h : SameWinding t t') (i : UInt32) :
    i ∈ t'.toList ↔ i ∈ t.toList := by
  rcases h with rfl | rfl | rfl <;> simp only [mem_toList_rotate]

theorem SameWinding.edgeProduct_eq (h : SameWinding t t') (positions : Array (Vec3 ℝ)) :
    t.edgeProduct positions = t'.edgeProduct positions := by
  rcases h with rfl | rfl | rfl <;> simp only [edgeProduct_rotate]

theorem Reordered.exists_of_mem {ts ts' : List Triangle} (h : Reordered ts ts') (ht : t' ∈ ts') :
    ∃ t ∈ ts, SameWinding t t' := by
  obtain ⟨us, hwinding, hperm⟩ := h
  obtain ⟨i, hi, rfl⟩ := List.getElem_of_mem (hperm.mem_iff.2 ht)
  have hi' : i < ts.length := hwinding.length_eq ▸ hi
  exact ⟨ts[i], List.getElem_mem hi', (List.forall₂_iff_get.1 hwinding).2 i hi' hi⟩

end

end Triangle

namespace Mesh

open Triangle

section

variable {α : Type}

/-! ### Parts that fit together -/

/-- Every corner is a vertex, and normals are one per vertex if there are any. -/
def Fits (positions : Array (Vec3 α)) (normals : Option (Array (Vec3 α)))
    (triangles : Array Triangle) : Prop :=
  (∀ t ∈ triangles, ∀ i ∈ t.toList, i.toNat < positions.size) ∧
    ∀ ns, normals = some ns → ns.size = positions.size

variable {positions : Array (Vec3 α)} {normals : Option (Array (Vec3 α))}
  {triangles : Array Triangle}

theorem inRange_iff {t : Triangle} {n : Nat} : t.InRange n ↔ ∀ i ∈ t.toList, i.toNat < n := by
  simp [Triangle.InRange, Triangle.toList]

theorem firstOutOfRange?_eq_none_iff {n : Nat} :
    firstOutOfRange? n triangles = none ↔ ∀ t ∈ triangles, t.InRange n := by
  simp [firstOutOfRange?]

variable [Scalar α]

/-- The normals of a mesh: the given ones as unit vectors, or generated ones. -/
def storedNormals (positions : Array (Vec3 α)) (triangles : Array Triangle) :
    Option (Array (Vec3 α)) → Array (Vec3 α)
  | some ns => ns.map normalizeOrUp
  | none => generateNormals positions triangles

/-- Parts that fit together are kept. -/
theorem exists_build (h : Fits positions normals triangles) :
    ∃ mesh, build positions normals triangles = .ok mesh ∧ mesh.positions = positions ∧
      mesh.triangles = triangles ∧ mesh.normals = storedNormals positions triangles normals := by
  have hrange : firstOutOfRange? positions.size triangles = none :=
    firstOutOfRange?_eq_none_iff.2 fun t ht => inRange_iff.2 (h.1 t ht)
  rw [build]
  split
  · rename_i hsome
    rw [hrange] at hsome
    cases hsome
  · cases normals with
    | none => exact ⟨_, rfl, rfl, rfl, rfl⟩
    | some ns =>
      dsimp only
      rw [dif_pos (h.2 ns rfl)]
      exact ⟨_, rfl, rfl, rfl, rfl⟩

/-- Other parts are reported. -/
theorem exists_report_of_not_fits (h : ¬ Fits positions normals triangles) :
    ∃ e, build positions normals triangles = report e := by
  rw [build]
  split
  · exact ⟨_, rfl⟩
  · rename_i hnone
    have hrange (t : Triangle) (ht : t ∈ triangles) : ∀ i ∈ t.toList, i.toNat < positions.size :=
      inRange_iff.1 (firstOutOfRange?_eq_none_iff.1 hnone t ht)
    cases normals with
    | none => exact absurd ⟨hrange, fun _ hns => nomatch hns⟩ h
    | some ns =>
      have hsize : ns.size ≠ positions.size := by
        intro hsize
        refine h ⟨hrange, ?_⟩
        rintro _ ⟨⟩
        exact hsize
      dsimp only
      rw [dif_neg hsize]
      exact ⟨_, rfl⟩

theorem fits_of_build {mesh : Mesh α} (h : build positions normals triangles = .ok mesh) :
    Fits positions normals triangles := by
  by_contra hfits
  obtain ⟨e, he⟩ := exists_report_of_not_fits hfits
  cases h.symm.trans he

theorem parts_of_build {mesh : Mesh α} (h : build positions normals triangles = .ok mesh) :
    mesh.positions = positions ∧ mesh.triangles = triangles ∧
      mesh.normals = storedNormals positions triangles normals := by
  obtain ⟨_, hmesh, hparts⟩ := exists_build (fits_of_build h)
  cases h.symm.trans hmesh
  exact hparts

/-! ### The loop over the triangles -/

/-- The edge cross products at a vertex: that of a triangle once for each of its corners that is the
vertex. -/
def productsAt (positions : Array (Vec3 α)) (triangles : List Triangle) (v : Nat) :
    List (Vec3 α) :=
  triangles.flatMap fun t => List.replicate (t.cornersAt v) (t.edgeProduct positions)

/-- The sum of the edge cross products at a vertex. -/
def cornerSum (positions : Array (Vec3 α)) (triangles : List Triangle) (v : Nat) : Vec3 α :=
  (productsAt positions triangles v).foldl (· + ·) Vec3.zero

/-- A vector that is added to some vertices is added to a vertex as often as this is one of them. -/
theorem getElem?_foldl_modify (corners : List UInt32) (n : Vec3 α) (sums : Array (Vec3 α))
    (v : Nat) :
    (corners.foldl (fun sums i => sums.modify i.toNat (· + n)) sums)[v]? =
      sums[v]?.map fun s =>
        (List.replicate (corners.countP (·.toNat == v)) n).foldl (· + ·) s := by
  induction corners generalizing sums with
  | nil => simp
  | cons i corners ih =>
    rw [List.foldl_cons, ih, Array.getElem?_modify, List.countP_cons]
    by_cases hi : i.toNat = v
    · rw [if_pos hi, if_pos (beq_iff_eq.2 hi), Option.map_map, List.replicate_succ]
      rfl
    · rw [if_neg hi, if_neg (mt beq_iff_eq.1 hi), Nat.add_zero]

theorem getElem?_addFaceNormal (sums : Array (Vec3 α)) (t : Triangle) (v : Nat) :
    (addFaceNormal positions sums t)[v]? = sums[v]?.map fun s =>
      (List.replicate (t.cornersAt v) (t.edgeProduct positions)).foldl (· + ·) s :=
  getElem?_foldl_modify t.toList (t.edgeProduct positions) sums v

theorem getElem?_foldl_addFaceNormal (triangles : List Triangle) (sums : Array (Vec3 α))
    (v : Nat) :
    (triangles.foldl (addFaceNormal positions) sums)[v]? = sums[v]?.map fun s =>
      (productsAt positions triangles v).foldl (· + ·) s := by
  induction triangles generalizing sums with
  | nil => simp [productsAt]
  | cons t triangles ih =>
    have hcons : productsAt positions (t :: triangles) v =
        List.replicate (t.cornersAt v) (t.edgeProduct positions) ++
          productsAt positions triangles v := List.flatMap_cons
    rw [List.foldl_cons, ih, getElem?_addFaceNormal, Option.map_map, hcons]
    simp only [List.foldl_append]
    rfl

/-- The loop leaves at every vertex the sum over the corners there, operation by operation. -/
theorem getElem?_faceNormalSums {v : Nat} (hv : v < positions.size) :
    (faceNormalSums positions triangles)[v]? = some (cornerSum positions triangles.toList v) := by
  have hzero : (Array.replicate positions.size (Vec3.zero : Vec3 α))[v]? = some Vec3.zero := by
    rw [Array.getElem?_replicate, if_pos hv]
  rw [faceNormalSums, ← Array.foldl_toList, getElem?_foldl_addFaceNormal, hzero, Option.map_some,
    cornerSum]

/-- A generated normal. -/
theorem getElem?_normals {mesh : Mesh α} (h : build positions none triangles = .ok mesh) {v : Nat}
    (hv : v < positions.size) :
    mesh.normals[v]? = some (normalizeOrUp (cornerSum positions triangles.toList v)) := by
  rw [(parts_of_build h).2.2, storedNormals, generateNormals, Array.getElem?_map,
    getElem?_faceNormalSums hv, Option.map_some]

end

/-! ### Real numbers -/

theorem normalizeOrUp_zero : normalizeOrUp (⟨0, 0, 0⟩ : Vec3 ℝ) = ⟨0, 0, 1⟩ := by
  have hlength : (⟨0, 0, 0⟩ : Vec3 ℝ).length = 0 := by
    show Real.sqrt (0 * 0 + 0 * 0 + 0 * 0) = 0
    rw [mul_zero, add_zero, add_zero, Real.sqrt_zero]
  rw [normalizeOrUp, hlength, FieldFunctions.zero_eq, FieldFunctions.one_eq]
  simp

theorem normalizeOrUp_of_ne {s : Vec3 ℝ} (h : s ≠ ⟨0, 0, 0⟩) : normalizeOrUp s = s.normalize := by
  have hlength : 0 < s.length := Real.sqrt_pos.2 (Vec3.lengthSquared_pos h)
  have hcond : (decide (0 < s.length) && Scalar.isFinite s.length) = true := by
    rw [decide_eq_true hlength]
    rfl
  rw [normalizeOrUp, FieldFunctions.zero_eq, if_pos hcond, Vec3.normalize]

theorem length_normalizeOrUp (s : Vec3 ℝ) : (normalizeOrUp s).length = 1 := by
  have hunit : (normalizeOrUp s).lengthSquared = 1 := by
    by_cases h : s = ⟨0, 0, 0⟩
    · rw [h, normalizeOrUp_zero]
      show (0 : ℝ) * 0 + 0 * 0 + 1 * 1 = 1
      norm_num
    · rw [normalizeOrUp_of_ne h, Vec3.lengthSquared_normalize h]
  rw [Vec3.length, hunit]
  exact Real.sqrt_one

/-- The third axis, which replaces a zero vector, is not turned round. Every other normal is. -/
theorem normalizeOrUp_neg {s : Vec3 ℝ} (h : s ≠ ⟨0, 0, 0⟩) :
    normalizeOrUp (-s) = -normalizeOrUp s := by
  rw [normalizeOrUp_of_ne h, normalizeOrUp_of_ne (Vec3.neg_ne_zero h), Vec3.normalize_neg]

section

variable (positions : Array (Vec3 ℝ)) {ts ts' : List Triangle}

theorem cornerSum_eq_foldl (ts : List Triangle) (v : Nat) :
    cornerSum positions ts v = (productsAt positions ts v).foldl (· + ·) ⟨0, 0, 0⟩ := by
  have hzero : @Vec3.zero ℝ (Scalar.instOfNat 0) = ⟨0, 0, 0⟩ :=
    Vec3.ext FieldFunctions.zero_eq FieldFunctions.zero_eq FieldFunctions.zero_eq
  rw [cornerSum, hzero]

theorem productsAt_eq_of_sameWinding (h : List.Forall₂ SameWinding ts ts') (v : Nat) :
    productsAt positions ts v = productsAt positions ts' v := by
  induction h with
  | nil => rfl
  | cons ht _ ih =>
    rw [productsAt, productsAt, List.flatMap_cons, List.flatMap_cons, ht.cornersAt_eq,
      ht.edgeProduct_eq]
    exact congrArg _ ih

/-- The sum depends neither on the order of the triangles nor on their first corners. -/
theorem cornerSum_reordered (h : Reordered ts ts') (v : Nat) :
    cornerSum positions ts' v = cornerSum positions ts v := by
  obtain ⟨us, hwinding, hperm⟩ := h
  have hadd (x y z : Vec3 ℝ) : x + y + z = x + z + y :=
    Vec3.ext (add_right_comm _ _ _) (add_right_comm _ _ _) (add_right_comm _ _ _)
  have hproducts : (productsAt positions ts v).Perm (productsAt positions ts' v) := by
    rw [productsAt_eq_of_sameWinding positions hwinding]
    exact hperm.flatMap_right _
  exact (hproducts.foldl_eq' (fun x _ y _ z => hadd z x y) _).symm

/-- With the opposite winding everywhere it is the opposite vector. -/
theorem cornerSum_reverse (ts : List Triangle) (v : Nat) :
    cornerSum positions (ts.map reverse) v = -cornerSum positions ts v := by
  have hproducts : productsAt positions (ts.map reverse) v =
      (productsAt positions ts v).map (-·) := by
    simp only [productsAt, List.flatMap_map, List.map_flatMap, List.map_replicate,
      cornersAt_reverse, edgeProduct_reverse]
  have hzero : (⟨0, 0, 0⟩ : Vec3 ℝ) = -⟨0, 0, 0⟩ :=
    Vec3.ext neg_zero.symm neg_zero.symm neg_zero.symm
  have hadd (x y : Vec3 ℝ) : -x + -y = -(x + y) :=
    Vec3.ext (neg_add _ _).symm (neg_add _ _).symm (neg_add _ _).symm
  rw [cornerSum_eq_foldl, cornerSum_eq_foldl, hproducts, List.foldl_map]
  conv_lhs => rw [hzero]
  exact List.foldl_hom Neg.neg hadd

theorem length_of_mem_normals {normals : Option (Array (Vec3 ℝ))} {triangles : Array Triangle}
    {mesh : Mesh ℝ} (h : build positions normals triangles = .ok mesh) {n : Vec3 ℝ}
    (hn : n ∈ mesh.normals) : n.length = 1 := by
  rw [(parts_of_build h).2.2] at hn
  cases normals with
  | none =>
    obtain ⟨s, -, rfl⟩ := Array.mem_map.1 hn
    exact length_normalizeOrUp s
  | some ns =>
    obtain ⟨s, -, rfl⟩ := Array.mem_map.1 hn
    exact length_normalizeOrUp s

variable {positions} {triangles triangles' : Array Triangle} {mesh : Mesh ℝ}

theorem exists_build_reordered
    (hts : ∀ t ∈ ts, ∀ i ∈ t.toList, i.toNat < positions.size)
    (hreordered : Reordered ts triangles'.toList) :
    ∃ mesh', build positions none triangles' = .ok mesh' ∧ ∀ v < positions.size,
      mesh'.normals[v]? = some (normalizeOrUp (cornerSum positions ts v)) := by
  have hfits : Fits positions none triangles' := by
    refine ⟨fun t' ht' i hi => ?_, fun _ hns => nomatch hns⟩
    obtain ⟨t, ht, hwinding⟩ := hreordered.exists_of_mem (Array.mem_toList_iff.2 ht')
    exact hts t ht i ((hwinding.mem_toList_iff i).1 hi)
  obtain ⟨mesh', hmesh', -⟩ := exists_build hfits
  refine ⟨mesh', hmesh', fun v hv => ?_⟩
  rw [getElem?_normals hmesh' hv, cornerSum_reordered positions hreordered]

/-- Triangles in another order, from other corners on, make a mesh with the same normals. -/
theorem exists_build_same (h : build positions none triangles = .ok mesh)
    (hreordered : Reordered triangles.toList triangles'.toList) :
    ∃ mesh', build positions none triangles' = .ok mesh' ∧ mesh'.normals = mesh.normals := by
  obtain ⟨mesh', hmesh', hnormals⟩ := exists_build_reordered
    (fun t ht => (fits_of_build h).1 t (Array.mem_toList_iff.1 ht)) hreordered
  have hsize : mesh.normals.size = positions.size := (parts_of_build h).1 ▸ mesh.size_normals
  have hsize' : mesh'.normals.size = positions.size :=
    (parts_of_build hmesh').1 ▸ mesh'.size_normals
  refine ⟨mesh', hmesh', Array.ext_getElem? fun v => ?_⟩
  rcases lt_or_ge v positions.size with hv | hv
  · rw [hnormals v hv, getElem?_normals h hv]
  · rw [Array.getElem?_eq_none (hsize' ▸ hv), Array.getElem?_eq_none (hsize ▸ hv)]

/-- Triangles with the opposite winding make a mesh with the opposite normals. -/
theorem exists_build_opposite (h : build positions none triangles = .ok mesh)
    (hreordered : Reordered (triangles.toList.map reverse) triangles'.toList) :
    ∃ mesh', build positions none triangles' = .ok mesh' ∧
      ∀ v < positions.size, cornerSum positions triangles.toList v ≠ ⟨0, 0, 0⟩ →
        ∃ n, mesh.normals[v]? = some n ∧ mesh'.normals[v]? = some (-n) := by
  have hts : ∀ t ∈ triangles.toList.map reverse, ∀ i ∈ t.toList, i.toNat < positions.size := by
    rintro _ hmem i hi
    obtain ⟨t, ht, rfl⟩ := List.mem_map.1 hmem
    exact (fits_of_build h).1 t (Array.mem_toList_iff.1 ht) i ((mem_toList_reverse t i).1 hi)
  obtain ⟨mesh', hmesh', hnormals⟩ := exists_build_reordered hts hreordered
  refine ⟨mesh', hmesh', fun v hv hne => ⟨_, getElem?_normals h hv, ?_⟩⟩
  rw [hnormals v hv, cornerSum_reverse, normalizeOrUp_neg hne]

end

/-- **Which parts make a mesh, and what its normals are.** Parts are accepted exactly if every
corner is a vertex and normals are one per vertex, if there are any; other parts are reported. The
positions and triangles are kept, and there is one normal per position. This holds of any scalars.

Over the real numbers all normals have length one. A generated normal is the unit vector along the
sum, over all corners that are its vertex, of the edge cross product of the triangle, or the third
axis if this sum is zero. No other order of the triangles and no other first corners change any
normal. The opposite winding of all triangles turns it round wherever the sum is not zero. -/
theorem build_normals :
    (∀ (α : Type) [Scalar α] (positions : Array (Vec3 α)) (normals : Option (Array (Vec3 α)))
        (triangles : Array Triangle),
      ((∃ mesh, build positions normals triangles = .ok mesh) ↔ Fits positions normals triangles) ∧
      (¬ Fits positions normals triangles → ∃ e, build positions normals triangles = report e) ∧
      ∀ mesh, build positions normals triangles = .ok mesh →
        mesh.positions = positions ∧ mesh.triangles = triangles ∧
          mesh.normals.size = positions.size) ∧
    (∀ (positions : Array (Vec3 ℝ)) (normals : Option (Array (Vec3 ℝ)))
        (triangles : Array Triangle) (mesh : Mesh ℝ),
      build positions normals triangles = .ok mesh → ∀ n ∈ mesh.normals, n.length = 1) ∧
    ∀ (positions : Array (Vec3 ℝ)) (triangles : Array Triangle) (mesh : Mesh ℝ),
      build positions none triangles = .ok mesh →
        (∀ v < positions.size, ∃ n, mesh.normals[v]? = some n ∧
          (cornerSum positions triangles.toList v = ⟨0, 0, 0⟩ → n = ⟨0, 0, 1⟩) ∧
          (cornerSum positions triangles.toList v ≠ ⟨0, 0, 0⟩ →
            n.length = 1 ∧ ∃ r, 0 < r ∧ cornerSum positions triangles.toList v = n.scale r)) ∧
        (∀ triangles' : Array Triangle, Reordered triangles.toList triangles'.toList →
          ∃ mesh', build positions none triangles' = .ok mesh' ∧ mesh'.normals = mesh.normals) ∧
        ∀ triangles' : Array Triangle,
          Reordered (triangles.toList.map reverse) triangles'.toList →
            ∃ mesh', build positions none triangles' = .ok mesh' ∧
              ∀ v < positions.size, cornerSum positions triangles.toList v ≠ ⟨0, 0, 0⟩ →
                ∃ n, mesh.normals[v]? = some n ∧ mesh'.normals[v]? = some (-n) := by
  refine ⟨fun α _ positions normals triangles => ⟨⟨?_, ?_⟩, exists_report_of_not_fits, ?_⟩,
    fun positions normals triangles mesh h n hn => length_of_mem_normals positions h hn,
    fun positions triangles mesh h => ⟨fun v hv => ⟨_, getElem?_normals h hv, ?_, ?_⟩,
      fun triangles' => exists_build_same h, fun triangles' => exists_build_opposite h⟩⟩
  · rintro ⟨mesh, h⟩
    exact fits_of_build h
  · intro h
    obtain ⟨mesh, hmesh, -⟩ := exists_build h
    exact ⟨mesh, hmesh⟩
  · intro mesh h
    obtain ⟨hpositions, htriangles, -⟩ := parts_of_build h
    exact ⟨hpositions, htriangles, hpositions ▸ mesh.size_normals⟩
  · intro hzero
    rw [hzero, normalizeOrUp_zero]
  · intro hne
    refine ⟨length_normalizeOrUp _, ?_⟩
    rw [normalizeOrUp_of_ne hne]
    exact Vec3.exists_eq_scale_normalize hne

/-- A square of two triangles, and a vertex that belongs to none. -/
theorem build_normals_square :
    let positions : Array (Vec3 ℝ) := #[⟨0, 0, 0⟩, ⟨1, 0, 0⟩, ⟨1, 1, 0⟩, ⟨0, 1, 0⟩, ⟨2, 2, 2⟩]
    ∃ mesh turned reversed : Mesh ℝ,
      build positions none #[⟨0, 1, 2⟩, ⟨0, 2, 3⟩] = .ok mesh ∧
      build positions none #[⟨2, 3, 0⟩, ⟨1, 2, 0⟩] = .ok turned ∧
      build positions none #[⟨2, 1, 0⟩, ⟨3, 2, 0⟩] = .ok reversed ∧
      turned.normals = mesh.normals ∧ mesh.normals[4]? = some ⟨0, 0, 1⟩ ∧
      ∃ n : Vec3 ℝ, mesh.normals[0]? = some n ∧ n.length = 1 ∧
        (∃ r, 0 < r ∧ ⟨0, 0, 2⟩ = n.scale r) ∧
        reversed.normals[0]? = some (-n) := by
  intro positions
  have hfits : Fits positions none #[⟨0, 1, 2⟩, ⟨0, 2, 3⟩] := by
    simp [Fits, Triangle.toList, positions]
  have hsub (a b c x y z : ℝ) : (⟨a, b, c⟩ : Vec3 ℝ) - ⟨x, y, z⟩ = ⟨a - x, b - y, c - z⟩ := rfl
  have hproduct : (⟨0, 1, 2⟩ : Triangle).edgeProduct positions = ⟨0, 0, 1⟩ := by
    simp [edgeProduct, positions, hsub, Vec3.cross]
  have hproduct' : (⟨0, 2, 3⟩ : Triangle).edgeProduct positions = ⟨0, 0, 1⟩ := by
    simp [edgeProduct, positions, hsub, Vec3.cross]
  have hsum : cornerSum positions [⟨0, 1, 2⟩, ⟨0, 2, 3⟩] 0 = ⟨0, 0, 2⟩ := by
    have hproducts : productsAt positions [⟨0, 1, 2⟩, ⟨0, 2, 3⟩] 0 = [⟨0, 0, 1⟩, ⟨0, 0, 1⟩] := by
      rw [productsAt, List.flatMap_cons, List.flatMap_cons, hproduct, hproduct']
      rfl
    rw [cornerSum_eq_foldl, hproducts]
    show (⟨0 + 0 + 0, 0 + 0 + 0, 0 + 1 + 1⟩ : Vec3 ℝ) = ⟨0, 0, 2⟩
    norm_num
  have hsum' : cornerSum positions [⟨0, 1, 2⟩, ⟨0, 2, 3⟩] 4 = ⟨0, 0, 0⟩ := by
    rw [cornerSum_eq_foldl]
    rfl
  have hturned : Reordered [⟨0, 1, 2⟩, ⟨0, 2, 3⟩] [⟨2, 3, 0⟩, ⟨1, 2, 0⟩] :=
    ⟨[⟨1, 2, 0⟩, ⟨2, 3, 0⟩], .cons (.inr (.inl rfl)) (.cons (.inr (.inl rfl)) .nil), .swap _ _ _⟩
  have hreversed : Reordered ([⟨0, 1, 2⟩, ⟨0, 2, 3⟩].map reverse) [⟨2, 1, 0⟩, ⟨3, 2, 0⟩] :=
    ⟨_, .cons (.inl rfl) (.cons (.inl rfl) .nil), .refl _⟩
  obtain ⟨mesh, hmesh⟩ := (build_normals.1 ℝ positions none _).1.2 hfits
  obtain ⟨hnormal, hsame, hopposite⟩ := build_normals.2.2 positions _ mesh hmesh
  obtain ⟨turned, hbuilt, heq⟩ := hsame #[⟨2, 3, 0⟩, ⟨1, 2, 0⟩] hturned
  obtain ⟨reversed, hbuilt', hneg⟩ := hopposite #[⟨2, 1, 0⟩, ⟨3, 2, 0⟩] hreversed
  have hne : cornerSum positions [⟨0, 1, 2⟩, ⟨0, 2, 3⟩] 0 ≠ ⟨0, 0, 0⟩ := by
    rw [hsum]
    exact fun h => two_ne_zero (congrArg Vec3.z h)
  obtain ⟨n, hn, -, halong⟩ := hnormal 0 (by decide)
  obtain ⟨up, hup, hthird, -⟩ := hnormal 4 (by decide)
  obtain ⟨n₁, hn₁, hn'⟩ := hneg 0 (by decide) hne
  cases hn.symm.trans hn₁
  cases hthird hsum'
  rw [hsum] at halong hne
  obtain ⟨hlength, hscale⟩ := halong hne
  exact ⟨mesh, turned, reversed, hmesh, hbuilt, hbuilt', heq, hup, n, hn, hlength, hscale, hn'⟩

end Mesh

end RadianceTransfer
