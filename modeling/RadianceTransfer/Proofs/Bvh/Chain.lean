import RadianceTransfer.Proofs.Bvh.Queries
import RadianceTransfer.Proofs.Mesh.Hit

/-!
# Triangles that shrink towards a point

Triangles around the origin, each a sixteenth of the size of the one before. The centers of all but
the largest of them lie in the first of the twelve buckets, so every division splits off the largest
one, until four are left. The tree is a chain to the left, and it is as high as a tree can be.

The box of every node holds the origin. A ray that passes the origin and runs along all axes visits
the left part of every node first, so that one more part waits at every node of the chain before any
triangle is looked at. Neither how equal elements are ordered nor how many triangles a leaf may hold
matters for it.

## Main definitions

* `Chain.meshes`, `Chain.ray`: the triangles and the ray.
* `Chain.Shrinks`: some of the triangles, each of them once.
* `Tree.leftDepth`: how often a tree can be left to the left.

## Main statements

* `Chain.le_leftDepth`: the tree is a chain.
* `Chain.traverse_full`: the ray fills the stack.
-/

namespace RadianceTransfer.Bvh

open Exact

/-- The number of nodes on the way from the first node to the leftmost leaf. -/
def Tree.leftDepth {α : Type} : Tree α → Nat
  | leaf _ _ => 0
  | node _ _ l _ => l.leftDepth + 1

namespace Chain

/-! ### Sizes and centers -/

section

variable (K : Type) [Field K]

/-- The size of a triangle. -/
def scale (i : Nat) : K := (1 / 16) ^ i

/-- Its center. -/
def center (i : Nat) : Vec3 (Exact K) :=
  ⟨fin (scale K i), fin (scale K i), fin 0⟩

variable {K}

/-- Triangles with such centers, no two of which coincide. -/
structure Shrinks (ps : List (Primitive (Exact K))) : Prop where
  /-- Their centers. -/
  center : ∀ p ∈ ps, ∃ i, p.centroid = center K i
  /-- No two centers coincide. -/
  apart : ps.Pairwise fun p q => p.centroid ≠ q.centroid

namespace Shrinks

variable {ps l r : List (Primitive (Exact K))}

theorem of_perm (h : Shrinks ps) (hperm : (l ++ r).Perm ps) : Shrinks l ∧ Shrinks r := by
  have hpair : (l ++ r).Pairwise fun p q => p.centroid ≠ q.centroid :=
    (hperm.pairwise_iff fun hne => hne.symm).2 h.apart
  rw [List.pairwise_append] at hpair
  exact ⟨⟨fun p hp => h.center p (hperm.subset (List.mem_append_left r hp)), hpair.1⟩,
    ⟨fun p hp => h.center p (hperm.subset (List.mem_append_right l hp)), hpair.2.1⟩⟩

theorem isFinite (h : Shrinks ps) : ∀ p ∈ ps, p.centroid.IsFinite := by
  intro p hp
  obtain ⟨i, hi⟩ := h.center p hp
  rw [hi]
  exact Vec3.isFinite_fin _ _ _

/-- At most one triangle has a given center. -/
theorem length_le_one (h : Shrinks ps) (heq : ∀ p ∈ ps, ∀ q ∈ ps, p.centroid = q.centroid) :
    ps.length ≤ 1 := by
  rcases ps with _ | ⟨p, _ | ⟨q, ps⟩⟩
  · exact Nat.zero_le 1
  · exact le_rfl
  · have hne := (List.pairwise_cons.1 h.apart).1 q List.mem_cons_self
    exact absurd (heq p List.mem_cons_self q (.tail p List.mem_cons_self)) hne

end Shrinks

variable [LinearOrder K] [IsStrictOrderedRing K]

theorem scale_pos (i : Nat) : 0 < scale K i := by
  unfold scale
  positivity

theorem scale_le {i j : Nat} (h : j < i) : 16 * scale K i ≤ scale K j := by
  obtain ⟨k, rfl⟩ := Nat.exists_eq_add_of_lt h
  have hk : (1 / 16 : K) ^ k ≤ 1 := pow_le_one₀ (by norm_num) (by norm_num)
  calc 16 * scale K (j + k + 1) = scale K j * (1 / 16) ^ k := by
        unfold scale
        ring
    _ ≤ scale K j * 1 := mul_le_mul_of_nonneg_left hk (scale_pos j).le
    _ = scale K j := mul_one _

theorem scale_lt_iff {i j : Nat} : scale K i < scale K j ↔ j < i := by
  constructor
  · intro h
    by_contra hle
    rcases Nat.eq_or_lt_of_le (Nat.not_lt.1 hle) with rfl | hlt
    · exact lt_irrefl _ h
    · have := scale_le (K := K) hlt
      have := scale_pos (K := K) j
      linarith
  · intro h
    have := scale_le (K := K) h
    have := scale_pos (K := K) i
    linarith

theorem scale_injective : Function.Injective (scale K) := by
  intro i j h
  by_contra hne
  rcases Nat.lt_or_gt_of_ne hne with hlt | hlt
  · exact (scale_lt_iff.2 hlt).ne' h
  · exact (scale_lt_iff.2 hlt).ne h

theorem center_injective : Function.Injective (center K) := by
  intro i j h
  exact scale_injective (Exact.fin.inj (congrArg Vec3.x h))

end

/-! ### The triangles and the ray -/

section

variable (K : Type) [Field K] [LinearOrder K] [FloorSemiring K] [ExactFunctions K]

/-- The mesh of a triangle. -/
def mesh (i : Nat) : Mesh (Exact K) :=
  .single ⟨fin (-scale K i), fin (3 * scale K i), fin 0⟩
    ⟨fin (3 * scale K i), fin (3 * scale K i), fin 0⟩
    ⟨fin (3 * scale K i), fin (-scale K i), fin 0⟩

/-- The meshes of a number of triangles. -/
def meshes (n : Nat) : Array (Mesh (Exact K)) :=
  (Array.range n).map (mesh K)

/-- A ray that passes the origin. -/
def ray : Ray (Exact K) :=
  ⟨⟨fin (-1), fin (-1), fin (-1)⟩, ⟨fin 1, fin 1, fin 1⟩⟩

end

variable {K : Type} [Field K] [LinearOrder K] [FloorSemiring K] [ExactFunctions K] {n : Nat}

theorem meshes_isFinite (n : Nat) : ∀ m ∈ meshes K n, m.IsFinite := by
  intro m hm
  obtain ⟨i, -, rfl⟩ := Array.mem_map.1 hm
  exact Mesh.single_isFinite (Vec3.isFinite_fin _ _ _) (Vec3.isFinite_fin _ _ _)
    (Vec3.isFinite_fin _ _ _)

omit [ExactFunctions K] in
theorem ray_isRegular : (ray K).IsRegular where
  org := Vec3.isFinite_fin _ _ _
  dir := by rintro (_ | _ | _) <;> exact ⟨1, rfl, one_ne_zero⟩

theorem getElem?_meshes {i : Nat} {m : Mesh (Exact K)} :
    (meshes K n)[i]? = some m ↔ i < n ∧ m = mesh K i := by
  rw [meshes, Array.getElem?_map, Array.getElem?_range]
  split <;> simp_all [eq_comm]

theorem length_primitives_meshes : (primitives (meshes K n)).length = n := by
  rw [length_primitives, meshes, Array.toList_map, List.map_map]
  have hone : Mesh.triangleCount ∘ mesh K = fun _ => 1 := rfl
  rw [hone]
  simp

variable [IsStrictOrderedRing K]

theorem triangleBox_mesh (i : Nat) :
    triangleBox (mesh K i) ⟨0, 1, 2⟩ =
      ⟨⟨fin (-scale K i), fin (-scale K i), fin 0⟩,
        ⟨fin (3 * scale K i), fin (3 * scale K i), fin 0⟩⟩ := by
  have hpos := scale_pos (K := K) i
  have hle : -scale K i ≤ 3 * scale K i := by linarith
  rw [mesh, triangleBox_single, Box.empty_addPoint (Vec3.isFinite_fin _ _ _)]
  simp only [Box.addPoint, Box.ofPoint, Vec3.min, Vec3.max, Vec3.zipWith, least_fin, greatest_fin,
    min_self, max_self, min_eq_left hle, min_eq_right hle, max_eq_right hle, max_eq_left hle]

theorem centroid_mesh (i : Nat) : (triangleBox (mesh K i) ⟨0, 1, 2⟩).centroid = center K i := by
  have hhalf : (0.5 : Exact K) = fin (1 / 2) := by
    show fin (0.5 : K) = fin (1 / 2)
    norm_num
  have hsum : (-scale K i + 3 * scale K i) * (1 / 2) = scale K i := by ring
  rw [triangleBox_mesh, Box.centroid, hhalf]
  show (⟨fin ((-scale K i + 3 * scale K i) * (1 / 2)), fin ((-scale K i + 3 * scale K i) * (1 / 2)),
    fin ((0 + 0) * (1 / 2))⟩ : Vec3 (Exact K)) = _
  rw [hsum, add_zero, zero_mul, center]

/-- The triangles, each with its center. -/
theorem exists_of_mem_primitives {p : Primitive (Exact K)} (hp : p ∈ primitives (meshes K n)) :
    ∃ i, p.ref = ⟨i, 0⟩ ∧ p.centroid = center K i := by
  obtain ⟨m, t, hm, ht, hbox, hcentroid⟩ := mem_primitives_iff.1 hp
  obtain ⟨-, rfl⟩ := getElem?_meshes.1 hm
  obtain ⟨htriangle, rfl⟩ := Mesh.getElem?_triangles_single.1 ht
  refine ⟨p.ref.mesh, ?_, ?_⟩
  · rw [← htriangle]
  · rw [hcentroid, hbox, centroid_mesh]

/-! ### The tree -/

theorem shrinks_primitives (n : Nat) : Shrinks (primitives (meshes K n)) where
  center p hp := (exists_of_mem_primitives hp).imp fun _ h => h.2
  apart := by
    refine (List.pairwise_map.1 nodup_primitives).imp_of_mem fun {p q} hp hq hne heq => hne ?_
    obtain ⟨i, hi, hic⟩ := exists_of_mem_primitives hp
    obtain ⟨j, hj, hjc⟩ := exists_of_mem_primitives hq
    rw [hi, hj, center_injective (hic.symm.trans (heq.trans hjc))]

variable {ps l r : List (Primitive (Exact K))}

/-- All but the largest triangle are in the first bucket. -/
theorem Shrinks.eq_of_bucketOf_pos (h : Shrinks ps) {axis : Axis}
    (hspread : ¬ ((centroidBox ps).upper.get axis == (centroidBox ps).lower.get axis) = true)
    {p q : Primitive (Exact K)} (hp : p ∈ ps) (hq : q ∈ ps)
    (hpb : 0 < bucketOf (centroidBox ps) axis p) (hqb : 0 < bucketOf (centroidBox ps) axis q) :
    p.centroid = q.centroid := by
  obtain ⟨lo, hi, hlo, hhi, ⟨u, hu, hulo⟩, ⟨v, hv, hvhi⟩, hbetween⟩ :=
    exists_bounds (List.ne_nil_of_mem hp) h.isFinite axis
  -- the centers lie in a plane, so the axis is one of the other two
  have hget {p : Primitive (Exact K)} (hp : p ∈ ps) :
      ∃ i, p.centroid = Chain.center K i ∧ p.centroid.get axis = fin (scale K i) := by
    obtain ⟨i, hi⟩ := h.center p hp
    refine ⟨i, hi, ?_⟩
    cases axis with
    | x => rw [hi]; rfl
    | y => rw [hi]; rfl
    | z =>
      obtain ⟨j, hj⟩ := h.center u hu
      obtain ⟨k, hk⟩ := h.center v hv
      rw [hj] at hulo
      rw [hk] at hvhi
      rw [hhi, hlo, ← hvhi, ← hulo] at hspread
      exact absurd (decide_eq_true rfl) hspread
  obtain ⟨k, hk, hkv⟩ := hget hv
  obtain ⟨j, -, hju⟩ := hget hu
  obtain rfl : scale K k = hi := Exact.fin.inj (hkv.symm.trans hvhi)
  obtain rfl : scale K j = lo := Exact.fin.inj (hju.symm.trans hulo)
  have hpos := scale_pos (K := K) j
  have largest {p : Primitive (Exact K)} (hp : p ∈ ps)
      (hpb : 0 < bucketOf (centroidBox ps) axis p) : p.centroid = Chain.center K k := by
    obtain ⟨i, hi, hix⟩ := hget hp
    obtain ⟨x, hx, hjx, hxk⟩ := hbetween p hp
    obtain rfl : scale K i = x := Exact.fin.inj (hix.symm.trans hx)
    rcases hxk.eq_or_lt with heq | hlt
    · rw [hi, scale_injective heq]
    · have hsmall := scale_le (K := K) (scale_lt_iff.1 hlt)
      have hdiff : 0 < scale K k - scale K j := by linarith
      have hfloor : ⌊12 * ((scale K i - scale K j) / (scale K k - scale K j))⌋₊ = 0 := by
        rw [Nat.floor_eq_zero, ← mul_div_assoc, div_lt_one hdiff]
        linarith
      rw [bucketOf_eq hlo hhi (by linarith) hx, hfloor] at hpb
      exact absurd hpb (by simp)
  rw [largest hp hpb, largest hq hqb]

/-- **The tree is a chain**: it can be left to the left as often as it can be high. -/
theorem le_leftDepth {a : Arrangement} (ha : a.Lawful) {m : Nat} (hm : m ≤ 4) (h : Shrinks ps)
    {t : Tree (Exact K)} (ht : Tree.build a m ps = .ok t) :
    (2 ≤ ps.length → 1 ≤ t.leftDepth) ∧ (4 ≤ ps.length → ps.length ≤ t.leftDepth + 2) := by
  induction hn : ps.length using Nat.strong_induction_on generalizing ps t with
  | _ n ih =>
    subst hn
    by_cases hone : ps.length ≤ 1
    · omega
    have hne : ps ≠ [] := List.ne_nil_of_length_pos (by omega)
    cases hsplit : split a m ps with
    | leaf =>
      rcases split_eq_leaf hsplit with hlen | hflat | ⟨hlen, hle⟩
      · omega
      · exact absurd (h.length_le_one (centroid_eq_of_maxDim hne h.isFinite hflat)) hone
      · omega
    | halves axis l r =>
      have hhalves := split_eq_halves ha hne h.isFinite hsplit
      obtain ⟨hl, hr⟩ := h.of_perm hhalves.perm
      obtain ⟨hlt, hlt'⟩ := hhalves.length_lt
      have hadd := hhalves.length_add
      obtain ⟨-, tl, tr, hbl, -, rfl⟩ := Tree.parts_of_build ht hsplit
      obtain ⟨htwo, hfour⟩ := ih l.length hlt hl hbl rfl
      rw [Tree.leftDepth]
      refine ⟨fun _ => Nat.succ_pos _, fun hlen => ?_⟩
      rcases Nat.lt_or_ge 4 ps.length with hmany | hfew
      · obtain ⟨-, best, -, -, hright⟩ := split_many ha hmany hsplit
        have hspread := (spread_of_split hsplit).2
        have hmem {p : Primitive (Exact K)} (hp : p ∈ r) : p ∈ ps :=
          hhalves.perm.subset (List.mem_append_right l hp)
        have hpos {p : Primitive (Exact K)} (hp : p ∈ r) :
            0 < bucketOf (centroidBox ps) (centroidBox ps).maxDim p :=
          (Nat.zero_le best).trans_lt (hright p hp)
        have hlast : r.length ≤ 1 := hr.length_le_one fun p hp q hq =>
          h.eq_of_bucketOf_pos hspread (hmem hp) (hmem hq) (hpos hp) (hpos hq)
        omega
      · have := hhalves.middle hfew
        omega

/-! ### The ray -/

omit [IsStrictOrderedRing K] in
/-- Two corners of every triangle, one to each side of the origin. -/
theorem isCorner_of_isTriangle {p : PrimRef} (hp : IsTriangle (meshes K n) p) :
    IsCorner (meshes K n) p ⟨fin (-scale K p.mesh), fin (3 * scale K p.mesh), fin 0⟩ ∧
      IsCorner (meshes K n) p ⟨fin (3 * scale K p.mesh), fin (-scale K p.mesh), fin 0⟩ := by
  obtain ⟨m, hm, hlt⟩ := hp
  obtain ⟨-, rfl⟩ := getElem?_meshes.1 hm
  have ht : (mesh K p.mesh).triangles[p.triangle]? = some ⟨0, 1, 2⟩ :=
    Mesh.getElem?_triangles_single.2 ⟨Nat.lt_one_iff.1 hlt, rfl⟩
  exact ⟨⟨_, _, hm, ht, 0, by simp [Triangle.toList], rfl⟩,
    ⟨_, _, hm, ht, 2, by simp [Triangle.toList], rfl⟩⟩

omit [IsStrictOrderedRing K] in
theorem pointAt_ray (i : Axis) : ((ray K).pointAt (fin 1)).get i = fin 0 := by
  have hzero : (fin (-1) + fin 1 * fin 1 : Exact K) = fin 0 := by simp
  cases i <;> exact hzero

/-- The box of every node holds the origin, so the ray passes it. -/
theorem hits_of_within {m : Nat} {t : Tree (Exact K)} (ht : t.Within (meshes K n) m)
    {tFar : Exact K} (htFar : fin 1 < tFar) :
    t.box.hits (ray K) tFar (Probe.ofRay (ray K)).invDir
      (Probe.ofRay (ray K)).backwards = true := by
  have hfits := ht.box_fits (meshes_isFinite n)
  refine Box.hits_of_contains hfits.lower_finite hfits.upper_finite ray_isRegular.org
    ray_isRegular.dir one_pos htFar fun i => ?_
  obtain ⟨p, hp⟩ := ht.exists_prim
  obtain ⟨hc, hc'⟩ := isCorner_of_isTriangle (ht.isTriangle p hp)
  have hpos := scale_pos (K := K) p.mesh
  have hin := hfits.contains _ ⟨p, hp, hc⟩ i
  have hin' := hfits.contains _ ⟨p, hp, hc'⟩ i
  obtain ⟨lo, hlo⟩ := hfits.lower_finite i
  obtain ⟨hi, hhi⟩ := hfits.upper_finite i
  rw [pointAt_ray]
  rw [hlo, hhi] at hin hin' ⊢
  rw [fin_le_fin, fin_le_fin]
  cases i with
  | x =>
    have h1 : lo ≤ -scale K p.mesh := hin.1
    have h2 : 3 * scale K p.mesh ≤ hi := hin'.2
    constructor <;> linarith
  | y =>
    have h1 : lo ≤ -scale K p.mesh := hin'.1
    have h2 : 3 * scale K p.mesh ≤ hi := hin.2
    constructor <;> linarith
  | z => exact hin

omit [IsStrictOrderedRing K] in
/-- The ray runs forwards along all axes. -/
theorem backwards_ray (axis : Axis) : (Probe.ofRay (ray K)).backwards.get axis = false := by
  have hforward : Signed.isNegative (1 / fin 1 : Exact K) = false := by
    rw [one_eq, fin_div_fin one_ne_zero, isNegative_fin]
    simp
  cases axis <;> exact hforward

/-- With less room than there are nodes to the left, a walk fails before it looks at a triangle. -/
theorem walk_full {σ : Type} {visit : Visitor (Exact K) σ} {m : Nat} {t : Tree (Exact K)}
    (ht : t.Within (meshes K n) m) {tFar : Exact K} (htFar : fin 1 < tFar) {c : Nat}
    (hc : c < t.leftDepth) (result : σ) :
    t.walk (Probe.ofRay (ray K)) visit (some c) tFar result = violate .capacity := by
  induction t generalizing c with
  | leaf => exact absurd hc (Nat.not_lt_zero c)
  | node box axis l r ihl _ =>
    have hhits : box.hits (Probe.ofRay (ray K)).ray tFar (Probe.ofRay (ray K)).invDir
        (Probe.ofRay (ray K)).backwards = true := hits_of_within ht htFar
    rw [Tree.walk, if_pos hhits, backwards_ray]
    split
    · rfl
    · rename_i hroom
      have hpos : c ≠ 0 := fun h => hroom (congrArg some h)
      rw [Tree.leftDepth] at hc
      rw [if_neg (by simp), Option.map_some, ihl ht.parts.1 (by rw [Nat.pred_eq_sub_one]; omega)]
      rfl

/-- **The ray fills the stack**: asked with it, a hierarchy of the triangles fails on every stack
that holds fewer parts than a tree can be high. -/
theorem traverse_full {a : Arrangement} (ha : a.Lawful) (maxPerLeaf : Nat) (hm : maxPerLeaf ≤ 4)
    (hn : 4 ≤ n) :
    ∃ h, Hierarchy.build a (meshes K n) maxPerLeaf = .ok h ∧
      ∀ {σ : Type} (visit : Visitor (Exact K) σ) (result : σ) (tFar : Exact K) (c : Nat),
        fin 1 < tFar → c + 2 < n →
        h.traverse (some c) (ray K) tFar result visit = violate .capacity := by
  have hlen : (primitives (meshes K n)).length = n := length_primitives_meshes
  have hshrinks := shrinks_primitives (K := K) n
  have hne : primitives (meshes K n) ≠ [] := List.ne_nil_of_length_pos (by omega)
  obtain ⟨t, hbuild, harises⟩ := Tree.exists_build (m := max maxPerLeaf 1) ha hne hshrinks.isFinite
  have hdepth := (le_leftDepth ha (max_le hm (by norm_num)) hshrinks hbuild).2 (by omega)
  refine ⟨t.layout, ?_, fun visit result tFar c htFar hc => ?_⟩
  · rw [Hierarchy.build_eq a hne, hbuild, Outcome.bind_ok]
    rfl
  · rw [t.traverse_layout, walk_full ⟨_, fun _ hp => hp, harises⟩ htFar (by omega)]
    rfl

end Chain

end RadianceTransfer.Bvh
