import RadianceTransfer.Bvh.Layout
import RadianceTransfer.Proofs.Geometry.Box

/-!
# What dividing triangles gives

Over exact numbers a division of triangles with finite centers loses none and leaves neither part
empty. It is refused only for a single triangle, for centers that coincide, and for more than four
triangles that fit a leaf.

The centers span a finite box, and they coincide if it is flat along the axis of its largest extent.
If it is not, one of them is in the first of the buckets along that axis and one is in the last; the
boundary is never behind the last bucket, so it separates the two.

## Main definitions

* `Halves`: the two parts of a division.

## Main statements

* `split_eq_leaf`, `centroid_eq_of_maxDim`: when a division is refused.
* `split_few`, `split_many`: what a division gives.
* `halves_of_few`, `halves_of_many`, `split_eq_halves`: neither part is empty.
-/

namespace RadianceTransfer.Bvh

/-! ### The two parts -/

/-- The two parts of a division. -/
structure Halves {α : Type} (ps l r : List (Primitive α)) : Prop where
  /-- No triangle is lost. -/
  perm : (l ++ r).Perm ps
  /-- There is something on one side. -/
  left : l ≠ []
  /-- There is something on the other side. -/
  right : r ≠ []
  /-- Few triangles are divided in the middle. -/
  middle : ps.length ≤ 4 → l.length = ps.length / 2

theorem Halves.length_add {α : Type} {ps l r : List (Primitive α)} (h : Halves ps l r) :
    l.length + r.length = ps.length := by
  rw [← h.perm.length_eq, List.length_append]

theorem Halves.length_lt {α : Type} {ps l r : List (Primitive α)} (h : Halves ps l r) :
    l.length < ps.length ∧ r.length < ps.length := by
  have hl := List.length_pos_of_ne_nil h.left
  have hr := List.length_pos_of_ne_nil h.right
  have := h.length_add
  omega

section

variable {α : Type} [Scalar α]

theorem get_offset (b : Box α) (v : Vec3 α) (i : Axis) :
    (b.offset v).get i = Box.relative (b.lower.get i) (b.upper.get i) (v.get i) := by
  cases i <;> rfl

/-! ### Costs -/

/-- The position of the least cost is one of the positions. -/
theorem leastCost_fst_lt {costs : List α} (hne : costs ≠ []) :
    (leastCost costs).1 < costs.length := by
  unfold leastCost
  refine List.foldlRecOn _ _ (motive := fun s : Nat × α => s.1 < costs.length)
    (List.length_pos_of_ne_nil hne) fun s hs c hc => ?_
  simp only
  split
  · simpa using List.snd_lt_of_mem_zipIdx hc
  · exact hs

theorem leastCost_splitCosts_lt (buckets : List (Bucket α)) (area : α) :
    (leastCost (splitCosts buckets area)).1 < bucketCount - 1 := by
  have hlen : (splitCosts buckets area).length = bucketCount - 1 := by simp [splitCosts]
  have hne : splitCosts buckets area ≠ [] := by
    intro h
    rw [h] at hlen
    cases hlen
  exact hlen ▸ leastCost_fst_lt hne

end

variable {K : Type} [Field K] [LinearOrder K] [FloorSemiring K] [ExactFunctions K]

open Exact

/-! ### Buckets -/

theorem relative_fin {lo hi x : K} (h : lo < hi) :
    Box.relative (fin lo : Exact K) (fin hi) (fin x) = fin ((x - lo) / (hi - lo)) := by
  unfold Box.relative
  rw [if_pos (fin_lt_fin.2 h), fin_sub_fin, fin_sub_fin, fin_div_fin (sub_ne_zero.2 h.ne')]

/-- The bucket of a triangle on a finite axis. -/
theorem bucketOf_eq {bounds : Box (Exact K)} {axis : Axis} {p : Primitive (Exact K)} {lo hi x : K}
    (hlo : bounds.lower.get axis = fin lo) (hhi : bounds.upper.get axis = fin hi) (h : lo < hi)
    (hx : p.centroid.get axis = fin x) :
    bucketOf bounds axis p = min ⌊12 * ((x - lo) / (hi - lo))⌋₊ 11 := by
  unfold bucketOf
  rw [get_offset, hlo, hhi, hx, relative_fin h, ofNat_eq, fin_mul_fin]
  show min (min ⌊((12 : Nat) : K) * ((x - lo) / (hi - lo))⌋₊ (2 ^ 64 - 1)) 11 = _
  rw [Nat.cast_ofNat, min_assoc]
  rfl

variable [IsStrictOrderedRing K]

/-- The outermost center to one side is in the first bucket. -/
theorem bucketOf_lower {bounds : Box (Exact K)} {axis : Axis} {p : Primitive (Exact K)} {lo hi : K}
    (hlo : bounds.lower.get axis = fin lo) (hhi : bounds.upper.get axis = fin hi) (h : lo < hi)
    (hp : p.centroid.get axis = fin lo) : bucketOf bounds axis p = 0 := by
  rw [bucketOf_eq hlo hhi h hp]
  simp

/-- The outermost center to the other side is in the last one. -/
theorem bucketOf_upper {bounds : Box (Exact K)} {axis : Axis} {p : Primitive (Exact K)} {lo hi : K}
    (hlo : bounds.lower.get axis = fin lo) (hhi : bounds.upper.get axis = fin hi) (h : lo < hi)
    (hp : p.centroid.get axis = fin hi) : bucketOf bounds axis p = 11 := by
  rw [bucketOf_eq hlo hhi h hp, div_self (sub_ne_zero.2 h.ne'), mul_one, Nat.floor_ofNat]
  rfl

/-! ### One division -/

omit [IsStrictOrderedRing K] in
/-- The axis of the largest extent of a finite box. -/
theorem extent_le_maxDim {b : Box (Exact K)} {lo hi : Vec3 K} (hlo : b.lower = lo.map fin)
    (hhi : b.upper = hi.map fin) (i : Axis) :
    hi.get i - lo.get i ≤ hi.get b.maxDim - lo.get b.maxDim := by
  have hd : b.diagonal = (hi - lo).map fin := by
    refine Vec3.ext_get fun j => ?_
    rw [Box.diagonal, hlo, hhi, Vec3.get_sub, Vec3.get_map, Vec3.get_map, fin_sub_fin, Vec3.get_map,
      Vec3.get_sub]
  rw [Box.maxDim, hd, ← Vec3.get_sub, ← Vec3.get_sub]
  exact (hi - lo).get_le_maxDim i

omit [IsStrictOrderedRing K] in
/-- The centers of some triangles lie between two of them along an axis. -/
theorem exists_bounds {ps : List (Primitive (Exact K))} (hne : ps ≠ [])
    (hfin : ∀ p ∈ ps, p.centroid.IsFinite) (axis : Axis) :
    ∃ lo hi : K, (centroidBox ps).lower.get axis = fin lo ∧
      (centroidBox ps).upper.get axis = fin hi ∧
      (∃ p ∈ ps, p.centroid.get axis = fin lo) ∧ (∃ p ∈ ps, p.centroid.get axis = fin hi) ∧
      ∀ p ∈ ps, ∃ x, p.centroid.get axis = fin x ∧ lo ≤ x ∧ x ≤ hi := by
  have hfits : (centroidBox ps).Fits fun v => ∃ p ∈ ps, v = p.centroid :=
    Box.Fits.foldl_addPoint_empty hne hfin
  obtain ⟨lo, hlo⟩ := hfits.lower_finite axis
  obtain ⟨hi, hhi⟩ := hfits.upper_finite axis
  obtain ⟨v, ⟨p, hp, rfl⟩, hplo⟩ := hfits.lower axis
  obtain ⟨w, ⟨q, hq, rfl⟩, hqhi⟩ := hfits.upper axis
  refine ⟨lo, hi, hlo, hhi, ⟨p, hp, hplo ▸ hlo⟩, ⟨q, hq, hqhi ▸ hhi⟩, fun r hr => ?_⟩
  obtain ⟨x, hx⟩ := hfin r hr axis
  have hc := hfits.contains r.centroid ⟨r, hr, rfl⟩ axis
  rw [hlo, hhi, hx, fin_le_fin, fin_le_fin] at hc
  exact ⟨x, hx, hc⟩

/-- If the centers do not spread along the axis of the largest extent, they coincide. -/
theorem centroid_eq_of_maxDim {ps : List (Primitive (Exact K))} (hne : ps ≠ [])
    (hfin : ∀ p ∈ ps, p.centroid.IsFinite)
    (h : ((centroidBox ps).upper.get (centroidBox ps).maxDim ==
      (centroidBox ps).lower.get (centroidBox ps).maxDim) = true) :
    ∀ p ∈ ps, ∀ q ∈ ps, p.centroid = q.centroid := by
  have hfits : (centroidBox ps).Fits fun v => ∃ p ∈ ps, v = p.centroid :=
    Box.Fits.foldl_addPoint_empty hne hfin
  obtain ⟨lo, hlo⟩ := hfits.lower_finite.exists_map
  obtain ⟨hi, hhi⟩ := hfits.upper_finite.exists_map
  have hflat (i : Axis) : hi.get i ≤ lo.get i := by
    have hmax := extent_le_maxDim hlo hhi i
    rw [hhi, hlo, Vec3.get_map, Vec3.get_map, fin_beq_fin, decide_eq_true_eq] at h
    rw [h, sub_self] at hmax
    exact sub_nonpos.1 hmax
  have hcenter (p) (hp : p ∈ ps) : p.centroid = lo.map fin := by
    refine Vec3.ext_get fun i => ?_
    obtain ⟨x, hx⟩ := hfin p hp i
    have hc := hfits.contains p.centroid ⟨p, hp, rfl⟩ i
    rw [hlo, hhi, Vec3.get_map, Vec3.get_map, hx, fin_le_fin, fin_le_fin] at hc
    rw [hx, Vec3.get_map, le_antisymm (hc.2.trans (hflat i)) hc.1]
  intro p hp q hq
  rw [hcenter p hp, hcenter q hq]

/-- The outermost of centers that spread along an axis are in the first and in the last bucket. -/
theorem exists_outermost {ps : List (Primitive (Exact K))} (hne : ps ≠ [])
    (hfin : ∀ p ∈ ps, p.centroid.IsFinite) {axis : Axis}
    (h : ¬ ((centroidBox ps).upper.get axis == (centroidBox ps).lower.get axis) = true) :
    (∃ p ∈ ps, bucketOf (centroidBox ps) axis p = 0) ∧
      ∃ q ∈ ps, bucketOf (centroidBox ps) axis q = 11 := by
  obtain ⟨lo, hi, hlo, hhi, ⟨p, hp, hplo⟩, ⟨q, hq, hqhi⟩, hbetween⟩ := exists_bounds hne hfin axis
  have hlohi : lo < hi := by
    obtain ⟨x, hx, hlox, hxhi⟩ := hbetween p hp
    refine lt_of_le_of_ne (hlox.trans hxhi) fun heq => h ?_
    rw [hhi, hlo, fin_beq_fin, heq, decide_eq_true rfl]
  exact ⟨⟨p, hp, bucketOf_lower hlo hhi hlohi hplo⟩, ⟨q, hq, bucketOf_upper hlo hhi hlohi hqhi⟩⟩

/-! ### The answers -/

section

variable {α : Type} [Scalar α] {a : Arrangement} {m : Nat} {ps l r : List (Primitive α)}
  {axis : Axis}

/-- Triangles stay together if there is one, if their centers do not spread, or if there are many
that fit a leaf. -/
theorem split_eq_leaf (h : split a m ps = .leaf) :
    ps.length = 1 ∨
      ((centroidBox ps).upper.get (centroidBox ps).maxDim ==
        (centroidBox ps).lower.get (centroidBox ps).maxDim) = true ∨
      4 < ps.length ∧ ps.length ≤ m := by
  unfold split at h
  simp only at h
  split at h
  case isTrue hstay => exact hstay.imp_right .inl
  split at h
  · cases h
  · rename_i hmany
    split at h
    · cases h
    · rename_i hfit
      exact .inr (.inr ⟨not_le.1 hmany, not_lt.1 (not_or.1 hfit).1⟩)

/-- Triangles that are divided spread. -/
theorem spread_of_split (h : split a m ps = .halves axis l r) :
    ps.length ≠ 1 ∧ ¬ ((centroidBox ps).upper.get (centroidBox ps).maxDim ==
      (centroidBox ps).lower.get (centroidBox ps).maxDim) = true := by
  unfold split at h
  simp only at h
  split at h
  · cases h
  · rename_i hspread
    exact not_or.1 hspread

/-- Few triangles are divided in the middle. -/
theorem split_few (ha : a.Lawful) (hfew : ps.length ≤ 4) (h : split a m ps = .halves axis l r) :
    (l ++ r).Perm ps ∧ l.length = ps.length / 2 := by
  unfold split at h
  simp only at h
  split at h
  · cases h
  injection h with _ hl hr
  subst hl hr
  generalize hsorted : a.select _ (ps.length / 2) ps = sorted
  have hperm : sorted.Perm ps := hsorted ▸ ha.select_perm _ _ _
  have hsize := hperm.length_eq
  refine ⟨by rwa [List.take_append_drop], ?_⟩
  rw [List.length_take]
  omega

/-- Many triangles are divided behind a bucket that is not the last one. -/
theorem exists_divide_of_split (hmany : 4 < ps.length) (h : split a m ps = .halves axis l r) :
    ∃ best < 11, a.divide (fun p =>
      decide (bucketOf (centroidBox ps) (centroidBox ps).maxDim p ≤ best)) ps = (l, r) := by
  unfold split at h
  simp only at h
  split at h
  · cases h
  rw [if_neg (not_le.2 hmany)] at h
  split at h
  case isFalse => cases h
  case isTrue =>
    injection h with _ hl hr
    subst hl hr
    exact ⟨_, leastCost_splitCosts_lt _ _, rfl⟩

theorem split_many (ha : a.Lawful) (hmany : 4 < ps.length) (h : split a m ps = .halves axis l r) :
    (l ++ r).Perm ps ∧ ∃ best < 11,
      (∀ p ∈ l, bucketOf (centroidBox ps) (centroidBox ps).maxDim p ≤ best) ∧
      ∀ p ∈ r, best < bucketOf (centroidBox ps) (centroidBox ps).maxDim p := by
  obtain ⟨best, hbest, hdivide⟩ := exists_divide_of_split hmany h
  obtain ⟨rfl, rfl⟩ := Prod.ext_iff.1 hdivide
  refine ⟨ha.divide_perm _ ps, best, hbest, fun p hp => ?_, fun p hp => ?_⟩
  · exact of_decide_eq_true (ha.divide_left _ ps p hp)
  · exact not_le.1 (of_decide_eq_false (ha.divide_right _ ps p hp))

/-- Of few triangles, there are some on both sides. -/
theorem halves_of_few (ha : a.Lawful) (hne : ps ≠ []) (hfew : ps.length ≤ 4)
    (h : split a m ps = .halves axis l r) : Halves ps l r := by
  have hlen := List.length_pos_of_ne_nil hne
  obtain ⟨hone, -⟩ := spread_of_split h
  obtain ⟨hperm, hl⟩ := split_few ha hfew h
  have hsize := hperm.length_eq
  rw [List.length_append] at hsize
  refine ⟨hperm, ?_, ?_, fun _ => hl⟩
  · exact List.ne_nil_of_length_pos (by omega)
  · exact List.ne_nil_of_length_pos (by omega)

/-- Of many triangles, there are some on both sides if there are some in the outermost buckets. -/
theorem halves_of_many (ha : a.Lawful) (hmany : 4 < ps.length)
    (hfirst : ∃ p ∈ ps, bucketOf (centroidBox ps) (centroidBox ps).maxDim p = 0)
    (hlast : ∃ q ∈ ps, bucketOf (centroidBox ps) (centroidBox ps).maxDim q = 11)
    (h : split a m ps = .halves axis l r) : Halves ps l r := by
  obtain ⟨hperm, best, hbest, hleft, hright⟩ := split_many ha hmany h
  obtain ⟨p, hp, hpfirst⟩ := hfirst
  obtain ⟨q, hq, hqlast⟩ := hlast
  refine ⟨hperm, ?_, ?_, fun hfew => absurd hmany (not_lt.2 hfew)⟩
  · rcases List.mem_append.1 (hperm.symm.subset hp) with hmem | hmem
    · exact List.ne_nil_of_mem hmem
    · exact absurd (hright p hmem) (by omega)
  · rcases List.mem_append.1 (hperm.symm.subset hq) with hmem | hmem
    · exact absurd (hleft q hmem) (by omega)
    · exact List.ne_nil_of_mem hmem

end

/-- A division loses nothing and leaves neither side empty: of many triangles, the outermost are in
the first and in the last bucket, and the boundary is between the two. -/
theorem split_eq_halves {a : Arrangement} (ha : a.Lawful) {m : Nat}
    {ps l r : List (Primitive (Exact K))} (hne : ps ≠ [])
    (hfin : ∀ p ∈ ps, p.centroid.IsFinite) {axis : Axis} (h : split a m ps = .halves axis l r) :
    Halves ps l r := by
  obtain ⟨-, hspread⟩ := spread_of_split h
  rcases Nat.lt_or_ge 4 ps.length with hmany | hfew
  · obtain ⟨hfirst, hlast⟩ := exists_outermost hne hfin hspread
    exact halves_of_many ha hmany hfirst hlast h
  · exact halves_of_few ha hne hfew h

end RadianceTransfer.Bvh
