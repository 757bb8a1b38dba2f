import RadianceTransfer.Proofs.Exact

/-!
# Boxes around points

Over exact numbers, adding points and boxes to a box gives the smallest box that holds them all. The
slab test is conservative: a ray that is inside a box at some parameter passes the test.

## Main definitions

* `Box.Contains`: a point in a box.
* `Box.IsHull`: the smallest box around some points.
* `Box.Fits`: a box around some points of which each side touches one.

## Main statements

* `Box.Fits.isHull`, `Box.Fits.union`: such a box is the smallest one, and what joining does.
* `Box.passes_eq_true_iff`, `Box.hits_of_contains`: the slab test.
-/

namespace RadianceTransfer

namespace Vec3

variable {α : Type}

/-- A vector of elements of the field. -/
def IsFinite {K : Type} (v : Vec3 (Exact K)) : Prop := ∀ i, (v.get i).IsFinite

theorem ext_get {v w : Vec3 α} (h : ∀ i, v.get i = w.get i) : v = w :=
  Vec3.ext (h .x) (h .y) (h .z)

theorem isFinite_fin {K : Type} (x y z : K) :
    (⟨.fin x, .fin y, .fin z⟩ : Vec3 (Exact K)).IsFinite := by
  rintro (_ | _ | _) <;> exact ⟨_, rfl⟩

theorem IsFinite.exists_map {K : Type} {v : Vec3 (Exact K)} (h : v.IsFinite) :
    ∃ w : Vec3 K, v = w.map .fin := by
  obtain ⟨x, hx⟩ := h .x
  obtain ⟨y, hy⟩ := h .y
  obtain ⟨z, hz⟩ := h .z
  exact ⟨⟨x, y, z⟩, Vec3.ext hx hy hz⟩

@[simp] theorem get_map {β : Type} (f : α → β) (v : Vec3 α) (i : Axis) :
    (v.map f).get i = f (v.get i) := by
  cases i <;> rfl

@[simp] theorem get_add [Add α] (v w : Vec3 α) (i : Axis) : (v + w).get i = v.get i + w.get i := by
  cases i <;> rfl

@[simp] theorem get_sub [Sub α] (v w : Vec3 α) (i : Axis) : (v - w).get i = v.get i - w.get i := by
  cases i <;> rfl

@[simp] theorem get_scale [Mul α] (v : Vec3 α) (s : α) (i : Axis) :
    (v.scale s).get i = v.get i * s := by
  cases i <;> rfl

@[simp] theorem get_divideInto [Div α] (v : Vec3 α) (s : α) (i : Axis) :
    (v.divideInto s).get i = s / v.get i := by
  cases i <;> rfl

@[simp] theorem get_signs [Signed α] (v : Vec3 α) (i : Axis) :
    v.signs.get i = Signed.isNegative (v.get i) := by
  cases i <;> rfl

@[simp] theorem get_min [LT α] [DecidableLT α] (v w : Vec3 α) (i : Axis) :
    (v.min w).get i = Scalar.least (v.get i) (w.get i) := by
  cases i <;> rfl

@[simp] theorem get_max [LT α] [DecidableLT α] (v w : Vec3 α) (i : Axis) :
    (v.max w).get i = Scalar.greatest (v.get i) (w.get i) := by
  cases i <;> rfl

/-- No component is larger than the one on the axis of the largest. -/
theorem get_le_maxDim {K : Type} [Field K] [LinearOrder K] [FloorSemiring K] [ExactFunctions K]
    (d : Vec3 K) (i : Axis) : d.get i ≤ d.get (d.map .fin : Vec3 (Exact K)).maxDim := by
  simp only [maxDim, map, Exact.fin_lt_fin]
  split
  · rename_i h
    cases i
    exacts [le_rfl, h.1.le, h.2.le]
  · rename_i h
    split
    · rename_i hzy
      have hx : d.x ≤ d.y := not_lt.1 fun hyx => h ⟨hyx, hzy.trans hyx⟩
      cases i
      exacts [hx, le_rfl, hzy.le]
    · rename_i hzy
      have hx : d.x ≤ d.z := not_lt.1 fun hzx => h ⟨(not_lt.1 hzy).trans_lt hzx, hzx⟩
      cases i
      exacts [hx, not_lt.1 hzy, le_rfl]

end Vec3

namespace Box

section

variable {α : Type} [Scalar α]

/-- A point in a box. -/
def Contains (b : Box α) (v : Vec3 α) : Prop :=
  ∀ i, b.lower.get i ≤ v.get i ∧ v.get i ≤ b.upper.get i

/-- The smallest box that holds some points: it holds them, and every box that does holds it. -/
structure IsHull (b : Box α) (S : Vec3 α → Prop) : Prop where
  /-- It holds the points. -/
  contains : ∀ v, S v → b.Contains v
  /-- Any other box that holds them reaches at least as far to both sides. -/
  smallest : ∀ b' : Box α, (∀ v, S v → b'.Contains v) →
    ∀ i, b'.lower.get i ≤ b.lower.get i ∧ b.upper.get i ≤ b'.upper.get i

end

variable {K : Type} [Field K] [LinearOrder K] [FloorSemiring K] [ExactFunctions K]

open Exact

/-- A box around points of the field, of which every side touches one. -/
structure Fits (b : Box (Exact K)) (S : Vec3 (Exact K) → Prop) : Prop where
  /-- The points are finite. -/
  finite : ∀ v, S v → v.IsFinite
  /-- The box holds them. -/
  contains : ∀ v, S v → b.Contains v
  /-- Every lower side touches one. -/
  lower : ∀ i, ∃ v, S v ∧ b.lower.get i = v.get i
  /-- Every upper side touches one. -/
  upper : ∀ i, ∃ v, S v ∧ b.upper.get i = v.get i

namespace Fits

variable {b b' : Box (Exact K)} {S S' : Vec3 (Exact K) → Prop}

theorem isHull (h : b.Fits S) : b.IsHull S where
  contains := h.contains
  smallest b' hb i := by
    obtain ⟨v, hv, hlo⟩ := h.lower i
    obtain ⟨w, hw, hhi⟩ := h.upper i
    rw [hlo, hhi]
    exact ⟨(hb v hv i).1, (hb w hw i).2⟩

theorem lower_finite (h : b.Fits S) : b.lower.IsFinite := by
  intro i
  obtain ⟨v, hv, hlo⟩ := h.lower i
  rw [hlo]
  exact h.finite v hv i

theorem upper_finite (h : b.Fits S) : b.upper.IsFinite := by
  intro i
  obtain ⟨v, hv, hhi⟩ := h.upper i
  rw [hhi]
  exact h.finite v hv i

theorem congr (h : b.Fits S) (hS : ∀ v, S v ↔ S' v) : b.Fits S' := by
  obtain rfl : S = S' := funext fun v => propext (hS v)
  exact h

theorem ofPoint {p : Vec3 (Exact K)} (hp : p.IsFinite) : (Box.ofPoint p).Fits (· = p) where
  finite v hv := hv ▸ hp
  contains v hv i := by
    subst hv
    obtain ⟨x, hx⟩ := hp i
    simp only [Box.ofPoint, hx]
    exact ⟨le_refl x, le_refl x⟩
  lower i := ⟨p, rfl, rfl⟩
  upper i := ⟨p, rfl, rfl⟩

/-- Joining two boxes joins the points. -/
theorem union (h : b.Fits S) (h' : b'.Fits S') : (b.union b').Fits fun v => S v ∨ S' v where
  finite v hv := hv.elim (h.finite v) (h'.finite v)
  contains v hv i := by
    obtain ⟨lo, hlo⟩ := h.lower_finite i
    obtain ⟨lo', hlo'⟩ := h'.lower_finite i
    obtain ⟨hi, hhi⟩ := h.upper_finite i
    obtain ⟨hi', hhi'⟩ := h'.upper_finite i
    simp only [Box.union, Vec3.get_min, Vec3.get_max, hlo, hlo', hhi, hhi', least_fin, greatest_fin]
    rcases hv with hv | hv
    · obtain ⟨x, hx⟩ := h.finite v hv i
      have hc := h.contains v hv i
      rw [hlo, hhi, hx, fin_le_fin, fin_le_fin] at hc
      rw [hx, fin_le_fin, fin_le_fin]
      exact ⟨(min_le_left _ _).trans hc.1, hc.2.trans (le_max_left _ _)⟩
    · obtain ⟨x, hx⟩ := h'.finite v hv i
      have hc := h'.contains v hv i
      rw [hlo', hhi', hx, fin_le_fin, fin_le_fin] at hc
      rw [hx, fin_le_fin, fin_le_fin]
      exact ⟨(min_le_right _ _).trans hc.1, hc.2.trans (le_max_right _ _)⟩
  lower i := by
    obtain ⟨v, hv, hlo⟩ := h.lower i
    obtain ⟨v', hv', hlo'⟩ := h'.lower i
    simp only [Box.union, Vec3.get_min, hlo, hlo', Scalar.least]
    split
    · exact ⟨v, .inl hv, rfl⟩
    · exact ⟨v', .inr hv', rfl⟩
  upper i := by
    obtain ⟨v, hv, hhi⟩ := h.upper i
    obtain ⟨v', hv', hhi'⟩ := h'.upper i
    simp only [Box.union, Vec3.get_max, hhi, hhi', Scalar.greatest]
    split
    · exact ⟨v, .inl hv, rfl⟩
    · exact ⟨v', .inr hv', rfl⟩

end Fits

/-- Joining a finite box to the empty one leaves it as it is. -/
theorem empty_union {b : Box (Exact K)} (hlo : b.lower.IsFinite) (hhi : b.upper.IsFinite) :
    Box.empty.union b = b := by
  have lower : (Box.empty.union b).lower = b.lower := by
    refine Vec3.ext_get fun i => ?_
    obtain ⟨x, hx⟩ := hlo i
    simp only [Box.union, Vec3.get_min, hx, Scalar.least]
    exact if_neg (by cases i <;> exact not_posInf_lt)
  have upper : (Box.empty.union b).upper = b.upper := by
    refine Vec3.ext_get fun i => ?_
    obtain ⟨x, hx⟩ := hhi i
    simp only [Box.union, Vec3.get_max, hx, Scalar.greatest]
    exact if_neg (by cases i <;> exact not_lt_negInf)
  calc Box.empty.union b = ⟨(Box.empty.union b).lower, (Box.empty.union b).upper⟩ := rfl
    _ = b := by rw [lower, upper]

theorem empty_addPoint {v : Vec3 (Exact K)} (hv : v.IsFinite) :
    Box.empty.addPoint v = Box.ofPoint v :=
  empty_union (b := Box.ofPoint v) hv hv

/-- Joining boxes to one after the other. -/
theorem Fits.foldl_union {β : Type} {box : β → Box (Exact K)} {S : β → Vec3 (Exact K) → Prop}
    {b : Box (Exact K)} {T : Vec3 (Exact K) → Prop} {xs : List β} (hb : b.Fits T)
    (hx : ∀ x ∈ xs, (box x).Fits (S x)) :
    (xs.foldl (fun b x => b.union (box x)) b).Fits fun v => T v ∨ ∃ x ∈ xs, S x v := by
  induction xs generalizing b T with
  | nil => exact hb.congr fun v => by simp
  | cons x xs ih =>
    refine (ih (hb.union (hx x List.mem_cons_self)) fun y hy => hx y (.tail x hy)).congr fun v => ?_
    simp only [List.mem_cons, exists_eq_or_imp, or_assoc]

/-- Joining at least one box, starting from the empty one. -/
theorem Fits.foldl_union_empty {β : Type} {box : β → Box (Exact K)} {S : β → Vec3 (Exact K) → Prop}
    {xs : List β} (hne : xs ≠ []) (hx : ∀ x ∈ xs, (box x).Fits (S x)) :
    (xs.foldl (fun b x => b.union (box x)) Box.empty).Fits fun v => ∃ x ∈ xs, S x v := by
  cases xs with
  | nil => exact absurd rfl hne
  | cons x xs =>
    have hfirst := hx x List.mem_cons_self
    rw [List.foldl_cons, empty_union hfirst.lower_finite hfirst.upper_finite]
    refine (hfirst.foldl_union fun y hy => hx y (.tail x hy)).congr fun v => ?_
    simp only [List.mem_cons, exists_eq_or_imp]

/-- Adding at least one point, starting from the empty box. -/
theorem Fits.foldl_addPoint_empty {β : Type} {point : β → Vec3 (Exact K)} {xs : List β}
    (hne : xs ≠ []) (hx : ∀ x ∈ xs, (point x).IsFinite) :
    (xs.foldl (fun b x => b.addPoint (point x)) Box.empty).Fits fun v => ∃ x ∈ xs, v = point x :=
  Fits.foldl_union_empty hne fun x h => Fits.ofPoint (hx x h)

/-! ### The slab test -/

section

variable {α : Type} [Scalar α]

/-- The parameters at which a ray passes the near bounds of a box. -/
def nearParameters (b : Box α) (ray : Ray α) (invDir : Vec3 α) (backwards : Vec3 Bool) : Vec3 α :=
  ⟨((nearFar backwards.x b.lower.x b.upper.x).1 - ray.org.x) * invDir.x,
    ((nearFar backwards.y b.lower.y b.upper.y).1 - ray.org.y) * invDir.y,
    ((nearFar backwards.z b.lower.z b.upper.z).1 - ray.org.z) * invDir.z⟩

/-- The parameters at which a ray passes the far bounds of a box, moved away. -/
def farParameters (b : Box α) (ray : Ray α) (invDir : Vec3 α) (backwards : Vec3 Bool) : Vec3 α :=
  ⟨((nearFar backwards.x b.lower.x b.upper.x).2 - ray.org.x) * invDir.x * slack,
    ((nearFar backwards.y b.lower.y b.upper.y).2 - ray.org.y) * invDir.y * slack,
    ((nearFar backwards.z b.lower.z b.upper.z).2 - ray.org.z) * invDir.z * slack⟩

/-- The comparisons of the slab test. -/
def passes (near far : Vec3 α) (tFar : α) : Bool :=
  if far.y < near.x ∨ far.x < near.y then false
  else
    let tMin := if near.x < near.y then near.y else near.x
    let tMax := if far.y < far.x then far.y else far.x
    if far.z < tMin ∨ tMax < near.z then false
    else
      let tMin := if tMin < near.z then near.z else tMin
      let tMax := if far.z < tMax then far.z else tMax
      decide (tMin < tFar ∧ 0 < tMax)

theorem get_nearParameters (b : Box α) (ray : Ray α) (invDir : Vec3 α) (backwards : Vec3 Bool)
    (i : Axis) : (b.nearParameters ray invDir backwards).get i =
      ((nearFar (backwards.get i) (b.lower.get i) (b.upper.get i)).1 - ray.org.get i) *
        invDir.get i := by
  cases i <;> rfl

theorem get_farParameters (b : Box α) (ray : Ray α) (invDir : Vec3 α) (backwards : Vec3 Bool)
    (i : Axis) : (b.farParameters ray invDir backwards).get i =
      ((nearFar (backwards.get i) (b.lower.get i) (b.upper.get i)).2 - ray.org.get i) *
        invDir.get i * slack := by
  cases i <;> rfl

theorem hits_eq_passes (b : Box α) (ray : Ray α) (tFar : α) (invDir : Vec3 α)
    (backwards : Vec3 Bool) :
    b.hits ray tFar invDir backwards =
      passes (b.nearParameters ray invDir backwards) (b.farParameters ray invDir backwards) tFar :=
  rfl

end

theorem slack_eq :
    (slack : Exact K) = fin (1 + 2 * ExactFunctions.roundingBound 3) := by
  simp [slack]

/-- Of two near parameters that are not past `t`, neither is the later one. It is no number exactly
if the first one is not. -/
theorem later_near {x y : Exact K} {t : K} (hx : ¬ fin t < x) (hy : ¬ fin t < y) :
    ¬ fin t < (if x < y then y else x) ∧ ((if x < y then y else x) = nan ↔ x = nan) := by
  split
  · rename_i h
    refine ⟨hy, fun hn => ?_, fun hn => ?_⟩
    · rw [hn] at h
      exact (not_lt_nan h).elim
    · rw [hn] at h
      exact (not_nan_lt h).elim
  · exact ⟨hx, Iff.rfl⟩

/-- Of two far parameters that are not before `t`, neither is the earlier one. It is no number
exactly if the first one is not. -/
theorem earlier_far {x y : Exact K} {t : K} (hx : ¬ x < fin t) (hy : ¬ y < fin t) :
    ¬ (if y < x then y else x) < fin t ∧ ((if y < x then y else x) = nan ↔ x = nan) := by
  split
  · rename_i h
    refine ⟨hy, fun hn => ?_, fun hn => ?_⟩
    · rw [hn] at h
      exact (not_nan_lt h).elim
    · rw [hn] at h
      exact (not_lt_nan h).elim
  · exact ⟨hx, Iff.rfl⟩

/-- **What the comparisons find out**: if no near parameter is past `t` and no far one before, the
test passes exactly if both parameters of the first axis are numbers. On the other axes it does not
matter. -/
theorem passes_eq_true_iff {near far : Vec3 (Exact K)} {tFar : Exact K} {t : K} (ht : 0 < t)
    (htFar : fin t < tFar) (hnear : ∀ i, ¬ fin t < near.get i) (hfar : ∀ i, ¬ far.get i < fin t) :
    passes near far tFar = true ↔ near.x ≠ nan ∧ far.x ≠ nan := by
  obtain ⟨hnearXY, hnan⟩ := later_near (hnear .x) (hnear .y)
  obtain ⟨hfarXY, hnan'⟩ := earlier_far (hfar .x) (hfar .y)
  obtain ⟨hnearXYZ, hnanZ⟩ := later_near hnearXY (hnear .z)
  obtain ⟨hfarXYZ, hnanZ'⟩ := earlier_far hfarXY (hfar .z)
  have hguard : ¬ (far.y < near.x ∨ far.x < near.y) :=
    not_or.2 ⟨not_lt_of_not_lt (hnear .x) (hfar .y), not_lt_of_not_lt (hnear .y) (hfar .x)⟩
  have hguard' : ¬ (far.z < (if near.x < near.y then near.y else near.x) ∨
      (if far.y < far.x then far.y else far.x) < near.z) :=
    not_or.2 ⟨not_lt_of_not_lt hnearXY (hfar .z), not_lt_of_not_lt (hnear .z) hfarXY⟩
  unfold passes
  rw [if_neg hguard]
  dsimp only
  rw [if_neg hguard', decide_eq_true_eq, ne_eq, ne_eq, ← show _ ↔ near.x = nan from
    hnanZ.trans hnan, ← show _ ↔ far.x = nan from hnanZ'.trans hnan']
  exact and_congr (lt_iff_ne_nan hnearXYZ htFar) (zero_lt_iff_ne_nan ht hfarXYZ)

variable [IsStrictOrderedRing K]

/-- On one axis: between the parameters at which a ray passes the near and the far bound lies every
positive one at which it is between the bounds. -/
theorem slab_encloses {lo hi o d t : K} (hd : d ≠ 0) (ht : 0 < t) (hlo : lo ≤ o + d * t)
    (hhi : o + d * t ≤ hi) :
    ∃ near far : K,
      ((nearFar (Signed.isNegative (1 / fin d : Exact K)) (fin lo) (fin hi)).1 - fin o) *
          (1 / fin d) = fin near ∧
      ((nearFar (Signed.isNegative (1 / fin d : Exact K)) (fin lo) (fin hi)).2 - fin o) *
          (1 / fin d) * slack = fin far ∧
      near ≤ t ∧ t ≤ far := by
  have hslack : 1 ≤ 1 + 2 * (ExactFunctions.roundingBound 3 : K) := by
    have := ExactFunctions.roundingBound_nonneg (K := K) 3
    linarith
  have hfar {far : K} (h : t ≤ far) : t ≤ far * (1 + 2 * ExactFunctions.roundingBound 3) :=
    h.trans (le_mul_of_one_le_right (ht.le.trans h) hslack)
  rw [one_eq, fin_div_fin hd, isNegative_fin, slack_eq]
  rcases lt_or_gt_of_ne hd with hneg | hpos
  · rw [decide_eq_true (one_div_neg.2 hneg)]
    refine ⟨_, _, rfl, rfl, ?_, hfar ?_⟩
    · rw [mul_one_div, div_le_iff_of_neg hneg]
      linarith
    · rw [mul_one_div, le_div_iff_of_neg hneg]
      linarith
  · rw [decide_eq_false (not_lt.2 (one_div_pos.2 hpos).le)]
    refine ⟨_, _, rfl, rfl, ?_, hfar ?_⟩
    · rw [mul_one_div, div_le_iff₀ hpos]
      linarith
    · rw [mul_one_div, le_div_iff₀ hpos]
      linarith

/-- **The slab test is conservative**: a ray that is in a box at a positive parameter before `tFar`
passes the test. -/
theorem hits_of_contains {b : Box (Exact K)} {ray : Ray (Exact K)} {tFar : Exact K} {t : K}
    (hlo : b.lower.IsFinite) (hhi : b.upper.IsFinite) (horg : ray.org.IsFinite)
    (hdir : ∀ i, ∃ d, ray.dir.get i = fin d ∧ d ≠ 0) (ht : 0 < t) (htFar : fin t < tFar)
    (hin : b.Contains (ray.pointAt (fin t))) :
    b.hits ray tFar (ray.dir.divideInto 1) (ray.dir.divideInto 1).signs = true := by
  have slab (i : Axis) : ∃ near far : K,
      (b.nearParameters ray (ray.dir.divideInto 1) (ray.dir.divideInto 1).signs).get i = fin near ∧
      (b.farParameters ray (ray.dir.divideInto 1) (ray.dir.divideInto 1).signs).get i = fin far ∧
      near ≤ t ∧ t ≤ far := by
    obtain ⟨lo, hlo⟩ := hlo i
    obtain ⟨hi, hhi⟩ := hhi i
    obtain ⟨o, ho⟩ := horg i
    obtain ⟨d, hd, hd0⟩ := hdir i
    have hc := hin i
    simp only [Ray.pointAt, Vec3.get_add, Vec3.get_scale, hlo, hhi, ho, hd, fin_mul_fin,
      fin_add_fin, fin_le_fin] at hc
    rw [get_nearParameters, get_farParameters, Vec3.get_signs, Vec3.get_divideInto, hlo, hhi, ho, hd]
    exact slab_encloses hd0 ht hc.1 hc.2
  rw [hits_eq_passes, passes_eq_true_iff ht htFar]
  · obtain ⟨near, far, hnear, hfar, -, -⟩ := slab .x
    exact ⟨ne_of_eq_of_ne hnear (by simp), ne_of_eq_of_ne hfar (by simp)⟩
  · intro i
    obtain ⟨near, far, hnear, -, hle, -⟩ := slab i
    rw [hnear, fin_lt_fin]
    exact not_lt.2 hle
  · intro i
    obtain ⟨near, far, -, hfar, -, hle⟩ := slab i
    rw [hfar, fin_lt_fin]
    exact not_lt.2 hle

end Box

end RadianceTransfer
