import RadianceTransfer.Bvh.Traversal
import RadianceTransfer.Proofs.Geometry.Box
import RadianceTransfer.Proofs.SignedExact

/-!
# The slab test for rays along the axes

A ray that does not move along an axis passes the bounds of a box on this axis at infinity, or, if
it runs in one of the two faces, at no parameter: zero times infinity is no number. What is no
number takes part in comparisons that all fail. On the second and the third axis it is then left
out, which is right; but the parameters of the first axis are the ones that the test starts from,
and nothing replaces them there.

So the test is conservative for every ray that moves along the first axis or starts strictly
between the bounds on it. A ray that runs in one of the two faces across the first axis is lost, even
if it runs through the box.

## Main statements

* `Box.hits_iff_of_contains`: which of the rays that are in a box pass the test.
-/

namespace RadianceTransfer

namespace Box

open SignedExact

variable {K : Type} [Field K] [LinearOrder K] [FloorSemiring K] [ExactFunctions K]

/-- The comparisons do not see the sign of zero. -/
theorem passes_toExact (near far : Vec3 (SignedExact K)) (tFar : SignedExact K) :
    passes near far tFar = passes (near.map toExact) (far.map toExact) tFar.toExact := by
  unfold passes
  simp only [lt_iff, apply_ite toExact, Vec3.map]
  rfl

/-! ### One axis -/

/-- A ray that does not move on an axis passes the bounds, at the distances `a` and `b` from it, at
infinity or at no parameter. -/
theorem still_slab {a b s t : K} (ha : a ≤ 0) (hb : 0 ≤ b) (hs : 0 < s) :
    ¬ .fin t < Exact.infinityOf a ∧ ¬ Exact.infinityOf b * .fin s < .fin t ∧
      (Exact.infinityOf a ≠ .nan ∧ Exact.infinityOf b * .fin s ≠ .nan ↔ a < 0 ∧ 0 < b) := by
  have near : ¬ .fin t < Exact.infinityOf a ∧ (Exact.infinityOf a ≠ .nan ↔ a < 0) := by
    unfold Exact.infinityOf
    rw [if_neg (not_lt.2 ha)]
    split
    · rename_i h
      simp [h]
    · rename_i h
      simp [h]
  have far : ¬ Exact.infinityOf b * .fin s < .fin t ∧
      (Exact.infinityOf b * .fin s ≠ .nan ↔ 0 < b) := by
    unfold Exact.infinityOf
    split
    · rename_i h
      have hmul : (.posInf * .fin s : Exact K) = .posInf := if_pos hs
      simp [h, hmul]
    · rename_i h
      have hmul : (.nan * .fin s : Exact K) = .nan := rfl
      rw [if_neg (not_lt.2 hb), hmul]
      simp [h]
  exact ⟨near.1, far.1, and_congr near.2 far.2⟩

variable [IsStrictOrderedRing K]

/-- On one axis: if a ray is between two bounds at a positive parameter, then it passes the near one
not later and the far one not earlier, or at parameters that are no numbers. They are numbers if the
ray moves along the axis or starts strictly between the bounds. -/
theorem slab_of_mem {lo hi o d : SignedExact K} {l h p q t : K} (hl : lo.toExact = .fin l)
    (hh : hi.toExact = .fin h) (ho : o.toExact = .fin p) (hd : d.toExact = .fin q) (ht : 0 < t)
    (hlo : l ≤ p + q * t) (hhi : p + q * t ≤ h) :
    let near := ((nearFar (Signed.isNegative (1 / d)) lo hi).1 - o) * (1 / d)
    let far := ((nearFar (Signed.isNegative (1 / d)) lo hi).2 - o) * (1 / d) * slack
    ¬ .fin t < near.toExact ∧ ¬ far.toExact < .fin t ∧
      (near.toExact ≠ .nan ∧ far.toExact ≠ .nan ↔ q ≠ 0 ∨ l < p ∧ p < h) := by
  have hslack : (slack : SignedExact K).toExact =
      .fin (1 + 2 * ExactFunctions.roundingBound 3) := by
    rw [← slack_eq]
    simp only [slack, toExact_add, toExact_mul]
    rfl
  have hpos : 0 < 1 + 2 * (ExactFunctions.roundingBound 3 : K) := by
    have := ExactFunctions.roundingBound_nonneg (K := K) 3
    linarith
  intro near far
  by_cases hq : q = 0
  · subst hq
    rw [zero_mul, add_zero] at hlo hhi
    rcases eq_of_toExact_eq_zero hd with rfl | rfl
    · -- the positive zero: the near bound is the lower one
      have hnear : near.toExact = Exact.infinityOf (l - p) := by
        simp only [near, one_div_zero, toExact_mul, toExact_sub, ho]
        show (lo.toExact - _) * _ = _
        rw [hl, Exact.fin_sub_fin]
        rfl
      have hfar : far.toExact = Exact.infinityOf (h - p) *
          .fin (1 + 2 * ExactFunctions.roundingBound 3) := by
        simp only [far, one_div_zero, toExact_mul, toExact_sub, ho, hslack]
        show (hi.toExact - _) * _ * _ = _
        rw [hh, Exact.fin_sub_fin]
        rfl
      rw [hnear, hfar]
      simpa using still_slab (sub_nonpos.2 hlo) (sub_nonneg.2 hhi) hpos
    · -- the negative zero: the near bound is the upper one
      have hnear : near.toExact = Exact.infinityOf (-(h - p)) := by
        simp only [near, one_div_negZero, toExact_mul, toExact_sub, ho]
        show (hi.toExact - _) * _ = _
        rw [hh, Exact.fin_sub_fin]
        rfl
      have hfar : far.toExact = Exact.infinityOf (-(l - p)) *
          .fin (1 + 2 * ExactFunctions.roundingBound 3) := by
        simp only [far, one_div_negZero, toExact_mul, toExact_sub, ho, hslack]
        show (lo.toExact - _) * _ * _ = _
        rw [hl, Exact.fin_sub_fin]
        rfl
      rw [hnear, hfar]
      simpa [and_comm] using still_slab (neg_nonpos.2 (sub_nonneg.2 hhi))
        (neg_nonneg.2 (sub_nonpos.2 hlo)) hpos
  · obtain ⟨n, f, hn, hf, hle, hge⟩ := slab_encloses hq ht hlo hhi
    have hnearFar (b : Bool) : (nearFar b lo hi).1.toExact = (nearFar b (.fin l) (.fin h)).1 ∧
        (nearFar b lo hi).2.toExact = (nearFar b (.fin l) (.fin h)).2 := by
      cases b
      exacts [⟨hl, hh⟩, ⟨hh, hl⟩]
    have hnear : near.toExact = .fin n := by
      rw [← hn]
      simp only [near, eq_of_toExact_ne_zero hd hq, one_div_exact hq, toExact_mul, toExact_sub, ho,
        (hnearFar _).1]
      rfl
    have hfar : far.toExact = .fin f := by
      rw [← hf]
      simp only [far, eq_of_toExact_ne_zero hd hq, one_div_exact hq, toExact_mul, toExact_sub, ho,
        (hnearFar _).2, hslack, slack_eq]
      rfl
    rw [hnear, hfar]
    simp [hq, hle, hge]

/-! ### The test -/

/-- **The slab test is conservative but for the faces across the first axis**: a ray that is in a
box at a positive parameter before `tFar` passes the test exactly if it moves along the first axis
or starts strictly between the bounds on it. -/
theorem hits_iff_of_contains {b : Box (SignedExact K)} {ray : Ray (SignedExact K)}
    {tFar : SignedExact K} {t : K} (hlo : (b.lower.map toExact).IsFinite)
    (hhi : (b.upper.map toExact).IsFinite) (horg : (ray.org.map toExact).IsFinite)
    (hdir : (ray.dir.map toExact).IsFinite) (ht : 0 < t) (htFar : exact (.fin t) < tFar)
    (hin : b.Contains (ray.pointAt (exact (.fin t)))) :
    b.hits ray tFar (Bvh.Probe.ofRay ray).invDir (Bvh.Probe.ofRay ray).backwards = true ↔
      ray.dir.x.toExact ≠ .fin 0 ∨ b.lower.x < ray.org.x ∧ ray.org.x < b.upper.x := by
  have slab (i : Axis) :
      let near := b.nearParameters ray (ray.dir.divideInto 1) (ray.dir.divideInto 1).signs
      let far := b.farParameters ray (ray.dir.divideInto 1) (ray.dir.divideInto 1).signs
      ¬ .fin t < (near.map toExact).get i ∧ ¬ (far.map toExact).get i < .fin t ∧
        ((near.map toExact).get i ≠ .nan ∧ (far.map toExact).get i ≠ .nan ↔
          (ray.dir.get i).toExact ≠ .fin 0 ∨
            b.lower.get i < ray.org.get i ∧ ray.org.get i < b.upper.get i) := by
    obtain ⟨l, hl⟩ := hlo i
    obtain ⟨h, hh⟩ := hhi i
    obtain ⟨p, hp⟩ := horg i
    obtain ⟨q, hq⟩ := hdir i
    rw [Vec3.get_map] at hl hh hp hq
    have hc := hin i
    rw [Ray.pointAt, Vec3.get_add, Vec3.get_scale, le_iff, le_iff, toExact_add, toExact_mul, hl, hh,
      hp, hq] at hc
    have := slab_of_mem hl hh hp hq ht hc.1 hc.2
    simp only [Vec3.get_map, get_nearParameters, get_farParameters, Vec3.get_signs,
      Vec3.get_divideInto]
    rw [lt_iff, lt_iff, hl, hh, hp, hq]
    simpa using this
  rw [hits_eq_passes, passes_toExact]
  exact (passes_eq_true_iff ht htFar (fun i => (slab i).1) fun i => (slab i).2.1).trans
    (slab .x).2.2

/-- The box between zero and one on every axis. -/
def unitBox : Box (SignedExact ℚ) :=
  ⟨⟨exact (.fin 0), exact (.fin 0), exact (.fin 0)⟩, ⟨exact (.fin 1), exact (.fin 1), exact (.fin 1)⟩⟩

/-- A ray along the third axis that starts below the box. The other components of its direction are
the two zeros. -/
def upwards (x y : ℚ) : Ray (SignedExact ℚ) :=
  ⟨⟨exact (.fin x), exact (.fin y), exact (.fin (-1))⟩, ⟨exact (.fin 0), negZero, exact (.fin 1)⟩⟩

/-- A ray in a face across the second axis passes the test. -/
theorem hits_iff_of_contains_upwards :
    unitBox.Contains ((upwards (1 / 2) 1).pointAt (exact (.fin (3 / 2)))) ∧
      unitBox.hits (upwards (1 / 2) 1) (exact .posInf) (Bvh.Probe.ofRay (upwards (1 / 2) 1)).invDir
        (Bvh.Probe.ofRay (upwards (1 / 2) 1)).backwards = true := by
  have hin : unitBox.Contains ((upwards (1 / 2) 1).pointAt (exact (.fin (3 / 2)))) := by
    rintro (_ | _ | _) <;> decide +kernel
  have htFar : (exact (.fin (3 / 2)) : SignedExact ℚ) < exact .posInf := by decide +kernel
  refine ⟨hin, ?_⟩
  exact (hits_iff_of_contains (Vec3.isFinite_fin _ _ _) (Vec3.isFinite_fin _ _ _)
    (Vec3.isFinite_fin _ _ _) (Vec3.isFinite_fin _ _ _) (by norm_num) htFar hin).2
    (.inr (by decide +kernel))

/-- A ray in a face across the first axis is in the box and does not pass the test. -/
theorem upwards_misses_in_face :
    unitBox.Contains ((upwards 0 (1 / 2)).pointAt (exact (.fin (3 / 2)))) ∧
      (exact (.fin (3 / 2)) : SignedExact ℚ) < exact .posInf ∧
      unitBox.hits (upwards 0 (1 / 2)) (exact .posInf) (Bvh.Probe.ofRay (upwards 0 (1 / 2))).invDir
        (Bvh.Probe.ofRay (upwards 0 (1 / 2))).backwards = false := by
  refine ⟨?_, by decide +kernel, by decide +kernel⟩
  rintro (_ | _ | _) <;> decide +kernel

end Box

end RadianceTransfer
