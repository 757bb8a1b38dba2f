import RadianceTransfer.Mesh.Hit
import RadianceTransfer.Proofs.Geometry.Box

/-!
# The test of a triangle over exact numbers

Seen from a ray that is not zero, the corners of a finite triangle have edge functions, and these
put a hit at a parameter. All questions are decided by them and by a bound on the rounding error
(`hit?_along`): a parameter that is not positive is refused, and otherwise there is a hit if the edge
functions are of one sign and the parameter exceeds the bound and is not past the one up to which
hits count.

Of a hit two things follow. Lowering the parameter up to which hits count only removes hits: what
remains is the same hit as without a bound (`hit?_eq_some_iff`). And the point of a hit is a blend of
the corners, at a positive parameter, so that it lies in every box that holds the corners
(`hit?_contains`). The second one rests on an identity of the edge functions: weighted with them the
corners, as seen from the ray, come together on the ray.
-/

namespace RadianceTransfer

namespace RayFrame

/-! ### Edge functions -/

section

variable {K : Type} [Field K]

/-- The edge functions of a triangle seen from a ray. -/
def edges {α : Type} [Sub α] [Mul α] (p0 p1 p2 : Vec3 α) : Vec3 α :=
  ⟨p1.x * p2.y - p1.y * p2.x, p2.x * p0.y - p2.y * p0.x, p0.x * p1.y - p0.y * p1.x⟩

/-- The sum of the edge functions. -/
def total (e : Vec3 K) : K := e.x + e.y + e.z

/-- Where the edge functions put a hit: the distances along the ray, weighted with them. -/
def parameter (e z : Vec3 K) : K := (e.x * z.x + e.y * z.y + e.z * z.z) * (1 / total e)

/-- The corners weighted with the edge functions come together on the ray. -/
theorem edges_weighted (p0 p1 p2 : Vec3 K) :
    (edges p0 p1 p2).x * p0.x + (edges p0 p1 p2).y * p1.x + (edges p0 p1 p2).z * p2.x = 0 ∧
      (edges p0 p1 p2).x * p0.y + (edges p0 p1 p2).y * p1.y + (edges p0 p1 p2).z * p2.y = 0 := by
  constructor <;>
  · simp only [edges]
    ring

/-- Across the ray: where weighted corners come together on it, the point of the parameter is their
blend. -/
theorem blend_across {e z : Vec3 K} {o d r c0 c1 c2 : K} (h0 : total e ≠ 0)
    (h : e.x * (-d * r * z.x + (c0 - o)) + e.y * (-d * r * z.y + (c1 - o)) +
      e.z * (-d * r * z.z + (c2 - o)) = 0) :
    o + d * parameter e (z.scale r) =
      e.x * (1 / total e) * c0 + e.y * (1 / total e) * c1 + e.z * (1 / total e) * c2 := by
  have hE : e.x + e.y + e.z = total e := rfl
  simp only [parameter, Vec3.scale]
  field_simp
  linear_combination -h - o * hE

/-- Along the ray the point of the parameter is the blend of the corners. -/
theorem blend_along {e : Vec3 K} {o d c0 c1 c2 : K} (h0 : total e ≠ 0) (hd : d ≠ 0) :
    o + d * parameter e ((⟨c0 - o, c1 - o, c2 - o⟩ : Vec3 K).scale (1 / d)) =
      e.x * (1 / total e) * c0 + e.y * (1 / total e) * c1 + e.z * (1 / total e) * c2 := by
  have hE : e.x + e.y + e.z = total e := rfl
  simp only [parameter, Vec3.scale]
  field_simp
  linear_combination -o * hE

theorem weight_sum {e : Vec3 K} (hzero : total e ≠ 0) :
    e.x * (1 / total e) + e.y * (1 / total e) + e.z * (1 / total e) = 1 := by
  rw [← add_mul, ← add_mul, mul_one_div]
  exact div_self hzero

variable [LinearOrder K]

/-- Edge functions of both signs: the ray passes outside. -/
def Mixed (e : Vec3 K) : Prop :=
  (e.x < 0 ∨ e.y < 0 ∨ e.z < 0) ∧ (0 < e.x ∨ 0 < e.y ∨ 0 < e.z)

variable [IsStrictOrderedRing K]

/-- Edge functions of one sign give weights that are not negative. -/
theorem weight_nonneg {e : Vec3 K} (hmixed : ¬ Mixed e) :
    0 ≤ e.x * (1 / total e) ∧ 0 ≤ e.y * (1 / total e) ∧ 0 ≤ e.z * (1 / total e) := by
  simp only [mul_one_div]
  rcases not_and_or.1 hmixed with h | h
  · simp only [not_or, not_lt] at h
    obtain ⟨hx, hy, hz⟩ := h
    have ht : 0 ≤ total e := add_nonneg (add_nonneg hx hy) hz
    exact ⟨div_nonneg hx ht, div_nonneg hy ht, div_nonneg hz ht⟩
  · simp only [not_or, not_lt] at h
    obtain ⟨hx, hy, hz⟩ := h
    have ht : total e ≤ 0 := add_nonpos (add_nonpos hx hy) hz
    exact ⟨div_nonneg_of_nonpos hx ht, div_nonneg_of_nonpos hy ht, div_nonneg_of_nonpos hz ht⟩

/-- Weights that are not negative and sum to one keep a blend between bounds. -/
theorem blend_mem {w0 w1 w2 c0 c1 c2 lo hi : K} (h0 : 0 ≤ w0) (h1 : 0 ≤ w1) (h2 : 0 ≤ w2)
    (hw : w0 + w1 + w2 = 1) (hc0 : lo ≤ c0 ∧ c0 ≤ hi) (hc1 : lo ≤ c1 ∧ c1 ≤ hi)
    (hc2 : lo ≤ c2 ∧ c2 ≤ hi) :
    lo ≤ w0 * c0 + w1 * c1 + w2 * c2 ∧ w0 * c0 + w1 * c1 + w2 * c2 ≤ hi := by
  constructor
  · calc lo = w0 * lo + w1 * lo + w2 * lo := by rw [← add_mul, ← add_mul, hw, one_mul]
      _ ≤ w0 * c0 + w1 * c1 + w2 * c2 := by gcongr <;> tauto
  · calc w0 * c0 + w1 * c1 + w2 * c2 ≤ w0 * hi + w1 * hi + w2 * hi := by gcongr <;> tauto
      _ = hi := by rw [← add_mul, ← add_mul, hw, one_mul]

end

end RayFrame

open Exact

variable {K : Type} [Field K] [LinearOrder K] [FloorSemiring K] [ExactFunctions K]

/-- A ray with a finite origin and a finite direction that is not zero. -/
structure Ray.IsProper (ray : Ray (Exact K)) : Prop where
  /-- The origin is finite. -/
  org : ray.org.IsFinite
  /-- The direction is finite. -/
  dir : ray.dir.IsFinite
  /-- It has a component that is not zero. -/
  dir_ne : ∃ i, ray.dir.get i ≠ fin 0

/-- A ray with a finite origin that runs along no plane of the axes. -/
structure Ray.IsRegular (ray : Ray (Exact K)) : Prop where
  /-- The origin is finite. -/
  org : ray.org.IsFinite
  /-- No component of the direction is zero. -/
  dir : ∀ i, ∃ d, ray.dir.get i = fin d ∧ d ≠ 0

omit [LinearOrder K] [FloorSemiring K] [ExactFunctions K] in
theorem Ray.IsRegular.isProper {ray : Ray (Exact K)} (hr : ray.IsRegular) : ray.IsProper where
  org := hr.org
  dir i := (hr.dir i).imp fun _ h => h.1
  dir_ne := by
    obtain ⟨d, hd, hne⟩ := hr.dir .x
    exact ⟨.x, by simpa [hd] using hne⟩

namespace RayFrame

/-! ### The error bound -/

theorem maxNumber_fin (x y : K) : Scalar.maxNumber (fin x : Exact K) (fin y) = fin (max x y) := by
  unfold Scalar.maxNumber
  split
  · rename_i h
    rw [max_eq_left (le_of_lt (fin_lt_fin.1 h))]
  · rename_i h
    rw [max_eq_right (not_lt.1 (mt fin_lt_fin.2 h))]
    simp [fin_beq_fin]

theorem maxMagnitude_fin (x y z : K) :
    maxMagnitude (fin x : Exact K) (fin y) (fin z) = fin (max |x| (max |y| |z|)) := by
  simp only [maxMagnitude, abs_fin, maxNumber_fin]

variable [IsStrictOrderedRing K]

/-- The bound of a finite triangle is finite and not negative. -/
theorem errorBound_fin (p0 p1 p2 z e : Vec3 K) (s : K) :
    ∃ B, 0 ≤ B ∧ errorBound (p0.map fin) (p1.map fin) (p2.map fin) (z.map fin) (e.map fin)
      (fin s : Exact K) = fin B := by
  have hγ (n : Int) : 0 ≤ (ExactFunctions.roundingBound n : K) :=
    ExactFunctions.roundingBound_nonneg n
  have hmax (x y z : K) : 0 ≤ max |x| (max |y| |z|) := (abs_nonneg x).trans (le_max_left _ _)
  simp only [errorBound, Vec3.map, maxMagnitude_fin, roundingBound_eq, two_eq, three_eq, abs_fin,
    fin_mul_fin, fin_add_fin]
  refine ⟨_, ?_, rfl⟩
  have hx := hmax p0.x p1.x p2.x
  have hy := hmax p0.y p1.y p2.y
  have hz := hmax z.x z.y z.z
  have he := hmax e.x e.y e.z
  have h2 := hγ 2
  have h3 := hγ 3
  have h5 := hγ 5
  positivity

/-! ### The parameter -/

/-- A parameter is past the bound on a side of the sheared plane. -/
theorem scaled_lt_iff {tFar : Exact K} {scaled sum : K} (htFar : tFar ≠ nan) (hsum : sum < 0) :
    fin scaled < tFar * fin sum ↔ ¬ fin (scaled * (1 / sum)) ≤ tFar := by
  cases tFar with
  | nan => exact absurd rfl htFar
  | negInf =>
    have : (negInf * fin sum : Exact K) = posInf := by
      show infinityOf (-sum) = posInf
      simp [infinityOf, hsum]
    rw [this]
    exact ⟨fun _ => id, fun _ => trivial⟩
  | fin τ =>
    rw [fin_mul_fin, fin_lt_fin, fin_le_fin, not_le, mul_one_div, lt_div_iff_of_neg hsum]
  | posInf =>
    have : (posInf * fin sum : Exact K) = negInf := by
      show infinityOf sum = negInf
      simp [infinityOf, hsum, hsum.le]
    rw [this]
    exact ⟨fun h => absurd h not_lt_negInf, fun h => absurd trivial h⟩

theorem lt_scaled_iff {tFar : Exact K} {scaled sum : K} (htFar : tFar ≠ nan) (hsum : 0 < sum) :
    tFar * fin sum < fin scaled ↔ ¬ fin (scaled * (1 / sum)) ≤ tFar := by
  cases tFar with
  | nan => exact absurd rfl htFar
  | negInf =>
    have : (negInf * fin sum : Exact K) = negInf := by
      show infinityOf (-sum) = negInf
      simp [infinityOf, hsum, hsum.le]
    rw [this]
    exact ⟨fun _ => id, fun _ => trivial⟩
  | fin τ =>
    rw [fin_mul_fin, fin_lt_fin, fin_le_fin, not_le, mul_one_div, lt_div_iff₀ hsum]
  | posInf =>
    have : (posInf * fin sum : Exact K) = posInf := by
      show infinityOf sum = posInf
      simp [infinityOf, hsum]
    rw [this]
    exact ⟨fun h => absurd h not_posInf_lt, fun h => absurd trivial h⟩

/-- A hit is refused if it is not in front of the ray or is past the bound, whatever the sign of the
sum of the edge functions. -/
theorem refused_iff {tFar : Exact K} {scaled sum : K} (htFar : tFar ≠ nan) (hsum : sum ≠ 0) :
    (fin sum < fin 0 ∧ (fin 0 ≤ fin scaled ∨ fin scaled < tFar * fin sum)) ∨
        (fin 0 < fin sum ∧ (fin scaled ≤ fin 0 ∨ tFar * fin sum < fin scaled)) ↔
      scaled * (1 / sum) ≤ 0 ∨ ¬ fin (scaled * (1 / sum)) ≤ tFar := by
  simp only [fin_lt_fin, fin_le_fin]
  rcases lt_or_gt_of_ne hsum with hneg | hpos
  · have hfront : scaled * (1 / sum) ≤ 0 ↔ 0 ≤ scaled := by
      rw [mul_one_div, div_le_iff_of_neg hneg, zero_mul]
    simp only [hneg, not_lt.2 hneg.le, scaled_lt_iff htFar hneg, hfront, true_and, false_and,
      or_false]
  · have hfront : scaled * (1 / sum) ≤ 0 ↔ scaled ≤ 0 := by
      rw [mul_one_div, div_le_iff₀ hpos, zero_mul]
    simp only [hpos, not_lt.2 hpos.le, lt_scaled_iff htFar hpos, hfront, true_and, false_and,
      false_or]

/-! ### The test -/

/-- The test once a triangle is seen from the ray: from its corners, their distances along the ray
and the edge functions. -/
def judge {α : Type} [Scalar α] (tFar : α) (p0 p1 p2 z e : Vec3 α) : Option (TriangleHit α) :=
  if (e.x < 0 ∨ e.y < 0 ∨ e.z < 0) ∧ (0 < e.x ∨ 0 < e.y ∨ 0 < e.z) then none
  else if e.x + e.y + e.z == 0 then none
  else if (e.x + e.y + e.z < 0 ∧ (0 ≤ e.x * z.x + e.y * z.y + e.z * z.z ∨
        e.x * z.x + e.y * z.y + e.z * z.z < tFar * (e.x + e.y + e.z))) ∨
      (0 < e.x + e.y + e.z ∧ (e.x * z.x + e.y * z.y + e.z * z.z ≤ 0 ∨
        tFar * (e.x + e.y + e.z) < e.x * z.x + e.y * z.y + e.z * z.z)) then none
  else
    let inv := 1 / (e.x + e.y + e.z)
    let t := (e.x * z.x + e.y * z.y + e.z * z.z) * inv
    if t ≤ errorBound p0 p1 p2 z e inv then none
    else some ⟨t, ⟨e.x * inv, e.y * inv, e.z * inv⟩⟩

/-- What the parameter of a hit has to exceed: the bound on its error, for a triangle as seen from a
ray. -/
def tolerance {α : Type} [Scalar α] (f : RayFrame α) (org c0 c1 c2 : Vec3 α) : α :=
  let p0 := f.look org c0
  let p1 := f.look org c1
  let p2 := f.look org c2
  let e := edges p0 p1 p2
  errorBound p0 p1 p2 ((⟨p0.z, p1.z, p2.z⟩ : Vec3 α).scale f.shear.z) e (1 / (e.x + e.y + e.z))

theorem hit?_eq_judge {α : Type} [Scalar α] (f : RayFrame α) (ray : Ray α) (tFar : α)
    (c0 c1 c2 : Vec3 α) :
    f.hit? ray tFar c0 c1 c2 =
      judge tFar (f.look ray.org c0) (f.look ray.org c1) (f.look ray.org c2)
        ((⟨(f.look ray.org c0).z, (f.look ray.org c1).z, (f.look ray.org c2).z⟩ : Vec3 α).scale
          f.shear.z)
        (edges (f.look ray.org c0) (f.look ray.org c1) (f.look ray.org c2)) := rfl

/-- A hit at a parameter is reported: the edge functions are not mixed, and the parameter is past
the bound on its error and not past the one up to which hits count. -/
def Reports (e : Vec3 K) (t B : K) (tFar : Exact K) (hit : TriangleHit (Exact K)) : Prop :=
  ¬ Mixed e ∧ total e ≠ 0 ∧ B < t ∧ fin t ≤ tFar ∧
    hit = ⟨fin t, (e.map (· * (1 / total e))).map fin⟩

/-- The test in terms of the field. -/
theorem judge_eq_some_iff (p0 p1 p2 z e : Vec3 K) :
    ∃ B, 0 ≤ B ∧
      errorBound (p0.map fin) (p1.map fin) (p2.map fin) (z.map fin) (e.map fin)
        (fin (1 / total e) : Exact K) = fin B ∧
      ∀ (tFar : Exact K) (hit : TriangleHit (Exact K)), tFar ≠ nan →
        (judge tFar (p0.map fin) (p1.map fin) (p2.map fin) (z.map fin) (e.map fin) = some hit ↔
          Reports e (parameter e z) B tFar hit) := by
  obtain ⟨B, hB, hbound⟩ := errorBound_fin p0 p1 p2 z e (1 / total e)
  refine ⟨B, hB, hbound, fun tFar hit htFar => ?_⟩
  have hsum : ((e.map fin).x + (e.map fin).y + (e.map fin).z : Exact K) = fin (total e) := rfl
  have hscaled : ((e.map fin).x * (z.map fin).x + (e.map fin).y * (z.map fin).y +
      (e.map fin).z * (z.map fin).z : Exact K) = fin (e.x * z.x + e.y * z.y + e.z * z.z) := rfl
  unfold judge Reports
  rw [hsum, hscaled, zero_eq, one_eq, fin_beq_fin]
  split
  case isTrue hmixed =>
    have hmixed : Mixed e := hmixed
    simp [hmixed]
  case isFalse hmixed =>
    have hmixed : ¬ Mixed e := hmixed
    by_cases hzero : total e = 0
    · simp [hzero]
    rw [if_neg (by simpa using hzero), fin_div_fin hzero]
    simp only [hbound, refused_iff htFar hzero, fin_mul_fin]
    change (if parameter e z ≤ 0 ∨ ¬ fin (parameter e z) ≤ tFar then none
      else if parameter e z ≤ B then none
      else some ⟨fin (parameter e z), (e.map (· * (1 / total e))).map fin⟩) = some hit ↔ _
    split
    case isTrue hrefused =>
      simp only [reduceCtorEq, false_iff, not_and]
      intro _ _ hlt hle
      exact absurd hle (hrefused.resolve_left (not_le.2 (hB.trans_lt hlt)))
    case isFalse hkept =>
      have hle := not_not.1 (not_or.1 hkept).2
      split
      · rename_i hsmall
        simp [not_lt.2 hsmall]
      · rename_i hlarge
        simp [hmixed, hzero, not_le.1 hlarge, hle, eq_comm]

/-- A parameter that is not positive is refused, whatever the one up to which hits count. -/
theorem judge_eq_none_of_nonpos {p0 p1 p2 : Vec3 (Exact K)} {z e : Vec3 K} (h : parameter e z ≤ 0)
    (tFar : Exact K) : judge tFar p0 p1 p2 (z.map fin) (e.map fin) = none := by
  have hsum : ((e.map fin).x + (e.map fin).y + (e.map fin).z : Exact K) = fin (total e) := rfl
  have hscaled : ((e.map fin).x * (z.map fin).x + (e.map fin).y * (z.map fin).y +
      (e.map fin).z * (z.map fin).z : Exact K) = fin (e.x * z.x + e.y * z.y + e.z * z.z) := rfl
  unfold judge
  rw [hsum, hscaled, zero_eq, fin_beq_fin]
  split
  · rfl
  · by_cases hzero : total e = 0
    · simp [hzero]
    · rw [if_neg (by simpa using hzero), if_pos]
      rw [parameter, mul_one_div] at h
      simp only [fin_lt_fin, fin_le_fin]
      rcases lt_or_gt_of_ne hzero with hneg | hpos
      · exact .inl ⟨hneg, .inl (by rwa [div_le_iff_of_neg hneg, zero_mul] at h)⟩
      · exact .inr ⟨hpos, .inl (by rwa [div_le_iff₀ hpos, zero_mul] at h)⟩

/-! ### A triangle seen from a ray -/

/-- A corner as seen from a ray along an axis: the offset in the plane of the other two from where
the ray is beside it, and the distance along the axis. -/
def sight (o d c : Vec3 K) (k : Axis) : Vec3 K :=
  ⟨-d.get k.next * (1 / d.get k) * (c.get k - o.get k) + (c.get k.next - o.get k.next),
    -d.get k.next.next * (1 / d.get k) * (c.get k - o.get k) +
      (c.get k.next.next - o.get k.next.next), c.get k - o.get k⟩

/-- The edge functions of a triangle seen along an axis. -/
def edgesAlong (o d c0 c1 c2 : Vec3 K) (k : Axis) : Vec3 K :=
  edges (sight o d c0 k) (sight o d c1 k) (sight o d c2 k)

/-- Where the edge functions of a triangle seen along an axis put a hit. -/
def parameterAlong (o d c0 c1 c2 : Vec3 K) (k : Axis) : K :=
  parameter (edgesAlong o d c0 c1 c2 k)
    ((⟨c0.get k - o.get k, c1.get k - o.get k, c2.get k - o.get k⟩ : Vec3 K).scale (1 / d.get k))

omit [IsStrictOrderedRing K] in
theorem look_ofRay {ray : Ray (Exact K)} {o d : Vec3 K} (ho : ray.org = o.map fin)
    (hd : ray.dir = d.map fin) (hz : d.get (ofRay ray).zAxis ≠ 0) (c : Vec3 K) :
    (ofRay ray).look ray.org (c.map fin) =
      (sight o d c (ofRay ray).zAxis).map fin := by
  have hinv : (1 / fin (d.get (ofRay ray).zAxis) : Exact K) =
      fin (1 / d.get (ofRay ray).zAxis) := by
    rw [one_eq, fin_div_fin hz]
  have hshear : (ofRay ray).shear =
      ⟨-ray.dir.get (ofRay ray).xAxis * (1 / ray.dir.get (ofRay ray).zAxis),
        -ray.dir.get (ofRay ray).yAxis * (1 / ray.dir.get (ofRay ray).zAxis),
        1 / ray.dir.get (ofRay ray).zAxis⟩ := rfl
  simp only [look, permute, hshear, ho, hd, Vec3.get_map, Vec3.get_sub, hinv, fin_sub_fin, neg_fin,
    fin_mul_fin, fin_add_fin]
  rfl

omit [IsStrictOrderedRing K] in
theorem edges_map (p0 p1 p2 : Vec3 K) :
    edges (p0.map fin : Vec3 (Exact K)) (p1.map fin) (p2.map fin) = (edges p0 p1 p2).map fin := by
  simp only [edges, Vec3.map, fin_mul_fin, fin_sub_fin]

/-- The test of a triangle whose corners are seen at finite places. -/
theorem hit?_of_look {f : RayFrame (Exact K)} {ray : Ray (Exact K)}
    {c0 c1 c2 : Vec3 (Exact K)} {p0 p1 p2 : Vec3 K} {s : K} (h0 : f.look ray.org c0 = p0.map fin)
    (h1 : f.look ray.org c1 = p1.map fin) (h2 : f.look ray.org c2 = p2.map fin)
    (hs : f.shear.z = fin s) :
    let t := parameter (edges p0 p1 p2) ((⟨p0.z, p1.z, p2.z⟩ : Vec3 K).scale s)
    (t ≤ 0 → ∀ tFar, f.hit? ray tFar c0 c1 c2 = none) ∧
    ∃ B, 0 ≤ B ∧ (total (edges p0 p1 p2) ≠ 0 → f.tolerance ray.org c0 c1 c2 = fin B) ∧
      ∀ (tFar : Exact K) (hit : TriangleHit (Exact K)), tFar ≠ nan →
        (f.hit? ray tFar c0 c1 c2 = some hit ↔ Reports (edges p0 p1 p2) t B tFar hit) := by
  intro t
  obtain ⟨B, hB, hbound, hiff⟩ :=
    judge_eq_some_iff p0 p1 p2 ((⟨p0.z, p1.z, p2.z⟩ : Vec3 K).scale s) (edges p0 p1 p2)
  refine ⟨fun ht tFar => ?_, B, hB, fun hzero => ?_, fun tFar hit htFar => ?_⟩
  · rw [hit?_eq_judge, h0, h1, h2, hs, edges_map]
    exact judge_eq_none_of_nonpos ht tFar
  · have hinv : (1 / fin (total (edges p0 p1 p2)) : Exact K) = fin (1 / total (edges p0 p1 p2)) := by
      rw [one_eq, fin_div_fin hzero]
    simp only [tolerance, h0, h1, h2, hs, edges_map]
    rw [← hbound, ← hinv]
    rfl
  · rw [hit?_eq_judge, h0, h1, h2, hs, edges_map]
    exact hiff tFar hit htFar

/-- A ray runs along its main axis. -/
theorem zAxis_ne_zero {ray : Ray (Exact K)} (hr : ray.IsProper) {d : Vec3 K}
    (hd : ray.dir = d.map fin) : d.get (ofRay ray).zAxis ≠ 0 := by
  obtain ⟨i, hi⟩ := hr.dir_ne
  rw [hd, Vec3.get_map, ne_eq, Exact.fin.injEq] at hi
  have habs : ray.dir.abs = (d.map (|·|)).map fin := by
    rw [hd]
    rfl
  have hmax := (d.map (|·|)).get_le_maxDim i
  rw [← habs, Vec3.get_map, Vec3.get_map] at hmax
  exact abs_pos.1 ((abs_pos.2 hi).trans_le hmax)

/-- The test of a triangle for a ray with given components. -/
theorem hit?_along {ray : Ray (Exact K)} (hr : ray.IsProper) {o d : Vec3 K}
    (ho : ray.org = o.map fin) (hd : ray.dir = d.map fin) (c0 c1 c2 : Vec3 K) :
    ∃ k, d.get k ≠ 0 ∧
      (parameterAlong o d c0 c1 c2 k ≤ 0 → ∀ tFar,
        (ofRay ray).hit? ray tFar (c0.map fin) (c1.map fin) (c2.map fin) = none) ∧
      ∃ B, 0 ≤ B ∧
      (total (edgesAlong o d c0 c1 c2 k) ≠ 0 →
        (ofRay ray).tolerance ray.org (c0.map fin) (c1.map fin) (c2.map fin) = fin B) ∧
      ∀ (tFar : Exact K) (hit : TriangleHit (Exact K)), tFar ≠ nan →
        ((ofRay ray).hit? ray tFar (c0.map fin) (c1.map fin) (c2.map fin) = some hit ↔
          Reports (edgesAlong o d c0 c1 c2 k) (parameterAlong o d c0 c1 c2 k) B tFar hit) := by
  have hne := zAxis_ne_zero hr hd
  have hlook (c : Vec3 K) := look_ofRay ho hd hne c
  have hscale : (ofRay ray).shear.z = fin (1 / d.get (ofRay ray).zAxis) := by
    show 1 / ray.dir.get (ofRay ray).zAxis = _
    rw [hd, Vec3.get_map, one_eq, fin_div_fin hne]
  exact ⟨_, hne, hit?_of_look (hlook c0) (hlook c1) (hlook c2) hscale⟩

omit [LinearOrder K] [FloorSemiring K] [ExactFunctions K] [IsStrictOrderedRing K] in
/-- The point of the parameter is the blend of the corners on every axis. -/
theorem blend_eq_parameterAlong (o : Vec3 K) {d : Vec3 K} {k : Axis} (hk : d.get k ≠ 0)
    {c0 c1 c2 : Vec3 K} (hzero : total (edgesAlong o d c0 c1 c2 k) ≠ 0) (i : Axis) :
    let e := edgesAlong o d c0 c1 c2 k
    o.get i + d.get i * parameterAlong o d c0 c1 c2 k =
      e.x * (1 / total e) * c0.get i + e.y * (1 / total e) * c1.get i +
        e.z * (1 / total e) * c2.get i := by
  intro e
  have hi : i = k.next ∨ i = k.next.next ∨ i = k := by
    cases k <;> cases i <;> simp [Axis.next]
  obtain ⟨hx, hy⟩ := edges_weighted (sight o d c0 k) (sight o d c1 k) (sight o d c2 k)
  rcases hi with rfl | rfl | rfl
  · exact blend_across hzero hx
  · exact blend_across hzero hy
  · exact blend_along hzero hk

/-- The test of a finite triangle: there are edge functions and a parameter, at which the ray is at
the blend of the corners, and a bound that decide every question. -/
theorem exists_crossing {ray : Ray (Exact K)} (hr : ray.IsProper) {c0 c1 c2 : Vec3 (Exact K)}
    (h0 : c0.IsFinite) (h1 : c1.IsFinite) (h2 : c2.IsFinite) :
    ∃ (e : Vec3 K) (t B : K), 0 ≤ B ∧
      (∀ (tFar : Exact K) (hit : TriangleHit (Exact K)), tFar ≠ nan →
        ((ofRay ray).hit? ray tFar c0 c1 c2 = some hit ↔ Reports e t B tFar hit)) ∧
      (total e ≠ 0 → ∀ i (b0 b1 b2 : K), c0.get i = fin b0 → c1.get i = fin b1 →
        c2.get i = fin b2 → (ray.pointAt (fin t)).get i =
          fin (e.x * (1 / total e) * b0 + e.y * (1 / total e) * b1 +
            e.z * (1 / total e) * b2)) := by
  obtain ⟨c0, rfl⟩ := h0.exists_map
  obtain ⟨c1, rfl⟩ := h1.exists_map
  obtain ⟨c2, rfl⟩ := h2.exists_map
  obtain ⟨o, ho⟩ := hr.org.exists_map
  obtain ⟨d, hd⟩ := hr.dir.exists_map
  obtain ⟨k, hk, -, B, hB, -, hiff⟩ := hit?_along hr ho hd c0 c1 c2
  refine ⟨_, _, B, hB, hiff, ?_⟩
  intro hzero i b0 b1 b2 hb0 hb1 hb2
  rw [Vec3.get_map, Exact.fin.injEq] at hb0 hb1 hb2
  simp only [Ray.pointAt, Vec3.get_add, Vec3.get_scale, ho, hd, Vec3.get_map, fin_mul_fin,
    fin_add_fin, ← hb0, ← hb1, ← hb2]
  exact congrArg fin (blend_eq_parameterAlong o hk hzero i)

/-- **A bound only removes hits**: up to a parameter there is a hit exactly if there is one without
a bound and it is not past the parameter, and then it is the same hit. -/
theorem hit?_eq_some_iff {ray : Ray (Exact K)} (hr : ray.IsRegular) {c0 c1 c2 : Vec3 (Exact K)}
    (h0 : c0.IsFinite) (h1 : c1.IsFinite) (h2 : c2.IsFinite) {tFar : Exact K} (htFar : tFar ≠ nan)
    {hit : TriangleHit (Exact K)} :
    (ofRay ray).hit? ray tFar c0 c1 c2 = some hit ↔
      (ofRay ray).hit? ray posInf c0 c1 c2 = some hit ∧ hit.t ≤ tFar := by
  obtain ⟨e, t, B, -, hiff, -⟩ := exists_crossing hr.isProper h0 h1 h2
  rw [hiff tFar hit htFar, hiff posInf hit (by simp)]
  constructor
  · rintro ⟨hmixed, hzero, hlt, hle, rfl⟩
    exact ⟨⟨hmixed, hzero, hlt, fin_le_posInf, rfl⟩, hle⟩
  · rintro ⟨⟨hmixed, hzero, hlt, -, rfl⟩, hle⟩
    exact ⟨hmixed, hzero, hlt, hle, rfl⟩

/-- **A hit lies in the triangle**: its parameter is positive, and its point is in every finite box
that holds the corners. -/
theorem hit?_contains {ray : Ray (Exact K)} (hr : ray.IsRegular) {c0 c1 c2 : Vec3 (Exact K)}
    (h0 : c0.IsFinite) (h1 : c1.IsFinite) (h2 : c2.IsFinite) {hit : TriangleHit (Exact K)}
    (hhit : (ofRay ray).hit? ray posInf c0 c1 c2 = some hit) :
    ∃ t, hit.t = fin t ∧ 0 < t ∧ ∀ b : Box (Exact K), b.lower.IsFinite → b.upper.IsFinite →
      b.Contains c0 → b.Contains c1 → b.Contains c2 → b.Contains (ray.pointAt (fin t)) := by
  obtain ⟨e, t, B, hB, hiff, hblend⟩ := exists_crossing hr.isProper h0 h1 h2
  obtain ⟨hmixed, hzero, hlt, -, rfl⟩ := (hiff posInf hit (by simp)).1 hhit
  refine ⟨t, rfl, hB.trans_lt hlt, fun b hlo hhi hc0 hc1 hc2 i => ?_⟩
  obtain ⟨b0, hb0⟩ := h0 i
  obtain ⟨b1, hb1⟩ := h1 i
  obtain ⟨b2, hb2⟩ := h2 i
  obtain ⟨lo, hlo⟩ := hlo i
  obtain ⟨hi, hhi⟩ := hhi i
  have hm0 := hc0 i
  have hm1 := hc1 i
  have hm2 := hc2 i
  rw [hlo, hhi, hb0, fin_le_fin, fin_le_fin] at hm0
  rw [hlo, hhi, hb1, fin_le_fin, fin_le_fin] at hm1
  rw [hlo, hhi, hb2, fin_le_fin, fin_le_fin] at hm2
  rw [hlo, hhi, hblend hzero i b0 b1 b2 hb0 hb1 hb2, fin_le_fin, fin_le_fin]
  obtain ⟨hw0, hw1, hw2⟩ := weight_nonneg hmixed
  exact blend_mem hw0 hw1 hw2 (weight_sum hzero) hm0 hm1 hm2

end RayFrame

end RadianceTransfer
