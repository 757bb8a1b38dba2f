import RadianceTransfer.Proofs.Field
import RadianceTransfer.Proofs.Geometry.Box
import RadianceTransfer.Sampling.Sphere

/-!
# Samples of the sphere over exact numbers

Every sample of a pass lies in a cell of the grid, at places that a generator drew from `[0, 1)`.
Where sines, cosines and angles are those of the unit circle, its direction is therefore a finite
vector of length one.

## Main definitions

* `IsTrigonometric`: what is asked of sines, cosines and angles.

## Main statements

* `StratifiedSphere.exists_cell_of_mem_pass`: where the samples are.
* `StratifiedSphere.dir_of_mem_pass`: their directions.
-/

namespace RadianceTransfer

open Exact

/-- Sine and cosine are the coordinates of points of the unit circle, and every cosine belongs to an
angle. -/
class IsTrigonometric (K : Type) [Field K] [LinearOrder K] [ExactFunctions K] : Prop where
  /-- Sine and cosine. -/
  circle : ∀ x : K, ∃ s c : K, ExactFunctions.sin (fin x) = fin s ∧
    ExactFunctions.cos (fin x) = fin c ∧ s * s + c * c = 1
  /-- Angles. -/
  angle : ∀ x : K, -1 ≤ x → x ≤ 1 → ∃ θ : K, ExactFunctions.acos (fin x) = fin θ

instance : IsTrigonometric ℝ where
  circle x := ⟨Real.sin x, Real.cos x, rfl, rfl, by
    rw [← sq, ← sq]
    exact Real.sin_sq_add_cos_sq x⟩
  angle x h h' := ⟨Real.arccos x, if_pos ⟨h, h'⟩⟩

variable {K : Type} [Field K] [LinearOrder K] [FloorSemiring K] [ExactFunctions K]
  [IsStrictOrderedRing K]

/-- A number of `[0, 1)`. -/
def InUnit (a : Exact K) : Prop := ∃ x, a = fin x ∧ 0 ≤ x ∧ x < 1

omit [IsStrictOrderedRing K] in
theorem Vec3.exists_ne_zero_of_lengthSquared {v : Vec3 (Exact K)} (h : v.lengthSquared = fin 1) :
    ∃ i, v.get i ≠ fin 0 := by
  by_contra hzero
  simp only [ne_eq, not_exists, not_not] at hzero
  have hx : v.x = fin 0 := hzero .x
  have hy : v.y = fin 0 := hzero .y
  have hz : v.z = fin 0 := hzero .z
  rw [Vec3.lengthSquared, Vec3.dot, hx, hy, hz] at h
  simp at h

theorem Pcg.toNat_shiftRight_lt (w : UInt64) : (w >>> 11).toNat < twoPow 53 := by
  rw [UInt64.toNat_shiftRight]
  have := w.toNat_lt
  simp only [UInt64.reduceToNat, Nat.reduceMod, Nat.shiftRight_eq_div_pow]
  show w.toNat / 2 ^ 11 < 2 ^ 53
  omega

/-- What a generator draws. -/
theorem Pcg.inUnit_nextUnit (g : Pcg) : InUnit (g.nextUnit (α := Exact K)).1 := by
  have hdraw : (g.nextUnit (α := Exact K)).1 =
      Scalar.ofNat (g.nextLong.1 >>> 11).toNat / Scalar.ofNat (twoPow 53) := rfl
  have hlt : ((g.nextLong.1 >>> 11).toNat : K) < (twoPow 53 : Nat) :=
    Nat.cast_lt.2 (toNat_shiftRight_lt g.nextLong.1)
  have hpos : (0 : K) < (twoPow 53 : Nat) := (Nat.cast_nonneg _).trans_lt hlt
  refine ⟨(g.nextLong.1 >>> 11).toNat / (twoPow 53 : Nat), ?_, by positivity, ?_⟩
  · rw [hdraw, ofNat_eq, ofNat_eq, fin_div_fin hpos.ne']
  · exact (div_lt_one hpos).2 hlt

/-- The direction of spherical coordinates. -/
theorem Harmonics.toVector_fin [IsTrigonometric K] (phi theta : K) :
    ∃ v : Vec3 K, Harmonics.toVector (fin phi : Exact K) (fin theta) = v.map fin ∧
      v.lengthSquared = 1 := by
  obtain ⟨sφ, cφ, hsφ, hcφ, hφ⟩ := IsTrigonometric.circle phi
  obtain ⟨sθ, cθ, hsθ, hcθ, hθ⟩ := IsTrigonometric.circle theta
  have hsin (x : Exact K) : Scalar.sin x = ExactFunctions.sin x := rfl
  have hcos (x : Exact K) : Scalar.cos x = ExactFunctions.cos x := rfl
  refine ⟨⟨sθ * cφ, sθ * sφ, cθ⟩, ?_, ?_⟩
  · simp only [Harmonics.toVector, hsin, hcos, hsφ, hcφ, hsθ, hcθ, fin_mul_fin, Vec3.map]
  · simp only [Vec3.lengthSquared, Vec3.dot]
    linear_combination sθ * sθ * hφ + hθ

namespace StratifiedSphere

/-- The direction of a sample in a cell of the grid. -/
theorem dir_cellSample [IsTrigonometric K] {side row col : Nat} (hrow : row < side)
    {u v : Exact K} (hu : InUnit u) (hv : InUnit v) :
    (cellSample side row col u v).dir.IsFinite ∧
      (cellSample side row col u v).dir.lengthSquared = fin 1 := by
  obtain ⟨x, rfl, hx0, hx1⟩ := hu
  obtain ⟨y, rfl, -, -⟩ := hv
  have hside : (0 : K) < side := Nat.cast_pos.2 (Nat.zero_lt_of_lt hrow)
  have hle : (row : K) + 1 ≤ side := by exact_mod_cast hrow
  have hrow0 : (0 : K) ≤ row := Nat.cast_nonneg row
  obtain ⟨θ, hθ⟩ : ∃ θ : K,
      ExactFunctions.acos (fin (2 * ((row + x) * (1 / side)) - 1)) = fin θ := by
    refine IsTrigonometric.angle _ ?_ ?_
    · have : 0 ≤ (row + x) * (1 / side) := by positivity
      linarith
    · have : (row + x) * (1 / side) ≤ 1 := by
        rw [mul_one_div, div_le_one hside]
        linarith
      linarith
  have hplace (n : Nat) (z : K) : ((Scalar.ofNat n + fin z) * (1 / Scalar.ofNat side) : Exact K) =
      fin ((n + z) * (1 / side)) := by
    rw [ofNat_eq, ofNat_eq, one_eq, fin_div_fin hside.ne']
    rfl
  have hpi : (Scalar.twoPi : Exact K) = fin (2 * ExactFunctions.pi) := by
    rw [Scalar.twoPi, two_eq]
    rfl
  have htheta : (Scalar.acos (2 * fin ((row + x) * (1 / side)) - 1) : Exact K) = fin θ := by
    rw [two_eq, one_eq, fin_mul_fin, fin_sub_fin]
    exact hθ
  have hdir : (cellSample side row col (fin x) (fin y) : SphereSample (Exact K)).dir =
      Harmonics.toVector (fin (2 * ExactFunctions.pi * ((col + y) * (1 / side)))) (fin θ) := by
    rw [cellSample, hplace, hplace, hpi, htheta, fin_mul_fin]
  obtain ⟨w, hw, hlength⟩ := Harmonics.toVector_fin
    (2 * ExactFunctions.pi * ((col + y) * (1 / side)) : K) θ
  rw [hdir, hw]
  refine ⟨fun i => ⟨_, Vec3.get_map ..⟩, ?_⟩
  rw [← hlength]
  rfl

/-- Every drawn sample is in one of the cells, at places of `[0, 1)`. -/
theorem exists_cell_of_mem_drawCells {side : Nat} {cells : List (Nat × Nat)} {g : Pcg}
    {s : SphereSample (Exact K)} (hs : s ∈ (drawCells side g cells).1) :
    ∃ cell ∈ cells, ∃ u v : Exact K, InUnit u ∧ InUnit v ∧
      s = cellSample side cell.1 cell.2 u v := by
  induction cells generalizing g with
  | nil => exact absurd hs List.not_mem_nil
  | cons cell cells ih =>
    rcases List.mem_cons.1 hs with rfl | hs
    · exact ⟨cell, List.mem_cons_self, _, _, Pcg.inUnit_nextUnit _, Pcg.inUnit_nextUnit _, rfl⟩
    · obtain ⟨cell', hcell', h⟩ := ih hs
      exact ⟨cell', List.mem_cons_of_mem _ hcell', h⟩

/-- **The direction of a sample** is a finite vector of length one. -/
theorem dir_of_mem_pass [IsTrigonometric K] {sampler : StratifiedSphere Pcg}
    {s : SphereSample (Exact K)} (hs : s ∈ (sampler.pass (α := Exact K)).1) :
    s.dir.IsFinite ∧ s.dir.lengthSquared = fin 1 := by
  obtain ⟨⟨row, col⟩, hcell, u, v, hu, hv, rfl⟩ := exists_cell_of_mem_drawCells hs
  simp only [cells, List.mem_flatMap, List.mem_range, List.mem_map, Prod.mk.injEq] at hcell
  obtain ⟨row', hrow, col', -, rfl, rfl⟩ := hcell
  exact dir_cellSample hrow hu hv

end StratifiedSphere

end RadianceTransfer
