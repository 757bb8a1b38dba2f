import Mathlib
import RadianceTransfer.Proofs.Geometry.Rotation
import RadianceTransfer.Proofs.Number.SquareRoot
import RadianceTransfer.Proofs.Sampling.Sphere

/-!
# Strata

A pass takes one sample from every cell of the grid, row by row, and draws two numbers for each. So
the place of a cell in this order decides which numbers its sample is made of. Nothing that is done
with the samples has a part in this, and the next pass goes on where a pass has ended.

Over the real numbers the rows of the grid divide the third axis into equal parts and the columns
divide the azimuth. The directions of a cell are a stratum, no direction is in two strata, and each
sample is in the stratum of its cell.

## Main definitions

* `Generator.draw`: the numbers that are drawn one after the other.
* `StratifiedSphere.passes`: the sampler after some passes.
* `StratifiedSphere.visit`: a pass that gives away each sample before it draws the next one.
* `SphereSample.IsAt`: the direction at given places of a cell.
* `stratum`: the directions of a cell.

## Main statements

* `StratifiedSphere.isGreatest_sideOf`: the side of the grid for a number of samples.
* `StratifiedSphere.passes_eq`: where a pass goes on.
* `StratifiedSphere.visit_eq`: samples do not depend on what is done with them.
* `eq_of_mem_stratum`: strata are disjoint.
* `StratifiedSphere.passes_stratified`: every stratum has one sample in every pass.
-/

namespace RadianceTransfer

/-! ### Numbers drawn one after the other -/

namespace Generator

variable {γ : Type} (α : Type) [Generator γ α]

/-- The generator after some draws. -/
def after (g : γ) (n : Nat) : γ :=
  (fun g => (next g : α × γ).2)^[n] g

variable {α}

/-- The numbers that are drawn, counted from zero. -/
def draw (g : γ) (n : Nat) : α :=
  (next (after α g n) : α × γ).1

theorem after_after (g : γ) (k n : Nat) : after α (after α g k) n = after α g (k + n) := by
  rw [after, after, after, Nat.add_comm, Function.iterate_add_apply]

theorem draw_after (g : γ) (k n : Nat) : (draw (after α g k) n : α) = draw g (k + n) := by
  rw [draw, draw, after_after]

end Generator

theorem Pcg.nextUnit_mem (g : Pcg) : (g.nextUnit (α := ℝ)).1 ∈ Set.Ico (0 : ℝ) 1 := by
  have hlt : ((g.nextLong.1 >>> 11).toNat : ℝ) < (twoPow 53 : Nat) :=
    Nat.cast_lt.2 (toNat_shiftRight_lt g.nextLong.1)
  exact ⟨div_nonneg (Nat.cast_nonneg _) (Nat.cast_nonneg _),
    (div_lt_one ((Nat.cast_nonneg _).trans_lt hlt)).2 hlt⟩

theorem Pcg.draw_mem (g : Pcg) (n : Nat) : (Generator.draw g n : ℝ) ∈ Set.Ico (0 : ℝ) 1 :=
  nextUnit_mem (Generator.after ℝ g n)

namespace StratifiedSphere

/-! ### The side of the grid -/

theorem sideOf_double (n : UInt32) : sideOf Float n = n.toNat.sqrt :=
  Double.toUInt64_sqrt_ofNat (n.toNat_lt.trans (by decide))

/-- The grid is the largest one with no more cells than samples asked for. -/
theorem isGreatest_sideOf (n : UInt32) :
    IsGreatest {k : Nat | k * k ≤ n.toNat} (sideOf Float n) := by
  rw [sideOf_double]
  exact ⟨Nat.sqrt_le _, fun _ hk => Nat.le_sqrt.2 hk⟩

/-! ### Order of the cells -/

theorem place_div_mod {side col : Nat} (row : Nat) (hcol : col < side) :
    ((row * side + col) / side, (row * side + col) % side) = (row, col) := by
  rw [Nat.add_comm, Nat.add_mul_div_right _ _ (Nat.zero_lt_of_lt hcol),
    Nat.add_mul_mod_self_right, Nat.div_eq_of_lt hcol, Nat.mod_eq_of_lt hcol, Nat.zero_add]

/-- The place of a cell has its row and column as quotient and remainder. -/
theorem flatMap_range_eq_map (rows side : Nat) :
    ((List.range rows).flatMap fun row => (List.range side).map fun col => (row, col)) =
      (List.range (rows * side)).map fun k => (k / side, k % side) := by
  induction rows with
  | zero => rw [Nat.zero_mul]; rfl
  | succ rows ih =>
    rw [List.range_succ, List.flatMap_append, ih, Nat.succ_mul, List.range_add, List.map_append,
      List.map_map, List.flatMap_singleton]
    congr 1
    exact List.map_congr_left fun col hcol => (place_div_mod rows (List.mem_range.1 hcol)).symm

theorem length_cells (side : Nat) : (cells side).length = side * side := by
  rw [cells, flatMap_range_eq_map, List.length_map, List.length_range]

theorem getElem?_cells {side row col : Nat} (hrow : row < side) (hcol : col < side) :
    (cells side)[row * side + col]? = some (row, col) := by
  have hplace : row * side + col < side * side := by
    calc row * side + col < (row + 1) * side := by
          rw [Nat.succ_mul]
          exact Nat.add_lt_add_left hcol _
      _ ≤ side * side := Nat.mul_le_mul_right _ hrow
  rw [cells, flatMap_range_eq_map, List.getElem?_map, List.getElem?_range hplace, Option.map_some,
    place_div_mod row hcol]

/-! ### Numbers of a pass -/

section Draws

open Generator

variable {α γ : Type} [Scalar α] [Generator γ α]

theorem drawCells_cons (side : Nat) (g : γ) (cell : Nat × Nat) (cells : List (Nat × Nat)) :
    drawCells (α := α) side g (cell :: cells) =
      (cellSample side cell.1 cell.2 (draw g 0) (draw g 1) ::
        (drawCells side (after α g 2) cells).1, (drawCells (α := α) side (after α g 2) cells).2) :=
  rfl

/-- Each cell draws two numbers. -/
theorem fst_drawCells (side : Nat) (g : γ) (cells : List (Nat × Nat)) :
    (drawCells (α := α) side g cells).1 = cells.mapIdx fun i cell =>
      cellSample side cell.1 cell.2 (draw g (2 * i)) (draw g (2 * i + 1)) := by
  induction cells generalizing g with
  | nil => rfl
  | cons cell cells ih =>
    have hdraws (i : Nat) : 2 + 2 * i = 2 * (i + 1) := by omega
    rw [drawCells_cons, List.mapIdx_cons, ih]
    simp only [draw_after, ← Nat.add_assoc, hdraws]

theorem snd_drawCells (side : Nat) (g : γ) (cells : List (Nat × Nat)) :
    (drawCells (α := α) side g cells).2 = after α g (2 * cells.length) := by
  induction cells generalizing g with
  | nil => rfl
  | cons cell cells ih =>
    rw [drawCells_cons, ih, after_after, List.length_cons, Nat.mul_succ, Nat.add_comm]

theorem pass_eq (s : StratifiedSphere γ) :
    s.pass (α := α) = ((drawCells s.side s.generator (cells s.side)).1,
      ⟨s.side, (drawCells (α := α) s.side s.generator (cells s.side)).2⟩) :=
  rfl

theorem length_pass (s : StratifiedSphere γ) :
    (s.pass (α := α)).1.length = s.side * s.side := by
  rw [pass_eq, fst_drawCells, List.length_mapIdx, length_cells]

/-- The sample of a cell. -/
theorem getElem?_pass (s : StratifiedSphere γ) {row col : Nat} (hrow : row < s.side)
    (hcol : col < s.side) : (s.pass (α := α)).1[row * s.side + col]? =
      some (cellSample s.side row col (draw s.generator (2 * (row * s.side + col)))
        (draw s.generator (2 * (row * s.side + col) + 1))) := by
  rw [pass_eq, fst_drawCells, List.getElem?_mapIdx, getElem?_cells hrow hcol, Option.map_some]

theorem snd_pass (s : StratifiedSphere γ) :
    (s.pass (α := α)).2 = ⟨s.side, after α s.generator (2 * (s.side * s.side))⟩ := by
  rw [pass_eq, snd_drawCells, length_cells]

variable (α) in
/-- The sampler after some passes. -/
def passes (s : StratifiedSphere γ) (n : Nat) : StratifiedSphere γ :=
  (fun s => (s.pass (α := α)).2)^[n] s

theorem passes_succ (s : StratifiedSphere γ) (n : Nat) :
    s.passes α (n + 1) = ((s.passes α n).pass (α := α)).2 :=
  Function.iterate_succ_apply' ..

/-- A pass goes on where the one before it has ended. -/
theorem passes_eq (s : StratifiedSphere γ) (n : Nat) :
    s.passes α n = ⟨s.side, after α s.generator (2 * (s.side * s.side) * n)⟩ := by
  induction n with
  | zero => rfl
  | succ n ih =>
    rw [passes_succ, ih, snd_pass, after_after, Nat.mul_succ]

theorem length_pass_passes (s : StratifiedSphere γ) (n : Nat) :
    ((s.passes α n).pass (α := α)).1.length = s.side * s.side := by
  rw [length_pass, passes_eq]

/-- The sample of a cell in one of the passes. -/
theorem getElem?_pass_passes (s : StratifiedSphere γ) (n : Nat) {row col : Nat}
    (hrow : row < s.side) (hcol : col < s.side) :
    ((s.passes α n).pass (α := α)).1[row * s.side + col]? =
      some (cellSample s.side row col
        (draw s.generator (2 * (s.side * s.side) * n + 2 * (row * s.side + col)))
        (draw s.generator (2 * (s.side * s.side) * n + 2 * (row * s.side + col) + 1))) := by
  have h := getElem?_pass (α := α)
    ⟨s.side, after α s.generator (2 * (s.side * s.side) * n)⟩ hrow hcol
  simp only [draw_after] at h
  rw [passes_eq, Nat.add_assoc]
  exact h

/-! ### Visits -/

variable {m : Type → Type} [Monad m]

/-- Gives the sample of each cell to a function before the numbers of the next one are drawn. -/
def visitCells (side : Nat) (f : SphereSample α → m Unit) : γ → List (Nat × Nat) → m γ
  | g, [] => pure g
  | g, (row, col) :: cells => do
    let (u, g) := (next g : α × γ)
    let (v, g) := (next g : α × γ)
    f (cellSample side row col u v)
    visitCells side f g cells

/-- A pass that gives each sample to a function, and the sampler for the next pass. -/
def visit (s : StratifiedSphere γ) (f : SphereSample α → m Unit) : m (StratifiedSphere γ) := do
  let g ← visitCells s.side f s.generator (cells s.side)
  pure { s with generator := g }

variable [LawfulMonad m]

theorem visitCells_eq (side : Nat) (f : SphereSample α → m Unit) (g : γ)
    (cells : List (Nat × Nat)) : visitCells side f g cells =
      ((drawCells side g cells).1.forM f >>= fun _ =>
        pure (drawCells (α := α) side g cells).2) := by
  induction cells generalizing g with
  | nil => exact (pure_bind PUnit.unit fun _ => (pure g : m γ)).symm
  | cons cell cells ih =>
    have hcons : visitCells side f g (cell :: cells) =
        (f (cellSample side cell.1 cell.2 (draw g 0) (draw g 1)) >>= fun _ =>
          visitCells side f (after α g 2) cells) := rfl
    rw [hcons, ih, drawCells_cons]
    exact (bind_assoc _ _ _).symm

/-- **Samples do not depend on what is done with them.** -/
theorem visit_eq (s : StratifiedSphere γ) (f : SphereSample α → m Unit) :
    s.visit f = (s.pass.1.forM f >>= fun _ => pure (s.pass (α := α)).2) := by
  rw [visit, visitCells_eq, bind_assoc, pass_eq]
  simp only [pure_bind]

end Draws

end StratifiedSphere

/-! ### Places in a cell -/

/-- A direction at given places in the cell of a row and a column. -/
structure SphereSample.IsAt (side row col : Nat) (u v : ℝ) (s : SphereSample ℝ) : Prop where
  /-- Columns divide the azimuth. -/
  azimuth : s.phi = 2 * Real.pi * ((col + v) / side)
  /-- The angle from the third axis is at most half a turn. -/
  polar : s.theta ∈ Set.Icc 0 Real.pi
  /-- Rows divide the third axis. -/
  height : Real.cos s.theta = 2 * ((row + u) / side) - 1
  /-- The direction is that of the spherical coordinates. -/
  direction : s.dir = ⟨Real.sin s.theta * Real.cos s.phi, Real.sin s.theta * Real.sin s.phi,
    Real.cos s.theta⟩

/-- A place in the cell of one of the rows or columns. -/
theorem cell_place {side i : Nat} (hi : i < side) {x : ℝ} (hx : x ∈ Set.Ico (0 : ℝ) 1) :
    ((i + x) / side : ℝ) ∈ Set.Ico ((i : ℝ) / side) ((i + 1) / side) := by
  have hside : (0 : ℝ) < side := Nat.cast_pos.2 (Nat.zero_lt_of_lt hi)
  exact ⟨div_le_div_of_nonneg_right (le_add_of_nonneg_right hx.1) hside.le,
    div_lt_div_of_pos_right (by linarith [hx.2]) hside⟩

/-- The samples with the height of a row and the azimuth of a column. -/
def stratum (side row col : Nat) : Set (SphereSample ℝ) :=
  {s | Real.cos s.theta ∈ Set.Ico (2 * (row : ℝ) / side - 1) (2 * (row + 1) / side - 1) ∧
    s.phi ∈ Set.Ico (2 * Real.pi * col / side) (2 * Real.pi * (col + 1) / side)}

section Strata

variable {side row col : Nat} {u v : ℝ} {s : SphereSample ℝ}

theorem SphereSample.IsAt.mem_stratum (h : s.IsAt side row col u v) (hrow : row < side)
    (hcol : col < side) (hu : u ∈ Set.Ico (0 : ℝ) 1) (hv : v ∈ Set.Ico (0 : ℝ) 1) :
    s ∈ stratum side row col := by
  obtain ⟨hu_lower, hu_upper⟩ := cell_place hrow hu
  obtain ⟨hv_lower, hv_upper⟩ := cell_place hcol hv
  rw [stratum, Set.mem_ofPred_eq, h.height, h.azimuth, mul_div_assoc, mul_div_assoc, mul_div_assoc,
    mul_div_assoc]
  exact ⟨⟨by linarith, by linarith⟩, mul_le_mul_of_nonneg_left hv_lower Real.two_pi_pos.le,
    mul_lt_mul_of_pos_left hv_upper Real.two_pi_pos⟩

theorem eq_of_mem_parts {c x : ℝ} (hc : 0 < c) (hside : 0 < side) {i j : Nat}
    (hi : x ∈ Set.Ico (c * i / side) (c * (i + 1) / side))
    (hj : x ∈ Set.Ico (c * j / side) (c * (j + 1) / side)) : i = j := by
  have hle {i j : Nat} (h : c * i / side < c * (j + 1) / side) : i ≤ j := by
    rw [div_lt_div_iff_of_pos_right (Nat.cast_pos.2 hside), mul_lt_mul_iff_right₀ hc] at h
    exact Nat.lt_succ_iff.1 (by exact_mod_cast h)
  exact (hle (hi.1.trans_lt hj.2)).antisymm (hle (hj.1.trans_lt hi.2))

/-- No sample is in two strata. -/
theorem eq_of_mem_stratum (hside : 0 < side) {row' col' : Nat} (h : s ∈ stratum side row col)
    (h' : s ∈ stratum side row' col') : row = row' ∧ col = col' := by
  have hheight {row col : Nat} (h : s ∈ stratum side row col) :
      Real.cos s.theta + 1 ∈ Set.Ico (2 * (row : ℝ) / side) (2 * (row + 1) / side) :=
    ⟨by linarith [h.1.1], by linarith [h.1.2]⟩
  exact ⟨eq_of_mem_parts two_pos hside (hheight h) (hheight h'),
    eq_of_mem_parts Real.two_pi_pos hside h.2 h'.2⟩

theorem SphereSample.IsAt.lengthSquared (h : s.IsAt side row col u v) :
    s.dir.lengthSquared = 1 := by
  rw [h.direction, Vec3.lengthSquared_eq]
  linear_combination Real.sin s.theta ^ 2 * Real.sin_sq_add_cos_sq s.phi +
    Real.sin_sq_add_cos_sq s.theta

end Strata

namespace StratifiedSphere

theorem isAt_cellSample {side row : Nat} (hrow : row < side) (col : Nat) {u : ℝ}
    (hu : u ∈ Set.Ico (0 : ℝ) 1) (v : ℝ) :
    (cellSample side row col u v).IsAt side row col u v := by
  obtain ⟨hlower, hupper⟩ := cell_place hrow hu
  have hside : (0 : ℝ) < side := Nat.cast_pos.2 (Nat.zero_lt_of_lt hrow)
  have hfirst : (0 : ℝ) ≤ row / side := by positivity
  have hlast : ((row : ℝ) + 1) / side ≤ 1 := by
    rw [div_le_one hside]
    exact_mod_cast hrow
  have hplace (i : Nat) (x : ℝ) : ((i : ℝ) + x) * (((1 : Nat) : ℝ) / side) = (i + x) / side := by
    rw [Nat.cast_one, mul_one_div]
  have hphi : (cellSample side row col u v).phi = 2 * Real.pi * ((col + v) / side) := by
    show ((2 : Nat) : ℝ) * Real.pi * ((col + v) * (((1 : Nat) : ℝ) / side)) = _
    rw [hplace, Nat.cast_ofNat]
  have htheta : (cellSample side row col u v).theta = Real.arccos (2 * ((row + u) / side) - 1) := by
    show Real.arccos (((2 : Nat) : ℝ) * ((row + u) * (((1 : Nat) : ℝ) / side)) - (1 : Nat)) = _
    rw [hplace, Nat.cast_ofNat, Nat.cast_one]
  refine ⟨hphi, ?_, ?_, rfl⟩
  · rw [htheta]
    exact ⟨Real.arccos_nonneg _, Real.arccos_le_pi _⟩
  · rw [htheta, Real.cos_arccos (by linarith) (by linarith)]

/-- The stratum of a sample follows from its place in the pass. -/
theorem mem_stratum_of_getElem? {γ : Type} [Generator γ ℝ] {s : StratifiedSphere γ} {n k : Nat}
    {sample : SphereSample ℝ} (hdraw : ∀ i, (Generator.draw s.generator i : ℝ) ∈ Set.Ico 0 1)
    (h : (s.passes ℝ n).pass.1[k]? = some sample) :
    0 < s.side ∧ sample ∈ stratum s.side (k / s.side) (k % s.side) := by
  have hk : k < s.side * s.side := by
    rw [← length_pass_passes (α := ℝ) s n]
    exact (List.getElem?_eq_some_iff.1 h).1
  have hside : 0 < s.side := Nat.pos_of_mul_pos_right (Nat.zero_lt_of_lt hk)
  have hrow : k / s.side < s.side := Nat.div_lt_of_lt_mul hk
  have hcol : k % s.side < s.side := Nat.mod_lt _ hside
  have hsample := getElem?_pass_passes (α := ℝ) s n hrow hcol
  rw [Nat.div_add_mod', h] at hsample
  rw [Option.some.inj hsample]
  exact ⟨hside, (isAt_cellSample hrow _ (hdraw _) _).mem_stratum hrow hcol (hdraw _) (hdraw _)⟩

theorem weight_mul_sampleCount {γ : Type} {s : StratifiedSphere γ} (hside : 0 < s.side) :
    (s.weight : ℝ) * s.sampleCount = 4 * Real.pi := by
  have hcount : (s.sampleCount : ℝ) ≠ 0 := Nat.cast_ne_zero.2 (Nat.mul_pos hside hside).ne'
  have hfourPi : (Scalar.fourPi : ℝ) = 4 * Real.pi := by
    show ((4 : Nat) : ℝ) * Real.pi = _
    rw [Nat.cast_ofNat]
  have hweight : (s.weight : ℝ) = Scalar.fourPi / (s.sampleCount : ℝ) := if_neg hside.ne'
  rw [hweight, div_mul_cancel₀ _ hcount, hfourPi]

/-- **Every stratum has one sample in every pass.** The grid is the largest one with no more cells
than samples asked for, and their number fits in a word. If all draws are in `[0, 1)`, a sample is
made of the two numbers at its place, counted over all passes and whatever is done with the samples,
and the samples of a pass together have the area of the sphere. -/
theorem passes_stratified :
    (∀ (n : UInt32) (seed stream : UInt64),
      IsGreatest {k : Nat | k * k ≤ n.toNat} (ofSeed Float n seed stream).side ∧
        (ofSeed Float n seed stream).sampleCount < UInt32.size) ∧
    ∀ {γ : Type} [Generator γ ℝ] (s : StratifiedSphere γ),
      (∀ i, (Generator.draw s.generator i : ℝ) ∈ Set.Ico 0 1) →
      (∀ n : Nat,
        ((s.passes ℝ n).pass (α := ℝ)).1.length = s.side * s.side ∧
        (∀ {m : Type → Type} [Monad m] [LawfulMonad m] (f : SphereSample ℝ → m Unit),
          (s.passes ℝ n).visit f =
            ((s.passes ℝ n).pass.1.forM f >>= fun _ => pure (s.passes ℝ (n + 1)))) ∧
        ∀ row col : Nat, row < s.side → col < s.side →
          (∃ sample : SphereSample ℝ,
            (s.passes ℝ n).pass.1[row * s.side + col]? = some sample ∧
            sample.IsAt s.side row col
              (Generator.draw s.generator (2 * (s.side * s.side) * n + 2 * (row * s.side + col)))
              (Generator.draw s.generator
                (2 * (s.side * s.side) * n + 2 * (row * s.side + col) + 1)) ∧
            sample ∈ stratum s.side row col ∧ sample.dir.lengthSquared = 1) ∧
          ∀ (k : Nat) (sample : SphereSample ℝ), (s.passes ℝ n).pass.1[k]? = some sample →
            sample ∈ stratum s.side row col → k = row * s.side + col) ∧
      (0 < s.side → (s.weight : ℝ) * s.sampleCount = 4 * Real.pi) := by
  refine ⟨fun n seed stream => ?_, fun s hdraw => ⟨fun n => ⟨length_pass_passes s n, ?_,
    fun row col hrow hcol => ⟨?_, fun k sample hk hmem => ?_⟩⟩, weight_mul_sampleCount⟩⟩
  · have hside : (ofSeed Float n seed stream).side = sideOf Float n := rfl
    have hgreatest := isGreatest_sideOf n
    rw [← hside] at hgreatest
    exact ⟨hgreatest, hgreatest.1.trans_lt n.toNat_lt⟩
  · intro m _ _ f
    rw [visit_eq, passes_succ]
  · have hat := isAt_cellSample hrow col
      (hdraw (2 * (s.side * s.side) * n + 2 * (row * s.side + col)))
      (Generator.draw s.generator (2 * (s.side * s.side) * n + 2 * (row * s.side + col) + 1))
    exact ⟨_, getElem?_pass_passes s n hrow hcol, hat,
      hat.mem_stratum hrow hcol (hdraw _) (hdraw _), hat.lengthSquared⟩
  · obtain ⟨hside, hmem'⟩ := mem_stratum_of_getElem? hdraw hk
    obtain ⟨hrow', hcol'⟩ := eq_of_mem_stratum hside hmem' hmem
    rw [← hrow', ← hcol', Nat.div_add_mod']

/-- The last row of the largest grid, in the second pass. -/
theorem passes_stratified_largest_count :
    (ofSeed Float 4294967295 42 7).side = 65535 ∧
      (((ofSeed Float 4294967295 42 7).passes ℝ 1).pass (α := ℝ)).1.length = 4294836225 ∧
      ∃ sample : SphereSample ℝ,
        ((ofSeed Float 4294967295 42 7).passes ℝ 1).pass.1[4294770690]? = some sample ∧
        Real.cos sample.theta ∈ Set.Ico (131068 / 65535 - 1 : ℝ) 1 ∧
        sample.phi ∈ Set.Ico 0 (2 * Real.pi / 65535) := by
  obtain ⟨hsides, hpasses⟩ := passes_stratified
  have hlargest : IsGreatest {k : Nat | k * k ≤ (4294967295 : UInt32).toNat} 65535 :=
    ⟨by decide, fun k (hk : k * k ≤ 4294967295) => by nlinarith⟩
  have hside := (hsides 4294967295 42 7).1.unique hlargest
  obtain ⟨hlength, -, hsamples⟩ :=
    (hpasses (ofSeed Float 4294967295 42 7) fun i => Pcg.draw_mem _ i).1 1
  obtain ⟨⟨sample, hsample, -, ⟨hheight, hazimuth⟩, -⟩, -⟩ :=
    hsamples 65534 0 (by omega) (by omega)
  rw [hside] at hlength hsample hheight hazimuth
  refine ⟨hside, hlength, sample, hsample, ?_, ?_⟩
  · norm_num at hheight ⊢
    exact hheight
  · norm_num at hazimuth ⊢
    exact hazimuth

end StratifiedSphere

end RadianceTransfer
