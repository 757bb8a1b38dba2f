import Mathlib
import RadianceTransfer.Proofs.Cubemap.Antipode

/-!
# Cells

Each texel has the directions that go through its face between the lines around it. A line belongs
to the texel after it, so no direction through the inside of a face is in two cells or in none.
Which face a direction goes through is decided by its largest component: the face whose normal it
goes along farther than along the two axes of the face. Where two components are equally large, it
goes through an edge of the cube.

## Main definitions

* `Vec3.HasLargest`: one component is farther from zero than the others.
* `Texel.cell`: the directions seen through a texel.

## Main statements

* `mem_lines_iff`: between which lines a coordinate lies.
* `CubeFace.exists_ray`: where a direction goes through the cube.
* `Texel.cells_tile`: every direction is in one cell.
-/

namespace RadianceTransfer

/-! ### Lines -/

section Lines

variable {n : Nat} {u : ℝ}

/-- Between which lines a coordinate lies. -/
theorem mem_lines_iff (hn : 0 < n) (hu : -1 ≤ u) (i : Nat) :
    u ∈ Set.Ico (gridLine n i) (gridLine n (i + 1)) ↔ ⌊(u + 1) / 2 * n⌋₊ = i := by
  have hpos : (0 : ℝ) < n := Nat.cast_pos.2 hn
  have hline (k : Nat) : gridLine n k ≤ u ↔ (k : ℝ) ≤ (u + 1) / 2 * n := by
    rw [gridLine, sub_le_iff_le_add, div_le_iff₀ hpos]
    constructor <;> intro h <;> linarith
  have hplace : 0 ≤ (u + 1) / 2 * n := mul_nonneg (by linarith) hpos.le
  rw [Nat.floor_eq_iff hplace, Set.mem_Ico, hline, ← not_le, hline, not_le, Nat.cast_succ]

theorem abs_le_one_of_mem_lines (i : Fin n)
    (h : u ∈ Set.Ico (gridLine n i) (gridLine n (i + 1))) : |u| ≤ 1 := by
  have hmono := (gridLine_strictMono i.pos).monotone
  have hfirst : -1 ≤ gridLine n i := gridLine_zero n ▸ hmono (Nat.zero_le i)
  have hlast : gridLine n (i + 1) ≤ 1 := gridLine_last i.pos ▸ hmono i.isLt
  exact abs_le.2 ⟨hfirst.trans h.1, h.2.le.trans hlast⟩

/-- Inside the square a coordinate lies between two lines. -/
theorem exists_mem_lines (hn : 0 < n) (hu : |u| < 1) :
    ∃ i : Fin n, u ∈ Set.Ico (gridLine n i) (gridLine n (i + 1)) := by
  obtain ⟨hlower, hupper⟩ := abs_lt.1 hu
  have hpos : (0 : ℝ) < n := Nat.cast_pos.2 hn
  have hlt : ⌊(u + 1) / 2 * n⌋₊ < n := by
    rw [Nat.floor_lt' hn.ne']
    nlinarith
  exact ⟨⟨_, hlt⟩, (mem_lines_iff hn hlower.le _).2 rfl⟩

/-- It does not lie between two others. -/
theorem eq_of_mem_lines {i j : Fin n} (hi : u ∈ Set.Ico (gridLine n i) (gridLine n (i + 1)))
    (hj : u ∈ Set.Ico (gridLine n j) (gridLine n (j + 1))) : i = j := by
  have hu := (abs_le.1 (abs_le_one_of_mem_lines i hi)).1
  exact Fin.ext (((mem_lines_iff i.pos hu i).1 hi).symm.trans ((mem_lines_iff i.pos hu j).1 hj))

theorem texelCoordinate_mem_lines (i : Fin n) :
    texelCoordinate i n ∈ Set.Ico (gridLine n i) (gridLine n (i + 1)) := by
  have hhalf : 0 < (1 : ℝ) / Scalar.ofNat n := one_div_pos.2 (Nat.cast_pos.2 i.pos)
  rw [← texelCoordinate_sub, ← texelCoordinate_add]
  exact ⟨sub_le_self _ hhalf.le, lt_add_of_pos_right _ hhalf⟩

end Lines

/-! ### Faces -/

/-- One component is farther from zero than the two others. -/
def Vec3.HasLargest (d : Vec3 ℝ) : Prop :=
  ∃ i, ∀ j, j ≠ i → |d.get j| < |d.get i|

namespace CubeFace

variable {f : CubeFace} {d : Vec3 ℝ}

/-- A direction with a largest component goes along one of the normals farther than along the axes
of that face. -/
theorem exists_face (h : d.HasLargest) : ∃ f : CubeFace,
    |f.basis.xAxis.dot d| < f.basis.normal.dot d ∧
      |f.basis.yAxis.dot d| < f.basis.normal.dot d := by
  obtain ⟨i, hi⟩ := h
  cases i with
  | x =>
    have hy : |d.y| < |d.x| := hi .y (by decide)
    have hz : |d.z| < |d.x| := hi .z (by decide)
    rcases lt_or_ge d.x 0 with hneg | hpos
    · rw [abs_of_neg hneg] at hy hz
      refine ⟨negX, ?_⟩
      simpa [basis, FieldFunctions.zero_eq, FieldFunctions.one_eq, Vec3.dot] using ⟨hz, hy⟩
    · rw [abs_of_nonneg hpos] at hy hz
      refine ⟨posX, ?_⟩
      simpa [basis, FieldFunctions.zero_eq, FieldFunctions.one_eq, Vec3.dot] using ⟨hz, hy⟩
  | y =>
    have hx : |d.x| < |d.y| := hi .x (by decide)
    have hz : |d.z| < |d.y| := hi .z (by decide)
    rcases lt_or_ge d.y 0 with hneg | hpos
    · rw [abs_of_neg hneg] at hx hz
      refine ⟨negY, ?_⟩
      simpa [basis, FieldFunctions.zero_eq, FieldFunctions.one_eq, Vec3.dot] using ⟨hx, hz⟩
    · rw [abs_of_nonneg hpos] at hx hz
      refine ⟨posY, ?_⟩
      simpa [basis, FieldFunctions.zero_eq, FieldFunctions.one_eq, Vec3.dot] using ⟨hx, hz⟩
  | z =>
    have hx : |d.x| < |d.z| := hi .x (by decide)
    have hy : |d.y| < |d.z| := hi .y (by decide)
    rcases lt_or_ge d.z 0 with hneg | hpos
    · rw [abs_of_neg hneg] at hx hy
      refine ⟨negZ, ?_⟩
      simpa [basis, FieldFunctions.zero_eq, FieldFunctions.one_eq, Vec3.dot] using ⟨hx, hy⟩
    · rw [abs_of_nonneg hpos] at hx hy
      refine ⟨posZ, ?_⟩
      simpa [basis, FieldFunctions.zero_eq, FieldFunctions.one_eq, Vec3.dot] using ⟨hx, hy⟩

/-- Where a direction goes through the plane of a face. -/
theorem eq_scale_ray (h : f.basis.normal.dot d ≠ 0) :
    d = (f.ray (f.basis.xAxis.dot d / f.basis.normal.dot d)
      (f.basis.yAxis.dot d / f.basis.normal.dot d)).scale (f.basis.normal.dot d) := by
  cases f <;>
    simp [basis, ray, FieldFunctions.zero_eq, FieldFunctions.one_eq, Vec3.dot, Vec3.scale] at h ⊢ <;>
    ext <;> simp <;> field_simp

/-- A direction with a largest component goes through the inside of a face. -/
theorem exists_ray (h : d.HasLargest) : ∃ (f : CubeFace) (u v r : ℝ),
    |u| < 1 ∧ |v| < 1 ∧ 0 < r ∧ d = (f.ray u v).scale r := by
  obtain ⟨f, hx, hy⟩ := exists_face h
  have hr : 0 < f.basis.normal.dot d := (abs_nonneg _).trans_lt hx
  refine ⟨f, _, _, _, ?_, ?_, hr, eq_scale_ray hr.ne'⟩
  · rwa [abs_div, abs_of_pos hr, div_lt_one hr]
  · rwa [abs_div, abs_of_pos hr, div_lt_one hr]

end CubeFace

/-! ### Texels -/

namespace Texel

variable {width height : Nat} {t : Texel width height} {d : Vec3 ℝ}

/-- The directions seen through a texel: those that go through its face from the line before its
column up to the next one, and likewise for its row. -/
def cell (t : Texel width height) : Set (Vec3 ℝ) :=
  {d | ∃ u ∈ Set.Ico (gridLine width t.column) (gridLine width (t.column + 1)),
    ∃ v ∈ Set.Ico (gridLine height t.row) (gridLine height (t.row + 1)), ∃ r : ℝ, 0 < r ∧
      d = (t.face.basis.xAxis.scale u + t.face.basis.yAxis.scale v + t.face.basis.normal).scale r}

theorem mem_cell_iff :
    d ∈ t.cell ↔ ∃ u ∈ Set.Ico (gridLine width t.column) (gridLine width (t.column + 1)),
      ∃ v ∈ Set.Ico (gridLine height t.row) (gridLine height (t.row + 1)), ∃ r : ℝ, 0 < r ∧
        d = (t.face.ray u v).scale r := by
  simp only [CubeFace.ray_eq]
  rfl

/-- The texel is seen through itself. -/
theorem direction_mem_cell (t : Texel width height) : t.direction ∈ t.cell := by
  have hpos := Vec3.lengthSquared_pos (CubeFace.ray_ne_zero t.face
    (texelCoordinate t.column width) (texelCoordinate t.row height))
  refine mem_cell_iff.2 ⟨_, texelCoordinate_mem_lines _, _, texelCoordinate_mem_lines _, _,
    one_div_pos.2 (Real.sqrt_pos.2 hpos), ?_⟩
  rw [direction_eq, Vec3.normalize_eq]
  rfl

theorem length_direction (t : Texel width height) : t.direction.length = 1 := by
  have hunit := Vec3.lengthSquared_normalize (CubeFace.ray_ne_zero t.face
    (texelCoordinate t.column width) (texelCoordinate t.row height))
  rw [direction_eq, center, Vec3.length, hunit]
  exact Real.sqrt_one

/-- Every direction with a largest component is seen through one texel. -/
theorem existsUnique_cell (hwidth : 0 < width) (hheight : 0 < height) (h : d.HasLargest) :
    ∃! t : Texel width height, d ∈ t.cell := by
  obtain ⟨f, u, v, r, hu, hv, hr, rfl⟩ := CubeFace.exists_ray h
  obtain ⟨x, hx⟩ := exists_mem_lines hwidth hu
  obtain ⟨y, hy⟩ := exists_mem_lines hheight hv
  refine ⟨⟨f, x, y⟩, mem_cell_iff.2 ⟨u, hx, v, hy, r, hr, rfl⟩, fun t ht => ?_⟩
  obtain ⟨u', hu', v', hv', r', hr', h⟩ := mem_cell_iff.1 ht
  obtain ⟨hface, rfl, rfl⟩ := CubeFace.scale_ray_injective hr hr' hu hv
    (abs_le_one_of_mem_lines _ hu') (abs_le_one_of_mem_lines _ hv') h
  exact Texel.ext hface.symm (eq_of_mem_lines hu' hx) (eq_of_mem_lines hv' hy)

/-- **The cells tile the sphere.** Every direction with a largest component is in the cell of one
texel. The direction of a texel is a unit vector of its own cell, so no two texels have the same
one. -/
theorem cells_tile (hwidth : 0 < width) (hheight : 0 < height) :
    (∀ d : Vec3 ℝ, d.HasLargest → ∃! t : Texel width height, d ∈ t.cell) ∧
      (∀ t : Texel width height, t.direction.length = 1 ∧ t.direction ∈ t.cell) ∧
      ∀ t t' : Texel width height, t.direction = t'.direction → t = t' :=
  ⟨fun _ => existsUnique_cell hwidth hheight,
    fun t => ⟨t.length_direction, t.direction_mem_cell⟩, fun _ _ h => direction_injective h⟩

/-- A direction through a point where four texels meet belongs to the last one of them. -/
theorem cells_tile_meeting : 0 < 2 ∧ 0 < 4 ∧ (⟨0, 0, -3⟩ : Vec3 ℝ).HasLargest ∧
    ∀ t : Texel 2 4, ⟨0, 0, -3⟩ ∈ t.cell ↔ t = ⟨.negZ, 1, 2⟩ := by
  have hlargest : (⟨0, 0, -3⟩ : Vec3 ℝ).HasLargest := by
    refine ⟨.z, fun j hj => ?_⟩
    cases j with
    | x => norm_num [Vec3.get]
    | y => norm_num [Vec3.get]
    | z => exact absurd rfl hj
  have hmem : (⟨0, 0, -3⟩ : Vec3 ℝ) ∈ (⟨.negZ, 1, 2⟩ : Texel 2 4).cell := by
    refine mem_cell_iff.2 ⟨0, ?_, 0, ?_, 3, by norm_num, ?_⟩
    · norm_num [gridLine]
    · norm_num [gridLine]
    · norm_num [CubeFace.ray, Vec3.scale]
  obtain ⟨htile, -⟩ := cells_tile (show 0 < 2 by decide) (show 0 < 4 by decide)
  refine ⟨by decide, by decide, hlargest, fun t => ⟨fun ht => ?_, fun ht => ht ▸ hmem⟩⟩
  exact (htile _ hlargest).unique ht hmem

end Texel

end RadianceTransfer
