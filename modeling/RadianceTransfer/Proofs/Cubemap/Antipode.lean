import Mathlib
import RadianceTransfer.Proofs.Cubemap.SolidAngle
import RadianceTransfer.Proofs.Harmonics.Parity

/-!
# Antipodal texels

Opposite faces have opposite normals, but what lies opposite a texel is found at the other end of an
axis only if both faces have that axis; if theirs are opposite as well, it is found at the same end.
Which of the two it is differs from one pair of faces to the next.

A direction is seen through one texel only. Of all the faces, the one that a ray goes through is the
one whose normal it goes along farthest, and where it goes through that face gives the column and
the row.

## Main definitions

* `Texel`: a texel of a grid on the six faces, with `Texel.direction` and `Texel.solidAngle`.
* `CubeFace.opposite`, `Texel.antipode`: the other side.

## Main statements

* `Texel.direction_antipode`, `Texel.solidAngle_antipode`: the other side is opposite, and of the
  same size.
* `Texel.direction_injective`: no two texels are seen in one direction.
* `Texel.sum_eq`: sums over the texels, face by face.
-/

namespace RadianceTransfer

theorem Vec3.mk_add_mk (a b c a' b' c' : ℝ) :
    (⟨a, b, c⟩ + ⟨a', b', c'⟩ : Vec3 ℝ) = ⟨a + a', b + b', c + c'⟩ :=
  rfl

theorem Vec3.neg_mk (a b c : ℝ) : -(⟨a, b, c⟩ : Vec3 ℝ) = ⟨-a, -b, -c⟩ :=
  rfl

/-! ### Faces -/

namespace CubeFace

/-- The face on the other side. -/
def opposite : CubeFace → CubeFace
  | negX => posX
  | posX => negX
  | posY => negY
  | negY => posY
  | posZ => negZ
  | negZ => posZ

/-- The faces by their numbers. -/
def numbering : Fin all.length ≃ CubeFace :=
  List.Nodup.getEquivOfForallMemList all (by decide) fun f => by cases f <;> decide

/-- The point of a face at two coordinates. -/
def ray : CubeFace → ℝ → ℝ → Vec3 ℝ
  | negX, u, v => ⟨-1, -v, u⟩
  | posX, u, v => ⟨1, -v, u⟩
  | posY, u, v => ⟨u, 1, v⟩
  | negY, u, v => ⟨u, -1, -v⟩
  | posZ, u, v => ⟨u, -v, 1⟩
  | negZ, u, v => ⟨-u, -v, -1⟩

section Ray

variable {f g : CubeFace} {u v u' v' : ℝ}

theorem ray_eq (f : CubeFace) (u v : ℝ) :
    f.ray u v = f.basis.xAxis.scale u + f.basis.yAxis.scale v + f.basis.normal := by
  cases f <;>
    simp [basis, ray, FieldFunctions.zero_eq, FieldFunctions.one_eq, Vec3.scale, Vec3.mk_add_mk]

theorem normal_dot_ray (f : CubeFace) (u v : ℝ) : f.basis.normal.dot (f.ray u v) = 1 := by
  cases f <;> simp [basis, ray, FieldFunctions.zero_eq, FieldFunctions.one_eq, Vec3.dot]

theorem xAxis_dot_ray (f : CubeFace) (u v : ℝ) : f.basis.xAxis.dot (f.ray u v) = u := by
  cases f <;> simp [basis, ray, FieldFunctions.zero_eq, FieldFunctions.one_eq, Vec3.dot]

theorem yAxis_dot_ray (f : CubeFace) (u v : ℝ) : f.basis.yAxis.dot (f.ray u v) = v := by
  cases f <;> simp [basis, ray, FieldFunctions.zero_eq, FieldFunctions.one_eq, Vec3.dot]

/-- Inside a face no other normal goes as far as its own. -/
theorem normal_dot_ray_lt (hne : g ≠ f) (hu : |u| < 1) (hv : |v| < 1) :
    g.basis.normal.dot (f.ray u v) < 1 := by
  rw [abs_lt] at hu hv
  cases f <;> cases g <;>
    simp [basis, ray, FieldFunctions.zero_eq, FieldFunctions.one_eq, Vec3.dot] at hne ⊢ <;> linarith

/-- On the border of a face no other normal goes farther. -/
theorem normal_dot_ray_le (g f : CubeFace) (hu : |u| ≤ 1) (hv : |v| ≤ 1) :
    g.basis.normal.dot (f.ray u v) ≤ 1 := by
  rw [abs_le] at hu hv
  cases f <;> cases g <;>
    simp [basis, ray, FieldFunctions.zero_eq, FieldFunctions.one_eq, Vec3.dot] <;> linarith

theorem ray_ne_zero (f : CubeFace) (u v : ℝ) : f.ray u v ≠ ⟨0, 0, 0⟩ := by
  intro h
  have hone := normal_dot_ray f u v
  rw [h] at hone
  simp [Vec3.dot] at hone

/-- A ray through the inside of a face goes through no other point of any face, even on its
border. -/
theorem scale_ray_injective {r r' : ℝ} (hr : 0 < r) (hr' : 0 < r') (hu : |u| < 1) (hv : |v| < 1)
    (hu' : |u'| ≤ 1) (hv' : |v'| ≤ 1) (h : (f.ray u v).scale r = (g.ray u' v').scale r') :
    f = g ∧ u = u' ∧ v = v' := by
  have hface : f = g := by
    by_contra hne
    have hf := congrArg f.basis.normal.dot h
    have hg := congrArg g.basis.normal.dot h
    rw [Vec3.dot_scale, Vec3.dot_scale, normal_dot_ray] at hf hg
    -- each of the two factors would have to be the smaller one
    have hlt := normal_dot_ray_lt (Ne.symm hne) hu hv
    have hle := normal_dot_ray_le f g hu' hv'
    nlinarith
  subst hface
  have hn := congrArg f.basis.normal.dot h
  have hx := congrArg f.basis.xAxis.dot h
  have hy := congrArg f.basis.yAxis.dot h
  rw [Vec3.dot_scale, Vec3.dot_scale, normal_dot_ray, normal_dot_ray, mul_one, mul_one] at hn
  rw [Vec3.dot_scale, Vec3.dot_scale, xAxis_dot_ray, xAxis_dot_ray, hn] at hx
  rw [Vec3.dot_scale, Vec3.dot_scale, yAxis_dot_ray, yAxis_dot_ray, hn] at hy
  exact ⟨rfl, mul_left_cancel₀ hr'.ne' hx, mul_left_cancel₀ hr'.ne' hy⟩

/-- The direction of a ray has gone through one point of one face. -/
theorem ray_normalize_injective (hu : |u| < 1) (hv : |v| < 1) (hu' : |u'| < 1) (hv' : |v'| < 1)
    (h : (f.ray u v).normalize = (g.ray u' v').normalize) : f = g ∧ u = u' ∧ v = v' := by
  obtain ⟨r, hr, hray⟩ :=
    Vec3.exists_eq_scale_of_normalize_eq (ray_ne_zero f u v) (ray_ne_zero g u' v') h
  have hone : (f.ray u v).scale 1 = f.ray u v := Vec3.ext (mul_one _) (mul_one _) (mul_one _)
  exact scale_ray_injective one_pos hr hu hv hu'.le hv'.le (hone.trans hray)

end Ray

end CubeFace

/-! ### Texels -/

/-- A texel of a grid on the six faces. -/
@[ext]
structure Texel (width height : Nat) where
  /-- The face it is on. -/
  face : CubeFace
  /-- Its column. -/
  column : Fin width
  /-- Its row. -/
  row : Fin height

namespace Texel

variable {width height : Nat}

/-- The texels by the numbers of their faces, their rows and their columns. -/
def numbering : Fin CubeFace.all.length × Fin height × Fin width ≃ Texel width height where
  toFun p := ⟨CubeFace.numbering p.1, p.2.2, p.2.1⟩
  invFun t := ⟨CubeFace.numbering.symm t.face, t.row, t.column⟩
  left_inv p := by simp
  right_inv t := by simp

instance : Fintype (Texel width height) :=
  Fintype.ofEquiv _ numbering

/-- A sum over the texels goes face by face and row by row. -/
theorem sum_eq (f : Texel width height → ℝ) :
    ∑ t, f t = ∑ face, ∑ y, ∑ x, f (numbering (face, y, x)) := by
  rw [← numbering.sum_comp, Fintype.sum_prod_type]
  exact Finset.sum_congr rfl fun face _ => Fintype.sum_prod_type _

variable (t : Texel width height)

/-- Where it is seen. -/
noncomputable def direction : Vec3 ℝ :=
  texelDirection t.face t.column t.row width height

/-- How much of the sphere it covers. -/
noncomputable def solidAngle : ℝ :=
  texelSolidAngle t.column t.row width height

/-- The texel on the other side. -/
def antipode : Texel width height :=
  match t.face with
  | .negX | .posX => ⟨t.face.opposite, t.column.rev, t.row.rev⟩
  | .negY | .posY => ⟨t.face.opposite, t.column.rev, t.row⟩
  | .negZ | .posZ => ⟨t.face.opposite, t.column, t.row.rev⟩

theorem face_antipode : t.antipode.face = t.face.opposite := by
  obtain ⟨f, x, y⟩ := t
  cases f <;> rfl

theorem antipode_involutive : Function.Involutive (@antipode width height) := by
  rintro ⟨f, x, y⟩
  cases f <;> simp [antipode, CubeFace.opposite]

theorem solidAngle_antipode : t.antipode.solidAngle = t.solidAngle := by
  obtain ⟨f, x, y⟩ := t
  cases f <;>
    simp only [antipode, solidAngle, texelSolidAngle_rev_column, texelSolidAngle_rev_row]

/-- The center of the texel on its face. -/
noncomputable def center : Vec3 ℝ :=
  t.face.ray (texelCoordinate t.column width) (texelCoordinate t.row height)

theorem direction_eq : t.direction = t.center.normalize := by
  rw [center, CubeFace.ray_eq]
  rfl

theorem direction_ne_zero : t.direction ≠ ⟨0, 0, 0⟩ := by
  have hunit := Vec3.lengthSquared_normalize (CubeFace.ray_ne_zero t.face
    (texelCoordinate t.column width) (texelCoordinate t.row height))
  intro h
  rw [direction_eq, center] at h
  rw [h, Vec3.lengthSquared_eq] at hunit
  norm_num at hunit

theorem center_antipode : t.antipode.center = -t.center := by
  obtain ⟨f, x, y⟩ := t
  cases f <;>
    simp only [antipode, center, CubeFace.opposite, CubeFace.ray, texelCoordinate_rev, Vec3.neg_mk,
      neg_neg]

theorem direction_antipode : t.antipode.direction = -t.direction := by
  rw [direction_eq, direction_eq, center_antipode, Vec3.normalize_neg]

theorem direction_injective : Function.Injective (@direction width height) := by
  intro t t' h
  rw [direction_eq, direction_eq] at h
  obtain ⟨hface, hcolumn, hrow⟩ := CubeFace.ray_normalize_injective (abs_texelCoordinate_lt _)
    (abs_texelCoordinate_lt _) (abs_texelCoordinate_lt _) (abs_texelCoordinate_lt _) h
  exact Texel.ext hface (texelCoordinate_injective _ _ hcolumn) (texelCoordinate_injective _ _ hrow)

/-- There is no other texel in the opposite direction. -/
theorem eq_antipode {t t' : Texel width height} (h : t'.direction = -t.direction) :
    t' = t.antipode :=
  direction_injective (h.trans t.direction_antipode.symm)

/-- All the texels cover the whole sphere. -/
theorem sum_solidAngle (hwidth : 0 < width) (hheight : 0 < height) :
    ∑ t : Texel width height, t.solidAngle = 4 * Real.pi := by
  rw [sum_eq]
  calc ∑ face, ∑ y, ∑ x, (numbering (face, y, x)).solidAngle
      = ∑ _face : Fin CubeFace.all.length, 4 * Real.pi / 6 :=
        Finset.sum_congr rfl fun _ _ => sum_texelSolidAngle hwidth hheight
    _ = 4 * Real.pi := by
        rw [Fin.sum_const, nsmul_eq_mul]
        show (6 : ℕ) * (4 * Real.pi / 6) = 4 * Real.pi
        ring

end Texel

end RadianceTransfer
