import Mathlib
import RadianceTransfer.Proofs.Cubemap.Antipode
import RadianceTransfer.Proofs.Transport.Texels

/-!
# Environments without odd degrees

The texels come in pairs that lie opposite each other and are of the same size. A function of odd
degree has opposite values at the two, so if they have the same color, what they contribute to its
coefficient cancels. This is so for an environment of a single color. There the constant function
takes what all texels contribute together, and that adds up to the area of the sphere.

## Main definitions

* `CubeMap.colorAt`: the color of a texel.
* `CubeMap.IsSymmetric`: antipodal texels have the same color.
* `CubeMap.painted`: a cubemap with faces of a single color.

## Main statements

* `projectEnvironment_symmetric`: antipodal texels, symmetric environments and uniform ones.
-/

namespace RadianceTransfer

open Harmonics

/-! ### Colors of texels -/

namespace CubeMap

/-- The color of a texel. -/
def colorAt {α : Type} (map : CubeMap α) (t : Texel map.width map.height) : Color α :=
  map.color (CubeFace.numbering.symm t.face) t.row t.column

/-- Texels in opposite directions have the same color. -/
def IsSymmetric (map : CubeMap ℝ) : Prop :=
  ∀ t t' : Texel map.width map.height, t'.direction = -t.direction → map.colorAt t' = map.colorAt t

theorem isSymmetric_of_uniform {map : CubeMap ℝ} {c : Color ℝ} (h : ∀ t, map.colorAt t = c) :
    map.IsSymmetric := fun t t' _ => (h t').trans (h t).symm

/-- The cubemap whose faces have one color each. -/
def painted {α : Type} {width height : Nat} (hwidth : 0 < width) (hheight : 0 < height)
    (paint : CubeFace → Color α) : CubeMap α where
  width := width
  height := height
  faces := CubeFace.all.map fun f => Array.replicate (width * height) (paint f)
  length_faces := List.length_map _
  width_pos := hwidth
  height_pos := hheight
  size_face f hf := by
    obtain ⟨face, -, rfl⟩ := List.mem_map.1 hf
    exact Array.size_replicate

theorem colorAt_painted {α : Type} {width height : Nat} (hwidth : 0 < width)
    (hheight : 0 < height) (paint : CubeFace → Color α)
    (t : Texel (painted hwidth hheight paint).width (painted hwidth hheight paint).height) :
    (painted hwidth hheight paint).colorAt t = paint t.face := by
  have hface : CubeFace.all[(CubeFace.numbering.symm t.face).val] = t.face :=
    CubeFace.numbering.apply_symm_apply t.face
  simp [colorAt, color, painted, hface]

/-- It is symmetric if opposite faces have the same color. -/
theorem isSymmetric_painted {width height : Nat} (hwidth : 0 < width) (hheight : 0 < height)
    {paint : CubeFace → Color ℝ} (h : ∀ f, paint f.opposite = paint f) :
    (painted hwidth hheight paint).IsSymmetric := by
  intro t t' ht
  rw [colorAt_painted, colorAt_painted, Texel.eq_antipode ht, Texel.face_antipode, h]

end CubeMap

/-! ### Coefficients -/

variable (map : CubeMap ℝ)

/-- What a texel contributes to the coefficient of a function. -/
noncomputable def contribution (k : Channel) (l : Nat) (m : Int)
    (t : Texel map.width map.height) : ℝ :=
  eval l m t.direction * t.solidAngle * (map.colorAt t).get k

/-- A coefficient adds up what the texels contribute. -/
theorem sum_contribution (k : Channel) {l : Nat} {m : Int} (hm : m.natAbs ≤ l) :
    ∑ t, contribution map k l m t =
      ∑ face, ∑ y, ∑ x, texelTerm map k (flatIndex l m) face y x := by
  have hterm (face : Fin CubeFace.all.length) (y : Fin map.height) (x : Fin map.width) :
      contribution map k l m (Texel.numbering (face, y, x)) =
        texelTerm map k (flatIndex l m) face y x := by
    have hcolor : map.colorAt (Texel.numbering (face, y, x)) = map.color face y x :=
      congrArg (map.color · y x) (CubeFace.numbering.symm_apply_apply face)
    rw [contribution, texelTerm, degreeOrder_flatIndex hm, hcolor]
    rfl
  simp only [Texel.sum_eq, hterm]

theorem sum_contribution_odd (hsymmetric : map.IsSymmetric) (k : Channel) {l : Nat} (hl : Odd l)
    {m : Int} (hm : m.natAbs ≤ l) : ∑ t, contribution map k l m t = 0 := by
  have hopposite (t : Texel map.width map.height) :
      contribution map k l m t.antipode = -contribution map k l m t := by
    rw [contribution, contribution, hsymmetric t t.antipode t.direction_antipode,
      t.direction_antipode, t.solidAngle_antipode, eval_neg hm t.direction_ne_zero, hl.neg_one_pow]
    ring
  have hsum := Equiv.sum_comp Texel.antipode_involutive.toPerm (contribution map k l m)
  simp only [Function.Involutive.coe_toPerm, hopposite, Finset.sum_neg_distrib] at hsum
  exact neg_eq_self.1 hsum

theorem sum_contribution_uniform {c : Color ℝ} (huniform : ∀ t, map.colorAt t = c) (k : Channel) :
    ∑ t, contribution map k 0 0 t = c.get k * (4 * Real.pi * k00) := by
  have hterm (t : Texel map.width map.height) :
      contribution map k 0 0 t = k00 * c.get k * t.solidAngle := by
    have heval : eval 0 0 t.direction = (k00 : ℝ) := rfl
    rw [contribution, heval, huniform]
    ring
  simp only [hterm]
  rw [← Finset.mul_sum, Texel.sum_solidAngle map.width_pos map.height_pos]
  ring

theorem getElem?_eq_some_of_channels {coeffs : List (Color ℝ)} {i : Nat} (hi : i < coeffs.length)
    {c : Color ℝ} (h : ∀ k, channelAt k i coeffs = c.get k) : coeffs[i]? = some c := by
  have hget : coeffs.getD i .black = coeffs[i] := List.getD_eq_getElem _ _ hi
  simp only [channelAt, hget] at h
  rw [List.getElem?_eq_getElem hi]
  exact congrArg some (Color.ext (h .red) (h .green) (h .blue))

/-- **A symmetric environment has no odd degrees.** Opposite every texel there is one other, on the
opposite face. If the texels of all such pairs have equal colors, the coefficients of the odd
degrees are zero. If all texels have one color, this is so, and the first coefficient is that color,
times the value of the constant function and the area of the sphere. -/
theorem projectEnvironment_symmetric (order : Nat) (threads : ThreadParam) :
    (∀ t : Texel map.width map.height, ∃ t' : Texel map.width map.height,
      t'.direction = -t.direction ∧ t'.face = t.face.opposite ∧
        ∀ s : Texel map.width map.height, s.direction = -t.direction → s = t') ∧
    ∃ coeffs,
      projectEnvironment map order false threads =
          (if HasRoom (3 * coefficientCount order) then .ok ⟨coeffs⟩ else violate .capacity) ∧
        coeffs.length = coefficientCount order ∧
        (map.IsSymmetric → ∀ l ≤ order, Odd l → ∀ m : Int, m.natAbs ≤ l →
          coeffs[flatIndex l m]? = some .black) ∧
        ∀ c, (∀ t, map.colorAt t = c) →
          coeffs[0]? = some (c.scale (4 * Real.pi * k00)) ∧
          ∀ l ≤ order, Odd l → ∀ m : Int, m.natAbs ≤ l → coeffs[flatIndex l m]? = some .black := by
  refine ⟨fun t => ⟨t.antipode, t.direction_antipode, t.face_antipode, fun s => Texel.eq_antipode⟩,
    addParts (LightCoeffs.zero order).coeffs (rowSums map order),
    projectEnvironment_eq map order threads, ?_⟩
  generalize hcoeffs : addParts (LightCoeffs.zero order).coeffs (rowSums map order) = coeffs
  have hlength : coeffs.length = coefficientCount order := by
    rw [← hcoeffs, length_addParts, LightCoeffs.zero, List.length_replicate]
  have hsum {l : Nat} (hl : l ≤ order) {m : Int} (hm : m.natAbs ≤ l) (k : Channel) :
      channelAt k (flatIndex l m) coeffs = ∑ t, contribution map k l m t := by
    rw [← hcoeffs, channelAt_rowSums map order k (flatIndex_lt hm hl), sum_contribution map k hm]
  have hodd (hsymmetric : map.IsSymmetric) (l : Nat) (hl : l ≤ order) (hlodd : Odd l) (m : Int)
      (hm : m.natAbs ≤ l) : coeffs[flatIndex l m]? = some .black := by
    refine getElem?_eq_some_of_channels (hlength ▸ flatIndex_lt hm hl) fun k => ?_
    rw [hsum hl hm, sum_contribution_odd map hsymmetric k hlodd hm, get_black]
  refine ⟨hlength, hodd, fun c huniform => ⟨?_, hodd (CubeMap.isSymmetric_of_uniform huniform)⟩⟩
  refine getElem?_eq_some_of_channels (hlength ▸ coefficientCount_pos order) fun k => ?_
  have hzero : (0 : Int).natAbs ≤ 0 := le_rfl
  have hfirst : channelAt k 0 coeffs = ∑ t, contribution map k 0 0 t :=
    hsum (Nat.zero_le order) hzero k
  rw [hfirst, get_scale, sum_contribution_uniform map huniform]

/-- Two opposite faces are red, and the others are blue. -/
noncomputable def CubeMap.redAndBlue : CubeMap ℝ :=
  painted (Nat.succ_pos 2) (Nat.succ_pos 1) fun f =>
    if f = .negX ∨ f = .posX then ⟨1, 0, 0⟩ else ⟨0, 0, 1⟩

/-- A gray world. -/
noncomputable def CubeMap.gray : CubeMap ℝ :=
  painted (Nat.succ_pos 2) (Nat.succ_pos 1) fun _ => ⟨0.5, 0.5, 0.5⟩

/-- The first one is symmetric without being of a single color. -/
theorem projectEnvironment_redAndBlue_gray :
    (CubeMap.redAndBlue.IsSymmetric ∧
      ∃ coeffs, projectEnvironment .redAndBlue 3 false ⟨2, 4⟩ = .ok ⟨coeffs⟩ ∧
        coeffs[flatIndex 3 (-2)]? = some .black) ∧
    ∃ coeffs, projectEnvironment .gray 3 false ⟨2, 4⟩ = .ok ⟨coeffs⟩ ∧
      coeffs[0]? = some ((⟨0.5, 0.5, 0.5⟩ : Color ℝ).scale (4 * Real.pi * k00)) := by
  have hroom : HasRoom (3 * coefficientCount 3) := by decide
  have hsymmetric : CubeMap.redAndBlue.IsSymmetric :=
    CubeMap.isSymmetric_painted _ _ fun f => by cases f <;> simp [CubeFace.opposite]
  obtain ⟨-, coeffs, hcoeffs, -, hodd, -⟩ := projectEnvironment_symmetric .redAndBlue 3 ⟨2, 4⟩
  obtain ⟨-, coeffs', hcoeffs', -, -, huniform⟩ := projectEnvironment_symmetric .gray 3 ⟨2, 4⟩
  rw [if_pos hroom] at hcoeffs hcoeffs'
  refine ⟨⟨hsymmetric, coeffs, hcoeffs, hodd hsymmetric 3 le_rfl (by decide) (-2) (by decide)⟩,
    coeffs', hcoeffs', ?_⟩
  exact (huniform _ fun t => CubeMap.colorAt_painted _ _ _ t).1

end RadianceTransfer
