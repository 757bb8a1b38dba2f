import Mathlib
import RadianceTransfer.Proofs.Harmonics.Bands
import RadianceTransfer.Proofs.Harmonics.Index
import RadianceTransfer.Proofs.Harmonics.Inverse

/-!
# Rotated expansions

A rotation of expansions applies one matrix to each degree. The matrix of a degree is the inverse
of the values at the sample directions times the values at the directions rotated back. So the
rotated coefficients of a degree are the only ones that have, at the sample directions, the values
that the expansion had at those rotated back. It does not matter what the functions are.

## Main definitions

* `BandRotation.Fits`: what the matrix of a degree does.

## Main statements

* `exists_bandMatrix`: when a degree has a matrix.
* `BandRotation.getD_apply`: the matrix of a degree is applied to its coefficients.
* `BandRotation.degreeSum_apply`, `BandRotation.eq_of_degreeSum`: the rotated coefficients.
-/

namespace RadianceTransfer.Harmonics

open Matrix

variable {K : Type} [Field K] [LinearOrder K] [FloorSemiring K] [FieldFunctions K]

/-! ### One degree -/

/-- The part of one degree of an expansion in a direction of a set. -/
theorem mulVec_bandValues (value : Nat → Int → Vec3 K → K) (l : Nat)
    (dirs : Vector (Vec3 K) (2 * l + 1)) (coeffs : Int → K) (i : Fin (2 * l + 1)) :
    ((bandValues value l dirs).toMatrix *ᵥ fun j => coeffs ((j : Nat) - l)) i =
      ∑ m ∈ Finset.Icc (-l : Int) l, value l m (dirs.get i) * coeffs m := by
  rw [sum_orders, Finset.sum_range, mulVec, dotProduct]
  refine Finset.sum_congr rfl fun j _ => ?_
  rw [SquareMatrix.toMatrix_eq, bandValues, SquareMatrix.get_ofFn]
  rfl

theorem degreeSum_get (value : Nat → Int → Vec3 K → K) (coeffs : List K) (l : Nat)
    (dirs : Vector (Vec3 K) (2 * l + 1)) (i : Fin (2 * l + 1)) :
    degreeSum value coeffs l (dirs.get i) =
      ((bandValues value l dirs).toMatrix *ᵥ fun j => coeffs.getD (l * l + j) 0) i := by
  rw [degreeSum, ← mulVec_bandValues value l dirs fun m => coeffs.getD (flatIndex l m) 0]
  simp only [flatIndex_sub]

namespace BandRotation

/-- The rotated coefficients of a degree. -/
theorem getD_apply {r : BandRotation K} (hr : Ordered 0 r.bands) {coeffs : List K} {b : Band K}
    (hb : b ∈ r.bands) (hlength : coefficientCount b.degree ≤ coeffs.length)
    (k : Fin (2 * b.degree + 1)) :
    (r.apply coeffs).getD (b.degree * b.degree + k) 0 =
      (b.matrix.toMatrix *ᵥ fun j => coeffs.getD (b.degree * b.degree + j) 0) k := by
  obtain ⟨v, hv⟩ := rotates_applyBands hr hb (Nat.zero_add _)
    ((succ_mul_succ_self b.degree).symm.trans_le hlength)
  have hold : (fun j : Fin (2 * b.degree + 1) => coeffs.getD (b.degree * b.degree + j) 0) =
      v.get := by
    ext j
    rw [List.getD_eq_getElem?_getD, (hv j).1, Option.getD_some]
  rw [hold, ← SquareMatrix.get_apply, List.getD_eq_getElem?_getD, apply, (hv k).2, Option.getD_some]

/-! ### The matrices of a rotation -/

/-- What the matrix of a degree does: it takes the values at the sample directions rotated back to
coefficients with these values at the sample directions. -/
structure Fits (value : Nat → Int → Vec3 K → K) (rot : Mat3 K) (b : Band K) : Prop where
  /-- The values are those at the directions rotated back. -/
  mul : (bandValues value b.degree (sampleDirections b.degree)).toMatrix * b.matrix.toMatrix =
    (bandValues value b.degree ((sampleDirections b.degree).map rot.transpose.apply)).toMatrix
  /-- The values at the sample directions determine the coefficients. -/
  injective : ∀ v : Fin (2 * b.degree + 1) → K,
    (bandValues value b.degree (sampleDirections b.degree)).toMatrix *ᵥ v = 0 → v = 0

/-- The coefficient of degree zero stays, if there is one. -/
theorem getElem?_apply_zero {value : Nat → Int → Vec3 K → K} {order : Nat} {rot : Mat3 K}
    {r : BandRotation K} (h : ofFunctions value order rot = .ok r) (coeffs : List K) :
    (r.apply coeffs)[0]? = coeffs[0]? := by
  obtain ⟨bands, hbands, -⟩ := bands_of_ofFunctions h
  rw [apply, hbands]
  cases coeffs with
  | nil => rw [applyBands_of_lt bands (by simp)]
  | cons c coeffs =>
    have hfront : applyBands (⟨0, .identity 1⟩ :: bands) (#v[c].toList ++ coeffs) =
        ((SquareMatrix.identity 1).apply #v[c]).toList ++ applyBands bands coeffs :=
      applyBands_append ⟨0, .identity 1⟩ bands #v[c] coeffs
    have hone : ((SquareMatrix.identity 1).apply #v[c]).get 0 = c := by
      rw [SquareMatrix.get_apply, SquareMatrix.toMatrix_identity, one_mulVec]
      rfl
    have hhead := getElem?_front ((SquareMatrix.identity 1).apply #v[c]) (applyBands bands coeffs) 0
    rw [hone, ← hfront] at hhead
    exact hhead

theorem getD_apply_zero {value : Nat → Int → Vec3 K → K} {order : Nat} {rot : Mat3 K}
    {r : BandRotation K} (h : ofFunctions value order rot = .ok r) (coeffs : List K) :
    (r.apply coeffs).getD 0 0 = coeffs.getD 0 0 := by
  rw [List.getD_eq_getElem?_getD, getElem?_apply_zero h, List.getD_eq_getElem?_getD]

/-- There is a rotation if every degree has a matrix. -/
theorem exists_ofFunctions
    {value : Nat → Int → Vec3 K → K} {order : Nat} {rot : Mat3 K}
    (h : ∀ l, 1 ≤ l → l ≤ order → ∃ m, bandMatrix value l rot.transpose = .ok m) :
    ∃ r, ofFunctions value order rot = .ok r := by
  have hbands : Outcome.Returns (List.Forall₂ (fun _ _ => True) (List.range order))
      ((List.range order).mapM fun l => do
        let matrix ← bandMatrix value (l + 1) rot.transpose
        pure (⟨l + 1, matrix⟩ : Band K)) := by
    refine .mapM fun l hl => ?_
    obtain ⟨m, hm⟩ := h (l + 1) (Nat.le_add_left 1 l) (List.mem_range.1 hl)
    exact ⟨⟨l + 1, m⟩, Outcome.bind_eq_ok_iff.2 ⟨m, hm, rfl⟩, trivial⟩
  obtain ⟨bands, hbands, -⟩ := hbands
  exact ⟨_, Outcome.bind_eq_ok_iff.2 ⟨bands, hbands, rfl⟩⟩

end BandRotation

variable [IsStrictOrderedRing K]

theorem bandMatrix_eq_ok {value : Nat → Int → Vec3 K → K} {l : Nat} {rot : Mat3 K}
    {m : SquareMatrix (2 * l + 1) K} (h : bandMatrix value l rot.transpose = .ok m) :
    BandRotation.Fits value rot ⟨l, m⟩ := by
  rw [bandMatrix] at h
  rcases (bandValues value l (sampleDirections l)).inverse?_cases with
    ⟨inverse, hsome, hleft, hright⟩ | ⟨hnone, -⟩
  · rw [hsome] at h
    cases h
    refine ⟨?_, fun v hv => ?_⟩
    · rw [SquareMatrix.toMatrix_mul, ← mul_assoc, hright, one_mul]
    · rw [← one_mulVec v, ← hleft, ← mulVec_mulVec, hv, mulVec_zero]
  · rw [hnone] at h
    cases h

/-- A degree has a matrix if every coefficient shows at one of the sample directions. -/
theorem exists_bandMatrix {value : Nat → Int → Vec3 K → K} {l : Nat} (invRot : Mat3 K)
    (h : ∀ w : Int → K, (∀ i : Fin (2 * l + 1), |∑ m ∈ Finset.Icc (-l : Int) l,
        value l m ((sampleDirections l).get i) * w m| < 1e-10) →
      ∀ m ∈ Finset.Icc (-l : Int) l, w m ≠ 1) :
    ∃ m, bandMatrix value l invRot = .ok m := by
  rw [bandMatrix]
  rcases (bandValues value l (sampleDirections l)).inverse?_cases with
    ⟨inverse, hsome, -⟩ | ⟨-, v, ⟨j, hj⟩, hsmall⟩
  · rw [hsome]
    exact ⟨_, rfl⟩
  · let w : Int → K := fun m => if hm : (m + l).toNat < 2 * l + 1 then v ⟨_, hm⟩ else 0
    have hw : (fun k : Fin (2 * l + 1) => w ((k : Nat) - l)) = v := by
      ext k
      have hk : ((k : Nat) - l + l : Int).toNat = k := by omega
      simp only [w, hk, k.isLt, dif_pos]
    refine absurd ?_ (h w (fun i => ?_) ((j : Nat) - l) (Finset.mem_Icc.2 (by omega)))
    · exact (congrFun hw j).trans hj
    · rw [← mulVec_bandValues, hw]
      exact hsmall i

namespace BandRotation

variable {value : Nat → Int → Vec3 K → K} {order l : Nat} {rot : Mat3 K} {r : BandRotation K}
  {coeffs : List K}

theorem exists_band (h : ofFunctions value order rot = .ok r) (hpos : 1 ≤ l) (hl : l ≤ order) :
    ∃ m, ⟨l, m⟩ ∈ r.bands ∧ Fits value rot ⟨l, m⟩ := by
  obtain ⟨bands, hr, hordered, hlength, hmatrix⟩ := bands_of_ofFunctions h
  have hmem : l ∈ bands.map Band.degree := by
    rw [hordered, List.mem_range'_1]
    omega
  obtain ⟨b, hb, rfl⟩ := List.mem_map.1 hmem
  exact ⟨b.matrix, hr ▸ List.mem_cons_of_mem _ hb, bandMatrix_eq_ok (hmatrix b hb)⟩

/-- The values of the rotated coefficients of a degree at the sample directions, by those of the
expansion at the directions rotated back. -/
theorem mulVec_apply (h : ofFunctions value order rot = .ok r)
    (hlength : coeffs.length = coefficientCount order) (hpos : 1 ≤ l) (hl : l ≤ order) :
    (bandValues value l (sampleDirections l)).toMatrix *ᵥ
        (fun j => (r.apply coeffs).getD (l * l + j) 0) =
      fun i => degreeSum value coeffs l (rot.transpose.apply ((sampleDirections l).get i)) := by
  obtain ⟨m, hm, hfits⟩ := exists_band h hpos hl
  have happly : (fun j : Fin (2 * l + 1) => (r.apply coeffs).getD (l * l + j) 0) =
      m.toMatrix *ᵥ fun j => coeffs.getD (l * l + j) 0 :=
    funext (getD_apply (ordered h) hm (hlength ▸ coefficientCount_le hl))
  have hmap (i : Fin (2 * l + 1)) : rot.transpose.apply ((sampleDirections l).get i) =
      ((sampleDirections l).map rot.transpose.apply).get i := by
    rw [Vector.get_eq_getElem, Vector.get_eq_getElem, Vector.getElem_map]
  ext i
  rw [happly, mulVec_mulVec, hfits.mul, hmap, degreeSum_get]

/-- The rotated coefficients of a degree have, at the sample directions, the values that the
expansion had at those rotated back. -/
theorem degreeSum_apply (h : ofFunctions value order rot = .ok r)
    (hlength : coeffs.length = coefficientCount order) (hpos : 1 ≤ l) (hl : l ≤ order)
    (i : Fin (2 * l + 1)) :
    degreeSum value (r.apply coeffs) l ((sampleDirections l).get i) =
      degreeSum value coeffs l (rot.transpose.apply ((sampleDirections l).get i)) := by
  rw [degreeSum_get, mulVec_apply h hlength hpos hl]

/-- No other coefficients of the degree have these values. -/
theorem eq_of_degreeSum (h : ofFunctions value order rot = .ok r)
    (hlength : coeffs.length = coefficientCount order) (hpos : 1 ≤ l) (hl : l ≤ order)
    {w : Int → K}
    (hw : ∀ i : Fin (2 * l + 1), ∑ m ∈ Finset.Icc (-l : Int) l,
        value l m ((sampleDirections l).get i) * w m =
      degreeSum value coeffs l (rot.transpose.apply ((sampleDirections l).get i)))
    {m : Int} (hm : m ∈ Finset.Icc (-l : Int) l) :
    (r.apply coeffs).getD (flatIndex l m) 0 = w m := by
  obtain ⟨_, -, hfits⟩ := exists_band h hpos hl
  have hsame : (bandValues value l (sampleDirections l)).toMatrix *ᵥ
      ((fun j : Fin (2 * l + 1) => (r.apply coeffs).getD (l * l + j) 0) -
        fun j : Fin (2 * l + 1) => w ((j : Nat) - l)) = 0 := by
    rw [mulVec_sub, mulVec_apply h hlength hpos hl, sub_eq_zero]
    ext i
    rw [mulVec_bandValues, hw]
  have hzero := congrFun (hfits.injective _ hsame) ⟨(m + l).toNat, by
    rw [Finset.mem_Icc] at hm
    dsimp only
    omega⟩
  rw [Finset.mem_Icc] at hm
  have hindex : (((m + l).toNat : Nat) : Int) - l = m := by omega
  rw [Pi.sub_apply, Pi.zero_apply, sub_eq_zero, hindex, ← flatIndex_sub, hindex] at hzero
  exact hzero

end BandRotation

end RadianceTransfer.Harmonics
