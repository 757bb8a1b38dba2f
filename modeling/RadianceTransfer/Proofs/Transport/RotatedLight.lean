import Mathlib
import RadianceTransfer.Proofs.Harmonics.InPlace
import RadianceTransfer.Proofs.Harmonics.RotatedFunction
import RadianceTransfer.Transport.Light

/-!
# Rotated lighting

A rotation changes the complete degrees of an expansion, each by its own matrix, and nothing else,
in place as well as in a copy. In exact arithmetic it is linear and leaves degree zero alone.
Lighting has one expansion for each color channel. The channels are rotated one after the other in
the same coefficients, and none of them sees another.

## Main definitions

* `BandRotation.KeepsDegrees`: what is changed, and how.

## Main statements

* `BandRotation.keepsDegrees`, `BandRotation.applyBands_combine`: any scalars, exact ones.
* `LightCoeffs.channel_rotate`: every channel is rotated by itself.
* `rotate_keeps_degrees`: all of it.
-/

namespace RadianceTransfer

namespace Harmonics

namespace BandRotation

section

variable {α : Type} [Scalar α]

/-- A rotation up to an order changes complete degrees only. The new coefficients of a degree are
the product of its matrix with the old ones. -/
structure KeepsDegrees (r : BandRotation α) (order : Nat) : Prop where
  /-- There are as many coefficients as before. -/
  length : ∀ coeffs, (r.apply coeffs).length = coeffs.length
  /-- Each degree has a matrix, which is applied if all of its coefficients are there. -/
  degrees : ∀ l ≤ order, ∃ m, r.bands[l]? = some ⟨l, m⟩ ∧
    ∀ coeffs : List α, coefficientCount l ≤ coeffs.length →
      (⟨l, m⟩ : Band α).Rotates (l * l) coeffs (r.apply coeffs)
  /-- Higher degrees and an incomplete one stay. -/
  rest : ∀ (coeffs : List α) (i : Nat),
    min (coefficientCount order) (coeffs.length.sqrt * coeffs.length.sqrt) ≤ i →
      (r.apply coeffs)[i]? = coeffs[i]?
  /-- Rotating in place comes to the same. -/
  inPlace : ∀ coeffs : List α,
    rotateInPlace 0 (r.bands.map fun b => b.matrix.toRowMajor) coeffs.toArray =
      .ok (r.apply coeffs).toArray

variable {value : Nat → Int → Vec3 α → α} {order : Nat} {rot : Mat3 α} {r : BandRotation α}

theorem keepsDegrees (h : ofFunctions value order rot = .ok r) : r.KeepsDegrees order where
  length := length_applyBands r.bands
  degrees l hl := by
    obtain ⟨b, hb, rfl⟩ := exists_getElem?_bands h hl
    refine ⟨b.matrix, hb, fun coeffs hcount => ?_⟩
    rw [coefficientCount, succ_mul_succ_self] at hcount
    exact rotates_applyBands (ordered h) (List.mem_of_getElem? hb) (Nat.zero_add _) hcount
  rest coeffs i hi := by
    refine getElem?_applyBands (ordered h) fun l hl hle => ?_
    rw [length_bands h, Nat.zero_add] at hl
    rw [Nat.zero_mul, Nat.zero_add] at hle ⊢
    have hroot : l ≤ coeffs.length.sqrt := Nat.le_sqrt.2 hle
    exact (le_min (Nat.mul_self_le_mul_self hl) (Nat.mul_self_le_mul_self hroot)).trans hi
  inPlace := rotateInPlace_eq (ordered h)

end

/-! ### Exact arithmetic -/

section

variable {K : Type} [Field K] [LinearOrder K] [FloorSemiring K] [FieldFunctions K]

theorem matrix_apply_combine {n : Nat} (m : SquareMatrix n K) (a b : K) (v w : Vector K n) :
    m.apply (v.zipWith (fun x y => a * x + b * y) w) =
      (m.apply v).zipWith (fun x y => a * x + b * y) (m.apply w) := by
  have hget (v w : Vector K n) :
      (v.zipWith (fun x y => a * x + b * y) w).get = a • v.get + b • w.get := by
    ext i
    simp [Vector.get_eq_getElem]
  ext i hi
  have hentry : (m.apply (v.zipWith (fun x y => a * x + b * y) w)).get ⟨i, hi⟩ =
      ((m.apply v).zipWith (fun x y => a * x + b * y) (m.apply w)).get ⟨i, hi⟩ := by
    rw [SquareMatrix.get_apply, hget, hget, Matrix.mulVec_add, Matrix.mulVec_smul,
      Matrix.mulVec_smul]
    simp only [Pi.add_apply, Pi.smul_apply, SquareMatrix.get_apply]
  exact hentry

theorem applyBands_combine (bands : List (Band K)) (a b : K) {u v : List K}
    (h : u.length = v.length) :
    applyBands bands (List.zipWith (fun x y => a * x + b * y) u v) =
      List.zipWith (fun x y => a * x + b * y) (applyBands bands u) (applyBands bands v) := by
  induction bands generalizing u v with
  | nil => rfl
  | cons first bands ih =>
    by_cases hfits : 2 * first.degree + 1 ≤ u.length
    · obtain ⟨front, rest, rfl⟩ := exists_front hfits
      obtain ⟨front', rest', rfl⟩ := exists_front (h ▸ hfits)
      have hrest : rest.length = rest'.length := by simpa using h
      have hlength (f f' : Vector K (2 * first.degree + 1)) : f.toList.length = f'.toList.length :=
        Vector.length_toList.trans Vector.length_toList.symm
      rw [List.zipWith_append (hlength _ _), ← Vector.toList_zipWith, applyBands_append,
        applyBands_append, applyBands_append, List.zipWith_append (hlength _ _),
        ← Vector.toList_zipWith, matrix_apply_combine, ih hrest]
    · have hfits' : ¬ 2 * first.degree + 1 ≤ v.length := h ▸ hfits
      rw [applyBands_of_lt bands hfits, applyBands_of_lt bands hfits', applyBands_of_lt]
      rwa [List.length_zipWith, ← h, min_self]

end

end BandRotation

end Harmonics

/-! ### Color channels -/

namespace LightCoeffs

open Harmonics BandRotation

variable {α : Type}

theorem get_set (c : Color α) (k : Channel) (s : α) : (c.set k s).get k = s := by
  cases k <;> rfl

theorem get_set_of_ne (c : Color α) {k k' : Channel} (h : k ≠ k') (s : α) :
    (c.set k s).get k' = c.get k' := by
  cases k <;> cases k' <;> first | rfl | exact absurd rfl h

theorem channel_setChannel (l : LightCoeffs α) (k : Channel) {values : List α}
    (h : values.length = l.length) : (l.setChannel k values).channel k = values := by
  have hdrop : l.coeffs.drop values.length = [] := List.drop_eq_nil_of_le h.ge
  rw [length] at h
  rw [setChannel, channel, hdrop, List.append_nil]
  exact List.ext_getElem (by simp [h]) fun i _ _ => by simp [get_set]

/-- The other channels are kept, however many values there are. -/
theorem channel_setChannel_of_ne (l : LightCoeffs α) {k k' : Channel} (h : k ≠ k')
    (values : List α) : (l.setChannel k values).channel k' = l.channel k' := by
  obtain ⟨coeffs⟩ := l
  induction coeffs generalizing values with
  | nil => cases values <;> rfl
  | cons c coeffs ih =>
    cases values with
    | nil => rfl
    | cons v values =>
      exact congrArg₂ List.cons (get_set_of_ne c h v) (ih values)

theorem length_setChannel (l : LightCoeffs α) (k : Channel) (values : List α) :
    (l.setChannel k values).length = l.length := by
  simp only [length, setChannel, List.length_append, List.length_zipWith, List.length_drop]
  omega

theorem length_channel (l : LightCoeffs α) (k : Channel) : (l.channel k).length = l.length :=
  List.length_map _

variable [Scalar α]

/-- Every channel is rotated by itself, whatever the other ones are by then. -/
theorem channel_rotate (r : BandRotation α) (l : LightCoeffs α) (k : Channel) :
    (l.rotate r).channel k = r.apply (l.channel k) := by
  have hsame (l : LightCoeffs α) (k : Channel) :
      (l.setChannel k (r.apply (l.channel k))).channel k = r.apply (l.channel k) :=
    channel_setChannel l k ((length_applyBands _ _).trans (length_channel l k))
  simp only [rotate, List.foldl_cons, List.foldl_nil]
  cases k with
  | red =>
    rw [channel_setChannel_of_ne _ (by decide), channel_setChannel_of_ne _ (by decide), hsame]
  | green =>
    rw [channel_setChannel_of_ne _ (by decide), hsame, channel_setChannel_of_ne _ (by decide)]
  | blue =>
    rw [hsame, channel_setChannel_of_ne _ (by decide), channel_setChannel_of_ne _ (by decide)]

theorem length_rotate (r : BandRotation α) (l : LightCoeffs α) :
    (l.rotate r).length = l.length := by
  simp only [rotate, List.foldl_cons, List.foldl_nil, length_setChannel]

end LightCoeffs

open Harmonics BandRotation

/-- **Rotations keep degrees apart.** Each complete degree becomes the product of its matrix with
what the degree was before, and all other coefficients stay, whatever the order and the number of
coefficients. In exact arithmetic rotations are linear and leave degree zero alone. Lighting is
rotated as its channels are, each by itself. -/
theorem rotate_keeps_degrees :
    (∀ (α : Type) [Scalar α] (value : Nat → Int → Vec3 α → α) (order : Nat) (rot : Mat3 α)
      (r : BandRotation α), ofFunctions value order rot = .ok r → r.KeepsDegrees order) ∧
    (∀ (K : Type) [Field K] [LinearOrder K] [FloorSemiring K] [FieldFunctions K]
      (value : Nat → Int → Vec3 K → K) (order : Nat) (rot : Mat3 K) (r : BandRotation K),
      ofFunctions value order rot = .ok r →
        (∀ coeffs, (r.apply coeffs)[0]? = coeffs[0]?) ∧
        ∀ (a b : K) (u v : List K), u.length = v.length →
          r.apply (List.zipWith (fun x y => a * x + b * y) u v) =
            List.zipWith (fun x y => a * x + b * y) (r.apply u) (r.apply v)) ∧
    ∀ (α : Type) [Scalar α] (r : BandRotation α) (l : LightCoeffs α),
      (l.rotate r).length = l.length ∧ ∀ k, (l.rotate r).channel k = r.apply (l.channel k) := by
  refine ⟨fun α _ value order rot r h => keepsDegrees h,
    fun K _ _ _ _ value order rot r h => ⟨getElem?_apply_zero h, fun a b u v hlength => ?_⟩,
    fun α _ r l => ⟨l.length_rotate r, l.channel_rotate r⟩⟩
  exact applyBands_combine r.bands a b hlength

/-- Degree two is not complete, so it stays. -/
theorem rotate_keeps_degrees_quarterTurn : ∃ r : BandRotation ℝ,
    ofFunctions eval 2 .quarterTurn = .ok r ∧ r.KeepsDegrees 2 ∧
      (r.apply [1, 2, 3, 4, 5, 6])[0]? = some 1 ∧ (r.apply [1, 2, 3, 4, 5, 6])[4]? = some 5 ∧
      [1, (2 : ℝ)].length = [3, (4 : ℝ)].length ∧
      r.apply (List.zipWith (fun x y => 5 * x + 6 * y) [1, 2] [3, 4]) =
        List.zipWith (fun x y => 5 * x + 6 * y) (r.apply [1, 2]) (r.apply [3, 4]) := by
  obtain ⟨r, hr⟩ := exists_build le_rfl .quarterTurn
  obtain ⟨hkeeps, hexact, -⟩ := rotate_keeps_degrees
  obtain ⟨hzero, hlinear⟩ := hexact ℝ eval 2 .quarterTurn r hr
  have hdegrees := hkeeps ℝ eval 2 .quarterTurn r hr
  have hroot : Nat.sqrt 6 = 2 := (Nat.eq_sqrt.2 (by decide)).symm
  refine ⟨r, hr, hdegrees, hzero _, hdegrees.rest _ 4 (min_le_of_right_le ?_), rfl,
    hlinear 5 6 _ _ rfl⟩
  exact (congrArg₂ (· * ·) hroot hroot).le

end RadianceTransfer
