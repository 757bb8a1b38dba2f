import Mathlib
import RadianceTransfer.Harmonics.Rotation
import RadianceTransfer.Proofs.Outcome

/-!
# The degrees of a rotated expansion

The matrices of a rotation are those of consecutive degrees, and each of them is applied to the
coefficients of its own degree, as they were before. Nothing else is changed: neither the degrees
above those of the rotation, nor a last degree that is not complete. This takes no arithmetic, so it
holds of any scalars.

An expansion is walked through from the front, one degree after the other. The ones that are done
are taken off, and what is left at degree `d` are the coefficients from number `d * d` on.

## Main definitions

* `BandRotation.Ordered`: the matrices are those of consecutive degrees.
* `Band.Rotates`: a matrix is applied to the coefficients from a number on.

## Main statements

* `BandRotation.length_applyBands`, `BandRotation.rotates_applyBands`,
  `BandRotation.getElem?_applyBands`: what becomes of the length, the complete degrees and the rest.
* `BandRotation.bands_of_ofFunctions`: the matrices of a rotation.
-/

namespace RadianceTransfer.Harmonics

variable {α : Type}

/-- The next square. -/
theorem succ_mul_succ_self (l : Nat) : (l + 1) * (l + 1) = l * l + (2 * l + 1) := by
  ring

namespace BandRotation

/-- The matrices of a rotation come in the order of their degrees. -/
def Ordered (d : Nat) (bands : List (Band α)) : Prop :=
  bands.map Band.degree = List.range' d bands.length

theorem Ordered.tail {d : Nat} {b : Band α} {bands : List (Band α)} (h : Ordered d (b :: bands)) :
    b.degree = d ∧ Ordered (d + 1) bands := by
  rw [Ordered, List.map_cons, List.length_cons, List.range'_succ, List.cons.injEq] at h
  exact h

theorem Ordered.le_degree {d : Nat} {bands : List (Band α)} (h : Ordered d bands) {b : Band α}
    (hb : b ∈ bands) : d ≤ b.degree := by
  have hmem : b.degree ∈ bands.map Band.degree := List.mem_map_of_mem hb
  rw [h, List.mem_range'_1] at hmem
  exact hmem.1

/-- The matrix of a degree is found under its number. -/
theorem Ordered.degree_getElem {d : Nat} {bands : List (Band α)} (h : Ordered d bands) {i : Nat}
    (hi : i < bands.length) : bands[i].degree = d + i := by
  have hget : (bands.map Band.degree)[i]? = (List.range' d bands.length)[i]? := congrArg (·[i]?) h
  rw [List.getElem?_map, List.getElem?_range' hi, List.getElem?_eq_getElem hi, Nat.one_mul] at hget
  exact Option.some.inj hget

end BandRotation

variable [Scalar α]

/-- The coefficients of a degree, which are those from a number on, become the product of the matrix
with the old ones. -/
def Band.Rotates (b : Band α) (start : Nat) (old new : List α) : Prop :=
  ∃ v : Vector α (2 * b.degree + 1), ∀ j : Fin (2 * b.degree + 1),
    old[start + j]? = some (v.get j) ∧ new[start + j]? = some ((b.matrix.apply v).get j)

namespace BandRotation

/-! ### Walking through the degrees -/

omit [Scalar α] in
/-- A degree that is complete is taken off the front. -/
theorem exists_front {n : Nat} {coeffs : List α} (h : n ≤ coeffs.length) :
    ∃ (front : Vector α n) (rest : List α), coeffs = front.toList ++ rest :=
  ⟨⟨(coeffs.take n).toArray, by simp [h]⟩, coeffs.drop n, (List.take_append_drop n coeffs).symm⟩

omit [Scalar α] in
theorem getElem?_front {n : Nat} (front : Vector α n) (rest : List α) (j : Fin n) :
    (front.toList ++ rest)[j.val]? = some (front.get j) := by
  rw [List.getElem?_append_left (Vector.length_toList.symm ▸ j.isLt), Vector.get_eq_getElem]
  simp

omit [Scalar α] in
theorem getElem?_rest {n : Nat} (front : Vector α n) (rest : List α) (i : Nat) :
    (front.toList ++ rest)[n + i]? = rest[i]? := by
  rw [List.getElem?_append_right (Vector.length_toList.symm ▸ Nat.le_add_right n i),
    Vector.length_toList, Nat.add_sub_cancel_left]

theorem applyBands_append (b : Band α) (bands : List (Band α))
    (front : Vector α (2 * b.degree + 1)) (rest : List α) :
    applyBands (b :: bands) (front.toList ++ rest) =
      (b.matrix.apply front).toList ++ applyBands bands rest := by
  have hfits : 2 * b.degree + 1 ≤ (front.toList ++ rest).length := by simp
  have htake : (front.toList ++ rest).take (2 * b.degree + 1) = front.toList :=
    List.take_left' Vector.length_toList
  have hdrop : (front.toList ++ rest).drop (2 * b.degree + 1) = rest :=
    List.drop_left' Vector.length_toList
  rw [applyBands, dif_pos hfits]
  simp only [htake, hdrop]
  rfl

/-- The walk stops at a degree that is not complete. -/
theorem applyBands_of_lt {b : Band α} (bands : List (Band α)) {coeffs : List α}
    (h : ¬ 2 * b.degree + 1 ≤ coeffs.length) : applyBands (b :: bands) coeffs = coeffs := by
  rw [applyBands, dif_neg h]

theorem length_applyBands (bands : List (Band α)) (coeffs : List α) :
    (applyBands bands coeffs).length = coeffs.length := by
  induction bands generalizing coeffs with
  | nil => rfl
  | cons b bands ih =>
    by_cases h : 2 * b.degree + 1 ≤ coeffs.length
    · obtain ⟨front, rest, rfl⟩ := exists_front h
      rw [applyBands_append, List.length_append, List.length_append, ih, Vector.length_toList,
        Vector.length_toList]
    · rw [applyBands_of_lt bands h]

/-- A complete degree is rotated. -/
theorem rotates_applyBands {bands : List (Band α)} {d : Nat} (hbands : Ordered d bands) {b : Band α}
    (hb : b ∈ bands) {coeffs : List α} {start : Nat} (hstart : d * d + start = b.degree * b.degree)
    (hlength : start + (2 * b.degree + 1) ≤ coeffs.length) :
    b.Rotates start coeffs (applyBands bands coeffs) := by
  induction bands generalizing d coeffs start with
  | nil => cases hb
  | cons first bands ih =>
    obtain ⟨rfl, hrest⟩ := hbands.tail
    rcases List.mem_cons.1 hb with rfl | hb
    · obtain rfl : start = 0 := by omega
      have hfits : 2 * b.degree + 1 ≤ coeffs.length := by omega
      obtain ⟨front, rest, rfl⟩ := exists_front hfits
      rw [applyBands_append]
      refine ⟨front, fun j => ?_⟩
      rw [Nat.zero_add]
      exact ⟨getElem?_front _ _ j, getElem?_front _ _ j⟩
    · have hsquare : (first.degree + 1) * (first.degree + 1) ≤ b.degree * b.degree :=
        Nat.mul_self_le_mul_self (hrest.le_degree hb)
      rw [succ_mul_succ_self] at hsquare
      obtain ⟨start, rfl⟩ : ∃ k, start = 2 * first.degree + 1 + k :=
        Nat.exists_eq_add_of_le (by omega)
      have hfits : 2 * first.degree + 1 ≤ coeffs.length := by omega
      obtain ⟨front, rest, rfl⟩ := exists_front hfits
      rw [List.length_append, Vector.length_toList] at hlength
      obtain ⟨v, hv⟩ : b.Rotates start rest (applyBands bands rest) :=
        ih hrest hb (by rw [succ_mul_succ_self]; omega) (by omega)
      rw [applyBands_append]
      refine ⟨v, fun j => ?_⟩
      rw [Nat.add_assoc, getElem?_rest, getElem?_rest]
      exact hv j

/-- Coefficients behind all complete degrees stay. -/
theorem getElem?_applyBands {bands : List (Band α)} {d : Nat} (hbands : Ordered d bands)
    {coeffs : List α} {i : Nat}
    (hi : ∀ l ≤ d + bands.length, l * l ≤ d * d + coeffs.length → l * l ≤ d * d + i) :
    (applyBands bands coeffs)[i]? = coeffs[i]? := by
  induction bands generalizing d coeffs i with
  | nil => rfl
  | cons first bands ih =>
    obtain ⟨rfl, hrest⟩ := hbands.tail
    by_cases hfits : 2 * first.degree + 1 ≤ coeffs.length
    · have hsquare := succ_mul_succ_self first.degree
      have hpast := hi (first.degree + 1) (by rw [List.length_cons]; omega) (by omega)
      obtain ⟨i, rfl⟩ : ∃ k, i = 2 * first.degree + 1 + k := Nat.exists_eq_add_of_le (by omega)
      obtain ⟨front, rest, rfl⟩ := exists_front hfits
      rw [applyBands_append, getElem?_rest, getElem?_rest]
      refine ih hrest fun l hl hle => ?_
      have := hi l (by rw [List.length_cons]; omega)
        (by rw [List.length_append, Vector.length_toList]; omega)
      omega
    · rw [applyBands_of_lt bands hfits]

/-! ### The matrices of a rotation -/

/-- There is one matrix for degree zero, which is the identity, and one for each of the other
degrees. -/
theorem bands_of_ofFunctions {value : Nat → Int → Vec3 α → α} {order : Nat} {rot : Mat3 α}
    {r : BandRotation α} (h : ofFunctions value order rot = .ok r) :
    ∃ bands, r.bands = ⟨0, .identity 1⟩ :: bands ∧ Ordered 1 bands ∧ bands.length = order ∧
      ∀ b ∈ bands, bandMatrix value b.degree rot.transpose = .ok b.matrix := by
  rw [ofFunctions, Outcome.bind_eq_ok_iff] at h
  obtain ⟨bands, hbands, hr⟩ := h
  cases hr
  rw [Outcome.mapM_eq_ok_iff] at hbands
  have hlength : bands.length = order := by rw [← hbands.length_eq, List.length_range]
  have hband (i : Nat) (hi : i < bands.length) : bands[i].degree = i + 1 ∧
      bandMatrix value bands[i].degree rot.transpose = .ok bands[i].matrix := by
    have hi' : i < (List.range order).length := hbands.length_eq ▸ hi
    have hget := (List.forall₂_iff_get.1 hbands).2 i hi' hi
    obtain ⟨m, hm, hb⟩ := Outcome.bind_eq_ok_iff.1 hget
    have hb : bands[i] = ⟨(List.range order)[i] + 1, m⟩ := (Except.ok.inj hb).symm
    rw [hb]
    exact ⟨congrArg (· + 1) (List.getElem_range hi'), hm⟩
  refine ⟨bands, rfl, ?_, hlength, fun b hb => ?_⟩
  · refine List.ext_getElem (by simp) fun i hi _ => ?_
    rw [List.length_map] at hi
    rw [List.getElem_map, List.getElem_range', (hband i hi).1]
    omega
  · obtain ⟨i, hi, rfl⟩ := List.getElem_of_mem hb
    exact (hband i hi).2

variable {value : Nat → Int → Vec3 α → α} {order : Nat} {rot : Mat3 α} {r : BandRotation α}

theorem ordered (h : ofFunctions value order rot = .ok r) : Ordered 0 r.bands := by
  obtain ⟨bands, hr, hordered, -, -⟩ := bands_of_ofFunctions h
  rw [hr, Ordered, List.map_cons, hordered, List.length_cons, List.range'_succ]

theorem length_bands (h : ofFunctions value order rot = .ok r) : r.bands.length = order + 1 := by
  obtain ⟨bands, hr, -, hlength, -⟩ := bands_of_ofFunctions h
  rw [hr, List.length_cons, hlength]

theorem exists_getElem?_bands (h : ofFunctions value order rot = .ok r) {l : Nat} (hl : l ≤ order) :
    ∃ b, r.bands[l]? = some b ∧ b.degree = l := by
  have hindex : l < r.bands.length := (Nat.lt_succ_of_le hl).trans_eq (length_bands h).symm
  refine ⟨r.bands[l], List.getElem?_eq_getElem hindex, ?_⟩
  rw [(ordered h).degree_getElem hindex, Nat.zero_add]

end BandRotation

end RadianceTransfer.Harmonics
