import RadianceTransfer.Proofs.Harmonics.Bands
import RadianceTransfer.Proofs.Harmonics.Index
import RadianceTransfer.Proofs.Harmonics.RowMajor

/-!
# Rotating in place

An expansion is rotated in its own array. The matrices are arrays of rows, one behind the other, and
the one at position `l` is for degree `l`, whose coefficients start at the number of its first
function. They are copied before the products are written over them one after the other, so no
product is made of coefficients that are new already. The loops are spelled out here with every
index checked, and the loop over the degrees stops at one that is not complete. They do what
`BandRotation.apply` does.

After `k` products the array holds, in the place of the degree, the first `k` new coefficients and
the rest of the old ones (`rotateDegree_eq`).

## Main definitions

* `rotateInPlace`: the loops.

## Main statements

* `rotateDegree_eq`: one degree.
* `rotateInPlace_eq`: all of them.
-/

namespace RadianceTransfer.Harmonics

open Outcome

/-! ### The loops -/

section

variable {α : Type} [Scalar α]

/-- The product of a row of a matrix with the copied coefficients. -/
def rowProduct (n : Nat) (m copy : Array α) (i : Nat) : Outcome α :=
  (List.range n).foldlM (fun s j => do
    pure (s + (← Outcome.get m (i * n + j)) * (← Outcome.get copy j))) 0

/-- Rotates the `n` coefficients from a number on. -/
def rotateDegree (n start : Nat) (m coeffs : Array α) : Outcome (Array α) :=
  let copy := coeffs.extract start (start + n)
  (List.range n).foldlM (fun coeffs i => do
    FlatElimination.put coeffs (start + i) (← rowProduct n m copy i)) coeffs

/-- Rotates the degrees from a given one on, as long as they are complete. -/
def rotateInPlace (l : Nat) : List (Array α) → Array α → Outcome (Array α)
  | [], coeffs => pure coeffs
  | m :: ms, coeffs =>
    let n := 2 * l + 1
    let start := flatIndex l (-l)
    if coeffs.size < start + n then pure coeffs
    else do rotateInPlace (l + 1) ms (← rotateDegree n start m coeffs)

end

/-! ### One degree -/

variable {α : Type} {n : Nat}

/-- The rows of a matrix, one behind the other. -/
def SquareMatrix.toRowMajor (m : SquareMatrix n α) : Array α :=
  Array.ofFn fun k : Fin (n * n) => m.get k.divNat k.modNat

theorem SquareMatrix.holdsEntries_toRowMajor (m : SquareMatrix n α) :
    HoldsEntries m.toRowMajor m.get := by
  refine ⟨Array.size_ofFn, fun i j => ?_⟩
  obtain ⟨hrow, hcolumn⟩ : (i.val * n + j.val) / n = i ∧ (i.val * n + j.val) % n = j :=
    (Nat.div_mod_unique (Nat.zero_lt_of_lt j.isLt)).2 ⟨by ring, j.isLt⟩
  rw [toRowMajor, Array.getElem?_ofFn, dif_pos (position_lt i j)]
  exact congrArg some (congrArg₂ m.get (Fin.ext hrow) (Fin.ext hcolumn))

variable [Scalar α]

theorem rowProduct_eq {m : Array α} {M : SquareMatrix n α} (hm : HoldsEntries m M.get)
    (v : Vector α n) (i : Fin n) : rowProduct n m v.toArray i = .ok ((M.apply v).get i) := by
  have hcopy (j : Fin n) : Outcome.get v.toArray j = .ok (v.get j) := by
    rw [Outcome.get, Array.getElem?_eq_getElem (v.size_toArray.symm ▸ j.isLt)]
    rfl
  have hsum : rowProduct n m v.toArray i = .ok (SquareMatrix.sum fun j => M.get i j * v.get j) := by
    refine foldl_induction (fun k (s : α) => (List.range k).foldlM (fun s j => do
      pure (s + (← Outcome.get m (i * n + j)) * (← Outcome.get v.toArray j))) 0 = .ok s)
      rfl fun j s ih => ?_
    rw [List.range_succ, List.foldlM_append, ih, bind_ok, List.foldlM_cons, hm.get, bind_ok, hcopy]
    rfl
  rw [hsum, SquareMatrix.apply, Vector.get_ofFn]
  rfl

omit [Scalar α] in
/-- One more of the old coefficients is replaced by the new one. -/
theorem set_replaced {old new : List α} (hlength : new.length = old.length) (before rest : List α)
    {k : Nat} (hk : k < new.length) :
    (before ++ (new.take k ++ (old.drop k ++ rest))).set (before.length + k) new[k] =
      before ++ (new.take (k + 1) ++ (old.drop (k + 1) ++ rest)) := by
  have htake : (new.take k).length = k := List.length_take_of_le hk.le
  rw [List.set_append_right _ _ (Nat.le_add_right _ _), Nat.add_sub_cancel_left,
    List.set_append_right _ _ htake.le, htake, Nat.sub_self,
    List.drop_eq_getElem_cons (hlength ▸ hk), List.cons_append, List.set_cons_zero,
    List.take_succ_eq_append_getElem hk, List.append_assoc, List.singleton_append]

theorem rotateDegree_eq {m : Array α} {M : SquareMatrix n α} (hm : HoldsEntries m M.get)
    (before : List α) (front : Vector α n) (rest : List α) :
    rotateDegree n before.length m (before ++ (front.toList ++ rest)).toArray =
      .ok (before ++ ((M.apply front).toList ++ rest)).toArray := by
  have hcopy : (before ++ (front.toList ++ rest)).toArray.extract before.length
      (before.length + n) = front.toArray := by
    have hfront : front.toList.toArray = front.toArray := front.toArray.toArray_toList
    simpa using hfront
  have hnew : (M.apply front).toList.length = n := Vector.length_toList
  have hold : front.toList.length = n := Vector.length_toList
  have hloop : Returns (· = (before ++ ((M.apply front).toList.take n ++
      (front.toList.drop n ++ rest))).toArray)
      (rotateDegree n before.length m (before ++ (front.toList ++ rest)).toArray) := by
    rw [rotateDegree, hcopy]
    refine .foldlM_range (P := fun k out => out = (before ++ ((M.apply front).toList.take k ++
      (front.toList.drop k ++ rest))).toArray) rfl ?_
    rintro k hk _ rfl
    have hproduct : rowProduct n m front.toArray k = .ok (M.apply front).toList[k] :=
      rowProduct_eq hm front ⟨k, hk⟩
    rw [hproduct, bind_ok, FlatElimination.put, List.setIfInBounds_toArray,
      set_replaced (hnew.trans hold.symm) before rest (hnew.symm ▸ hk), if_pos]
    · exact .ok rfl
    · simp only [List.size_toArray, List.length_append, List.length_take, List.length_drop]
      omega
  obtain ⟨_, hrun, rfl⟩ := hloop
  rw [hrun, List.take_of_length_le hnew.le, List.drop_eq_nil_of_le hold.le, List.nil_append]

/-! ### All degrees -/

namespace BandRotation

theorem rotateInPlace_applyBands {bands : List (Band α)} {d : Nat} (hbands : Ordered d bands)
    {before : List α} (hbefore : before.length = d * d) (coeffs : List α) :
    rotateInPlace d (bands.map fun b => b.matrix.toRowMajor) (before ++ coeffs).toArray =
      .ok (before ++ applyBands bands coeffs).toArray := by
  induction bands generalizing d before coeffs with
  | nil => rfl
  | cons first bands ih =>
    obtain ⟨rfl, hrest⟩ := hbands.tail
    have hstart : flatIndex first.degree (-first.degree) = before.length := by
      have hzero := flatIndex_sub first.degree 0
      rwa [Nat.cast_zero, zero_sub, Nat.add_zero, ← hbefore] at hzero
    rw [List.map_cons, rotateInPlace, hstart, List.size_toArray, List.length_append]
    by_cases hfits : 2 * first.degree + 1 ≤ coeffs.length
    · obtain ⟨front, rest, rfl⟩ := exists_front hfits
      rw [if_neg (by omega), rotateDegree_eq first.matrix.holdsEntries_toRowMajor, bind_ok,
        applyBands_append, ← List.append_assoc, ← List.append_assoc]
      refine ih hrest ?_ rest
      rw [List.length_append, hbefore, Vector.length_toList, succ_mul_succ_self]
    · rw [if_pos (by omega), applyBands_of_lt bands hfits]
      rfl

/-- The loops compute the rotated expansion. -/
theorem rotateInPlace_eq {r : BandRotation α} (h : Ordered 0 r.bands) (coeffs : List α) :
    rotateInPlace 0 (r.bands.map fun b => b.matrix.toRowMajor) coeffs.toArray =
      .ok (r.apply coeffs).toArray :=
  rotateInPlace_applyBands h (rfl : ([] : List α).length = 0 * 0) coeffs

end BandRotation

end RadianceTransfer.Harmonics
