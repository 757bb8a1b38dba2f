import Mathlib
import RadianceTransfer.Proofs.Field
import RadianceTransfer.Proofs.Harmonics.Basis

/-!
# Expansions, degree by degree

The functions of degree `l` have the numbers from `l * l` up to the next square, so the degree of a
number is its whole square root. A sum over all numbers up to a degree is a sum over the degrees of
sums over their orders, and this is how an expansion is read: `degreeSum` is the part of one degree.

## Main definitions

* `degreeSum`: the part of an expansion that is of one degree.

## Main statements

* `wholeRoot_eq`, `degreeOrder_square_add`: the degree and order of a number.
* `getElem?_basis`: the functions are evaluated in their numbering.
* `sum_coefficients`, `reconstruct_eq_sum`: sums over numbers, and the value of an expansion.
-/

namespace RadianceTransfer.Harmonics

/-! ### Numbers, degrees and orders -/

theorem wholeRoot_spec (n : Nat) :
    wholeRoot n * wholeRoot n ≤ n ∧ n < (wholeRoot n + 1) * (wholeRoot n + 1) := by
  induction n using Nat.strong_induction_on with
  | _ n ih =>
    by_cases hn : n = 0
    · rw [hn, wholeRoot]
      decide
    · obtain ⟨hle, hlt⟩ := ih (n / 4) (by omega)
      have hroot : wholeRoot n = if (2 * wholeRoot (n / 4) + 1) * (2 * wholeRoot (n / 4) + 1) ≤ n
          then 2 * wholeRoot (n / 4) + 1 else 2 * wholeRoot (n / 4) := by
        rw [wholeRoot, if_neg hn]
      rw [hroot]
      generalize wholeRoot (n / 4) = r at hle hlt
      have hlow : 4 * (r * r) ≤ n := by omega
      have hhigh : n < 4 * ((r + 1) * (r + 1)) := by omega
      split_ifs with h
      · exact ⟨h, by linarith⟩
      · exact ⟨by linarith, not_le.1 h⟩

theorem wholeRoot_eq {l i : Nat} (hle : l * l ≤ i) (hlt : i < (l + 1) * (l + 1)) :
    wholeRoot i = l := by
  obtain ⟨hle', hlt'⟩ := wholeRoot_spec i
  have h : l < wholeRoot i + 1 := Nat.mul_self_lt_mul_self_iff.1 (hle.trans_lt hlt')
  have h' : wholeRoot i < l + 1 := Nat.mul_self_lt_mul_self_iff.1 (hle'.trans_lt hlt)
  omega

/-- The functions of a degree follow the square of the degree. -/
theorem flatIndex_sub (l k : Nat) : flatIndex l ((k : Int) - l) = l * l + k := by
  have h : (l : Int) * (l + 1) + ((k : Int) - l) = ((l * l + k : Nat) : Int) := by
    push_cast
    ring
  rw [flatIndex, h, Int.toNat_natCast]

theorem flatIndex_lt {l order : Nat} {m : Int} (hm : m.natAbs ≤ l) (hl : l ≤ order) :
    flatIndex l m < coefficientCount order := by
  obtain ⟨k, hk⟩ : ∃ k : Nat, m = k - l := ⟨(m + l).toNat, by omega⟩
  refine lt_of_lt_of_le ?_ (coefficientCount_le hl)
  rw [hk, flatIndex_sub, coefficientCount, Nat.succ_mul_succ]
  omega

theorem degreeOrder_square_add {l k : Nat} (hk : k ≤ 2 * l) :
    degreeOrder (l * l + k) = (l, (k : Int) - l) := by
  have hroot : wholeRoot (l * l + k) = l :=
    wholeRoot_eq (Nat.le_add_right _ _) (by rw [Nat.succ_mul_succ]; omega)
  rw [degreeOrder, hroot, Prod.mk.injEq]
  push_cast
  exact ⟨rfl, by ring⟩

theorem degreeOrder_flatIndex {l : Nat} {m : Int} (hm : m.natAbs ≤ l) :
    degreeOrder (flatIndex l m) = (l, m) := by
  obtain ⟨k, hk⟩ : ∃ k : Nat, m = k - l := ⟨(m + l).toNat, by omega⟩
  rw [hk, flatIndex_sub, degreeOrder_square_add (by omega)]

/-- A number below a square belongs to one of the degrees. -/
theorem exists_square_add {order i : Nat} (h : i < coefficientCount order) :
    ∃ l ≤ order, ∃ k ≤ 2 * l, i = l * l + k := by
  obtain ⟨hle, hlt⟩ := wholeRoot_spec i
  have hl : wholeRoot i < order + 1 := Nat.mul_self_lt_mul_self_iff.1 (hle.trans_lt h)
  rw [Nat.succ_mul_succ] at hlt
  exact ⟨wholeRoot i, Nat.lt_succ_iff.1 hl, i - wholeRoot i * wholeRoot i, by omega, by omega⟩

/-! ### The basis -/

theorem getElem?_band {α : Type} [Scalar α] {l k : Nat} (hk : k ≤ 2 * l) (dir : Vec3 α) :
    (band l dir)[k]? = some (eval l ((k : Int) - l) dir) := by
  rw [band, List.getElem?_map, List.getElem?_range (Nat.lt_succ_of_le hk)]
  rfl

/-- The functions are evaluated in their numbering. -/
theorem getElem?_basis {α : Type} [Scalar α] {order i : Nat} (h : i < coefficientCount order)
    (dir : Vec3 α) :
    (basis order dir)[i]? = some (eval (degreeOrder i).1 (degreeOrder i).2 dir) := by
  obtain ⟨l, hl, k, hk, rfl⟩ := exists_square_add h
  have hlast : l * l + k < coefficientCount l := by
    rw [coefficientCount, Nat.succ_mul_succ]
    omega
  rw [degreeOrder_square_add hk, ← List.getElem?_take_of_lt hlast, take_basis hl,
    ← getElem?_band hk]
  cases l with
  | zero => rw [Nat.mul_zero, Nat.zero_add, basis, List.range_one, List.flatMap_singleton]
  | succ l =>
    have hlength : (basis l dir).length = (l + 1) * (l + 1) := length_basis l dir
    rw [basis_succ, List.getElem?_append_right (hlength ▸ Nat.le_add_right _ _), hlength,
      Nat.add_sub_cancel_left]

/-! ### Sums over all functions -/

section

variable {M : Type} [AddCommMonoid M]

theorem sum_orders (f : Int → M) (l : Nat) :
    ∑ m ∈ Finset.Icc (-l : Int) l, f m = ∑ k ∈ Finset.range (2 * l + 1), f ((k : Int) - l) := by
  refine Finset.sum_nbij' (fun m => (m + l).toNat) (fun k => (k : Int) - l) ?_ ?_ ?_ ?_ ?_
  · intro m hm
    rw [Finset.mem_Icc] at hm
    rw [Finset.mem_range]
    omega
  · intro k hk
    rw [Finset.mem_range] at hk
    rw [Finset.mem_Icc]
    omega
  · intro m hm
    rw [Finset.mem_Icc] at hm
    omega
  · intro k hk
    omega
  · intro m hm
    rw [Finset.mem_Icc] at hm
    congr 1
    omega

/-- A sum over the numbers up to a degree, by degree and order. -/
theorem sum_coefficients (f : Nat → M) (order : Nat) :
    ∑ i ∈ Finset.range (coefficientCount order), f i =
      ∑ l ∈ Finset.range (order + 1), ∑ m ∈ Finset.Icc (-l : Int) l, f (flatIndex l m) := by
  have hband (l : Nat) : ∑ m ∈ Finset.Icc (-l : Int) l, f (flatIndex l m) =
      ∑ k ∈ Finset.range (2 * l + 1), f (l * l + k) := by
    rw [sum_orders]
    simp only [flatIndex_sub]
  induction order with
  | zero => simp [hband, coefficientCount]
  | succ order ih =>
    rw [Finset.sum_range_succ, ← ih, hband, coefficientCount_succ, Finset.sum_range_add]
    rfl

end

/-! ### Expansions -/

variable {K : Type} [Field K] [LinearOrder K] [FloorSemiring K] [FieldFunctions K]

/-- The part of an expansion in given functions that is of one degree. -/
noncomputable def degreeSum (value : Nat → Int → Vec3 K → K) (coeffs : List K) (l : Nat)
    (dir : Vec3 K) : K :=
  ∑ m ∈ Finset.Icc (-l : Int) l, value l m dir * coeffs.getD (flatIndex l m) 0

theorem reconstruct_eq (coeffs : List K) (dir : Vec3 K) :
    reconstruct coeffs dir = ∑ i ∈ Finset.range coeffs.length,
      eval (degreeOrder i).1 (degreeOrder i).2 dir * coeffs.getD i 0 := by
  induction coeffs using List.reverseRecOn with
  | nil => exact FieldFunctions.zero_eq
  | append_singleton coeffs c ih =>
    have hlast : (coeffs ++ [c]).getD coeffs.length 0 = c := by simp
    have hinit : ∀ i ∈ Finset.range coeffs.length,
        eval (degreeOrder i).1 (degreeOrder i).2 dir * (coeffs ++ [c]).getD i 0 =
          eval (degreeOrder i).1 (degreeOrder i).2 dir * coeffs.getD i 0 := by
      intro i hi
      rw [List.getD_append _ _ _ _ (Finset.mem_range.1 hi)]
    rw [List.length_append, List.length_singleton, Finset.sum_range_succ, hlast,
      Finset.sum_congr rfl hinit, ← ih, mul_comm, reconstruct, List.zipIdx_append,
      List.foldl_append, reconstruct, Nat.zero_add]
    rfl

/-- The value of an expansion is the sum of its parts. -/
theorem reconstruct_eq_sum {coeffs : List K} {order : Nat}
    (h : coeffs.length = coefficientCount order) (dir : Vec3 K) :
    reconstruct coeffs dir = ∑ l ∈ Finset.range (order + 1), degreeSum eval coeffs l dir := by
  rw [reconstruct_eq, h, sum_coefficients]
  refine Finset.sum_congr rfl fun l _ => Finset.sum_congr rfl fun m hm => ?_
  rw [Finset.mem_Icc] at hm
  rw [degreeOrder_flatIndex (by omega)]

end RadianceTransfer.Harmonics
