import Mathlib
import RadianceTransfer.Harmonics.Projection
import RadianceTransfer.Proofs.Outcome

/-!
# The basis, degree by degree

The basis up to a degree is the basis up to the degree before, followed by one more band. So the
functions up to a lower degree are the first ones of the list, and their number is a square.

## Main statements

* `basis_succ`, `length_basis`: the basis is put together from bands.
* `take_basis`: the functions up to a lower degree come first.
* `length_addProjected`, `take_addProjected`: adding to an expansion, coefficient by coefficient.
-/

namespace RadianceTransfer.Harmonics

theorem coefficientCount_pos (order : Nat) : 0 < coefficientCount order :=
  Nat.mul_pos (Nat.succ_pos _) (Nat.succ_pos _)

theorem coefficientCount_le {m n : Nat} (h : m ≤ n) : coefficientCount m ≤ coefficientCount n :=
  Nat.mul_le_mul (Nat.succ_le_succ h) (Nat.succ_le_succ h)

theorem coefficientCount_succ (order : Nat) :
    coefficientCount (order + 1) = coefficientCount order + (2 * (order + 1) + 1) := by
  rw [coefficientCount, coefficientCount]
  ring

variable {α : Type} [Scalar α]

theorem length_band (l : Nat) (dir : Vec3 α) : (band l dir).length = 2 * l + 1 := by
  rw [band, List.length_map, List.length_range]

theorem basis_succ (order : Nat) (dir : Vec3 α) :
    basis (order + 1) dir = basis order dir ++ band (order + 1) dir := by
  rw [basis, List.range_succ, List.flatMap_append, List.flatMap_singleton, basis]

theorem length_basis (order : Nat) (dir : Vec3 α) :
    (basis order dir).length = coefficientCount order := by
  induction order with
  | zero => rfl
  | succ order ih => rw [basis_succ, List.length_append, ih, length_band, coefficientCount_succ]

/-- The functions up to a lower degree are the first ones. -/
theorem take_basis {m n : Nat} (h : m ≤ n) (dir : Vec3 α) :
    (basis n dir).take (coefficientCount m) = basis m dir := by
  induction n, h using Nat.le_induction with
  | base => exact List.take_of_length_le (length_basis m dir).le
  | succ n h ih =>
    have hle : coefficientCount m ≤ (basis n dir).length := by
      rw [length_basis]
      exact coefficientCount_le h
    rw [basis_succ, List.take_append_of_le_length hle, ih]

theorem basis_head (order : Nat) (dir : Vec3 α) : (basis order dir)[0]? = some k00 := by
  have h : (basis order dir).take (coefficientCount 0) = [k00] := take_basis (Nat.zero_le order) dir
  rw [← List.getElem?_take_of_lt (coefficientCount_pos 0), h]
  rfl

theorem length_addProjected {order : Nat} {coeffs : List α}
    (h : coeffs.length = coefficientCount order) (dir : Vec3 α) (value : α) :
    (addProjected order dir coeffs value).length = coefficientCount order := by
  rw [addProjected]
  split
  · exact h
  · rw [List.length_zipWith, h, length_basis, Nat.min_self]

theorem take_addProjected {m n : Nat} (h : m ≤ n) (dir : Vec3 α) (coeffs : List α) (value : α) :
    (addProjected n dir coeffs value).take (coefficientCount m) =
      addProjected m dir (coeffs.take (coefficientCount m)) value := by
  rw [addProjected, addProjected]
  split
  · rfl
  · rw [List.take_zipWith, take_basis h]

end RadianceTransfer.Harmonics
