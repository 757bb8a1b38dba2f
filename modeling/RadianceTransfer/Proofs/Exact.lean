import Mathlib
import RadianceTransfer.Geometry.Box

/-!
# Exact numbers

Floating-point words without rounding: the elements of an ordered field, the two infinities, and a
value that is no number. Infinities arise as words have them, and comparisons with the value that is
no number fail, but an operation on elements of the field has its exact result. There is one zero.

The field may be the rational numbers, in which all of the geometry of boxes, rays and triangles
stays, or any larger one. What its arithmetic does not determine is left open: the functions whose
values need not lie in it, and the bound on rounding errors, of which only the sign is known.

## Main definitions

* `Exact`: the exact numbers of a field.
* `ExactFunctions`: what is left open.
* `Exact.IsFinite`: the elements of the field; likewise for vectors and rays.
-/

namespace RadianceTransfer

/-- The elements of a field, the infinities, and a value that is no number. -/
inductive Exact (K : Type) where
  /-- No number. -/
  | nan
  /-- Below every number. -/
  | negInf
  /-- An element of the field. -/
  | fin (x : K)
  /-- Above every number. -/
  | posInf
  deriving DecidableEq

/-- What the arithmetic of an ordered field leaves open. -/
class ExactFunctions (K : Type) [Zero K] [LE K] where
  /-- Square root. -/
  sqrt : Exact K → Exact K
  /-- Sine. -/
  sin : Exact K → Exact K
  /-- Cosine. -/
  cos : Exact K → Exact K
  /-- The angle with a given cosine. -/
  acos : Exact K → Exact K
  /-- The angle of a point. -/
  atan2 : Exact K → Exact K → Exact K
  /-- Power. -/
  pow : Exact K → Exact K → Exact K
  /-- Remainder. -/
  rem : Exact K → Exact K → Exact K
  /-- Half the circumference of the unit circle. -/
  pi : K
  /-- The bound on the relative error of a number of operations. -/
  roundingBound : Int → K
  /-- No such bound is negative. -/
  roundingBound_nonneg : ∀ n, 0 ≤ roundingBound n

namespace Exact

variable {K : Type}

/-! ### Operations -/

/-- The opposite. -/
protected def neg [Neg K] : Exact K → Exact K
  | nan => nan
  | negInf => posInf
  | fin x => fin (-x)
  | posInf => negInf

/-- The sum. Opposite infinities have none. -/
protected def add [Add K] : Exact K → Exact K → Exact K
  | nan, _ => nan
  | _, nan => nan
  | fin x, fin y => fin (x + y)
  | posInf, negInf => nan
  | negInf, posInf => nan
  | posInf, _ => posInf
  | _, posInf => posInf
  | negInf, _ => negInf
  | _, negInf => negInf

/-- The infinity of a sign, none for zero. -/
def infinityOf [Zero K] [LT K] [DecidableLT K] (x : K) : Exact K :=
  if 0 < x then posInf else if x < 0 then negInf else nan

section

variable [Field K] [LinearOrder K]

/-- The product. An infinity times zero has none. -/
protected def mul : Exact K → Exact K → Exact K
  | nan, _ => nan
  | _, nan => nan
  | fin x, fin y => fin (x * y)
  | posInf, fin y => infinityOf y
  | fin x, posInf => infinityOf x
  | negInf, fin y => infinityOf (-y)
  | fin x, negInf => infinityOf (-x)
  | posInf, posInf => posInf
  | negInf, negInf => posInf
  | posInf, negInf => negInf
  | negInf, posInf => negInf

/-- The quotient. Dividing by zero gives an infinity, or nothing for zero itself. -/
protected def div : Exact K → Exact K → Exact K
  | nan, _ => nan
  | _, nan => nan
  | fin x, fin y => if y = 0 then infinityOf x else fin (x / y)
  | fin _, _ => fin 0
  | posInf, fin y => if y < 0 then negInf else posInf
  | negInf, fin y => if y < 0 then posInf else negInf
  | _, _ => nan

end

/-- The strict order. -/
protected def lt [LT K] : Exact K → Exact K → Prop
  | fin x, fin y => x < y
  | negInf, fin _ => True
  | negInf, posInf => True
  | fin _, posInf => True
  | _, _ => False

/-- The order. Only the value that is no number is not below itself. -/
protected def le [LE K] : Exact K → Exact K → Prop
  | nan, _ => False
  | _, nan => False
  | fin x, fin y => x ≤ y
  | negInf, _ => True
  | _, posInf => True
  | _, _ => False

/-- Whether a value is equal to another one; the value that is no number is not equal to itself. -/
protected def beq [DecidableEq K] : Exact K → Exact K → Bool
  | nan, _ => false
  | a, b => decide (a = b)

instance decidableLt [LT K] [DecidableLT K] : (a b : Exact K) → Decidable (Exact.lt a b)
  | fin x, fin y => inferInstanceAs (Decidable (x < y))
  | negInf, fin _ => .isTrue trivial
  | negInf, posInf => .isTrue trivial
  | fin _, posInf => .isTrue trivial
  | nan, _ => .isFalse (by simp [Exact.lt])
  | posInf, _ => .isFalse (by simp [Exact.lt])
  | negInf, negInf => .isFalse id
  | negInf, nan => .isFalse id
  | fin _, negInf => .isFalse id
  | fin _, nan => .isFalse id

instance decidableLe [LE K] [DecidableLE K] : (a b : Exact K) → Decidable (Exact.le a b)
  | fin x, fin y => inferInstanceAs (Decidable (x ≤ y))
  | nan, _ => .isFalse (by simp [Exact.le])
  | negInf, nan => .isFalse id
  | fin _, nan => .isFalse id
  | posInf, nan => .isFalse id
  | negInf, negInf => .isTrue trivial
  | negInf, fin _ => .isTrue trivial
  | negInf, posInf => .isTrue trivial
  | fin _, posInf => .isTrue trivial
  | posInf, posInf => .isTrue trivial
  | fin _, negInf => .isFalse id
  | posInf, negInf => .isFalse id
  | posInf, fin _ => .isFalse id

/-- The magnitude. -/
protected def abs [Lattice K] [AddGroup K] : Exact K → Exact K
  | nan => nan
  | fin x => fin |x|
  | _ => posInf

/-- Whether a value is below zero. -/
protected def isNegative [Zero K] [LT K] [DecidableLT K] : Exact K → Bool
  | fin x => decide (x < 0)
  | negInf => true
  | _ => false

/-- The whole part, cut off at the ends of a word. -/
protected def toNat [Semiring K] [LinearOrder K] [FloorSemiring K] : Exact K → Nat
  | fin x => min ⌊x⌋₊ (2 ^ 64 - 1)
  | posInf => 2 ^ 64 - 1
  | _ => 0

/-- Whether a value is an element of the field, as a truth value. -/
protected def finite : Exact K → Bool
  | fin _ => true
  | _ => false

variable [Field K] [LinearOrder K] [FloorSemiring K] [ExactFunctions K]

/-- Exact numbers as scalars. -/
instance instScalar : Scalar (Exact K) where
  add := Exact.add
  sub a b := a.add b.neg
  mul := Exact.mul
  div := Exact.div
  neg := Exact.neg
  lt := Exact.lt
  le := Exact.le
  beq := Exact.beq
  ofScientific m s e := fin (OfScientific.ofScientific m s e)
  abs := Exact.abs
  isNegative := Exact.isNegative
  decLt := Exact.decidableLt
  decLe := Exact.decidableLe
  ofNat n := fin n
  toNat := Exact.toNat
  sqrt := ExactFunctions.sqrt
  sin := ExactFunctions.sin
  cos := ExactFunctions.cos
  acos := ExactFunctions.acos
  atan2 := ExactFunctions.atan2
  pow := ExactFunctions.pow
  rem := ExactFunctions.rem
  isFinite := Exact.finite
  infinity := posInf
  pi := fin ExactFunctions.pi
  roundingBound n := fin (ExactFunctions.roundingBound n)

/-! ### Elements of the field -/

/-- An element of the field. -/
def IsFinite (a : Exact K) : Prop := ∃ x, a = fin x

variable {x y : K} {a b c : Exact K}

@[simp] theorem fin_add_fin : (fin x + fin y : Exact K) = fin (x + y) := rfl

@[simp] theorem neg_fin : (-fin x : Exact K) = fin (-x) := rfl

@[simp] theorem fin_sub_fin : (fin x - fin y : Exact K) = fin (x - y) := by
  rw [sub_eq_add_neg]
  rfl

@[simp] theorem fin_mul_fin : (fin x * fin y : Exact K) = fin (x * y) := rfl

theorem fin_div_fin (hy : y ≠ 0) : (fin x / fin y : Exact K) = fin (x / y) :=
  if_neg hy

@[simp] theorem fin_lt_fin : (fin x : Exact K) < fin y ↔ x < y := Iff.rfl

@[simp] theorem fin_le_fin : (fin x : Exact K) ≤ fin y ↔ x ≤ y := Iff.rfl

@[simp] theorem fin_lt_posInf : (fin x : Exact K) < posInf := trivial

@[simp] theorem fin_le_posInf : (fin x : Exact K) ≤ posInf := trivial

@[simp] theorem not_posInf_lt : ¬ (posInf : Exact K) < a := by
  cases a <;> exact id

@[simp] theorem not_lt_negInf : ¬ a < (negInf : Exact K) := by
  cases a <;> exact id

@[simp] theorem not_lt_nan : ¬ a < (nan : Exact K) := by
  cases a <;> exact id

@[simp] theorem not_nan_lt : ¬ (nan : Exact K) < a := id

@[simp] theorem abs_fin : Signed.abs (fin x : Exact K) = fin |x| := rfl

@[simp] theorem isNegative_fin : Signed.isNegative (fin x : Exact K) = decide (x < 0) := rfl

@[simp] theorem roundingBound_eq (n : Int) :
    (Scalar.roundingBound n : Exact K) = fin (ExactFunctions.roundingBound n) := rfl

theorem ofNat_eq (n : Nat) : (Scalar.ofNat n : Exact K) = fin (n : K) := rfl

@[simp] theorem zero_eq : (0 : Exact K) = fin 0 := congrArg fin Nat.cast_zero

@[simp] theorem one_eq : (1 : Exact K) = fin 1 := congrArg fin Nat.cast_one

@[simp] theorem two_eq : (2 : Exact K) = fin 2 := congrArg fin Nat.cast_ofNat

@[simp] theorem three_eq : (3 : Exact K) = fin 3 := congrArg fin Nat.cast_ofNat

theorem fin_beq_fin : ((fin x : Exact K) == fin y) = decide (x = y) := by
  show decide (fin x = fin y) = decide (x = y)
  simp

theorem least_fin : Scalar.least (fin x : Exact K) (fin y) = fin (min x y) := by
  unfold Scalar.least
  split
  · rename_i h
    rw [min_eq_left (le_of_lt (fin_lt_fin.1 h))]
  · rename_i h
    rw [min_eq_right (not_lt.1 (mt fin_lt_fin.2 h))]

theorem greatest_fin : Scalar.greatest (fin x : Exact K) (fin y) = fin (max x y) := by
  unfold Scalar.greatest
  split
  · rename_i h
    rw [max_eq_left (le_of_lt (fin_lt_fin.1 h))]
  · rename_i h
    rw [max_eq_right (not_lt.1 (mt fin_lt_fin.2 h))]

/-- Only elements of the field have a sum in it. -/
theorem isFinite_of_add (h : (a + b).IsFinite) : a.IsFinite ∧ b.IsFinite := by
  obtain ⟨z, hz⟩ := h
  change Exact.add a b = fin z at hz
  cases a <;> cases b <;> simp [Exact.add, IsFinite] at hz ⊢

/-- Only elements of the field have a product in it. -/
theorem isFinite_of_mul (h : (a * b).IsFinite) : a.IsFinite ∧ b.IsFinite := by
  have hinf (x z : K) : infinityOf x ≠ fin z := by
    unfold infinityOf
    split
    · simp
    · split <;> simp
  obtain ⟨z, hz⟩ := h
  change Exact.mul a b = fin z at hz
  cases a <;> cases b <;> simp [Exact.mul, IsFinite, hinf] at hz ⊢

/-! ### Order -/

theorem fin_lt_of_le_of_lt (hxy : x ≤ y) (hya : fin y < a) : fin x < a := by
  cases a with
  | nan => exact hya.elim
  | negInf => exact hya.elim
  | fin z => exact lt_of_le_of_lt hxy hya
  | posInf => exact trivial

theorem le_of_lt' (h : a < b) : a ≤ b := by
  cases a <;> cases b <;> first | exact trivial | exact h.elim | exact le_of_lt h

theorem not_le_of_lt (h : a < b) : ¬ b ≤ a := by
  cases a <;> cases b <;> first | exact id | exact h.elim | exact not_le.2 h

/-- A number that is no element of the field can still be compared with one. -/
theorem fin_lt_or_le (h : a ≠ nan) (x : K) : fin x < a ∨ a ≤ fin x := by
  cases a with
  | nan => exact absurd rfl h
  | negInf => exact .inr trivial
  | fin y => exact lt_or_ge x y
  | posInf => exact .inl trivial

/-- What is not before a number is not before what is not past it. -/
theorem not_lt_of_not_lt (ha : ¬ fin x < a) (hb : ¬ b < fin x) : ¬ b < a := by
  intro h
  cases a with
  | nan => exact not_lt_nan h
  | negInf => exact not_lt_negInf h
  | fin y =>
    cases b with
    | nan => exact not_nan_lt h
    | negInf => exact hb trivial
    | fin z => exact hb (lt_of_lt_of_le (fin_lt_fin.1 h) (not_lt.1 ha))
    | posInf => exact not_posInf_lt h
  | posInf => exact ha trivial

/-- What is not past a number is before all that the number is before, unless it is no number. -/
theorem lt_iff_ne_nan (ha : ¬ fin x < a) (hb : fin x < b) : a < b ↔ a ≠ nan := by
  cases a with
  | nan => simp
  | negInf =>
    have : (negInf : Exact K) < b := by
      cases b <;> first | exact trivial | exact hb.elim
    simp [this]
  | fin y => simp [fin_lt_of_le_of_lt (not_lt.1 ha) hb]
  | posInf => exact absurd trivial ha

/-- What is not before a positive number is positive, unless it is no number. -/
theorem zero_lt_iff_ne_nan (hx : 0 < x) (ha : ¬ a < fin x) : 0 < a ↔ a ≠ nan := by
  rw [zero_eq]
  cases a with
  | nan => simp
  | negInf => exact absurd trivial ha
  | fin y => simp [hx.trans_le (not_lt.1 ha)]
  | posInf => simp

theorem le_trans' (hab : a ≤ b) (hbc : b ≤ c) : a ≤ c := by
  cases a <;> cases b <;> cases c <;> first | exact trivial | exact hab.elim | exact hbc.elim | skip
  exact le_trans hab hbc

end Exact

/-! ### Rational numbers -/

/-- The rational numbers. The functions that leave them have no value, and the bound on rounding
errors is the one of words of 64 bits. -/
instance : ExactFunctions ℚ where
  sqrt _ := .nan
  sin _ := .nan
  cos _ := .nan
  acos _ := .nan
  atan2 _ _ := .nan
  pow _ _ := .nan
  rem _ _ := .nan
  pi := 355 / 113
  roundingBound n := |n / 2 ^ 53 / (1 - n / 2 ^ 53)|
  roundingBound_nonneg _ := abs_nonneg _

end RadianceTransfer
