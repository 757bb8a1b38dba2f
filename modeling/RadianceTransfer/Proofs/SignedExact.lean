import RadianceTransfer.Proofs.Exact

/-!
# Exact numbers with two zeros

Words have a positive and a negative zero. They are equal, and the only operation that tells them
apart is division: one over the positive zero is the upper infinity, one over the negative zero the
lower one. Here the negative zero is added to the exact numbers. A sum that is zero is negative only
if both parts are; products and quotients have the sign of their parts.

Forgetting the sign of zero (`toExact`) commutes with everything but division and the sign itself.
The functions that exact numbers leave open do not see the sign.
-/

namespace RadianceTransfer

/-- The exact numbers, with a second zero. -/
inductive SignedExact (K : Type) where
  /-- An exact number; its zero is the positive one. -/
  | exact (a : Exact K)
  /-- The negative zero. -/
  | negZero
  deriving DecidableEq

namespace SignedExact

variable {K : Type}

/-! ### Operations -/

/-- The number without the sign of a zero. -/
def toExact [Zero K] : SignedExact K → Exact K
  | exact a => a
  | negZero => .fin 0

/-- Whether the sign is negative, that of a zero included. -/
def negative [Zero K] [LT K] [DecidableLT K] : SignedExact K → Bool
  | exact a => a.isNegative
  | negZero => true

/-- An exact number, which takes a sign if it is zero. -/
def withSign [Zero K] [DecidableEq K] (negative : Bool) (a : Exact K) : SignedExact K :=
  if a = .fin 0 ∧ negative = true then negZero else exact a

/-- What is zero but for its sign is one of the two zeros. -/
theorem eq_of_toExact_eq_zero [Zero K] {a : SignedExact K} (h : a.toExact = .fin 0) :
    a = exact (.fin 0) ∨ a = negZero := by
  cases a with
  | exact a => exact .inl (congrArg exact h)
  | negZero => exact .inr rfl

theorem eq_of_toExact_ne_zero [Zero K] {a : SignedExact K} {x : K} (h : a.toExact = .fin x)
    (hx : x ≠ 0) : a = exact (.fin x) := by
  cases a with
  | exact a => exact congrArg exact h
  | negZero => exact absurd (Exact.fin.inj h).symm hx

@[simp] theorem toExact_withSign [Zero K] [DecidableEq K] (s : Bool) (a : Exact K) :
    (withSign s a).toExact = a := by
  unfold withSign
  split
  · rename_i h
    exact h.1.symm
  · rfl

theorem withSign_of_ne [Zero K] [DecidableEq K] {s : Bool} {a : Exact K} (h : a ≠ .fin 0) :
    withSign s a = exact a :=
  if_neg fun h' => h h'.1

section

variable [Field K] [LinearOrder K]

/-- The opposite. -/
protected def neg (a : SignedExact K) : SignedExact K :=
  withSign (!a.negative) a.toExact.neg

/-- The sum. -/
protected def add (a b : SignedExact K) : SignedExact K :=
  withSign (a.negative && b.negative) (a.toExact.add b.toExact)

/-- The product. -/
protected def mul (a b : SignedExact K) : SignedExact K :=
  withSign (a.negative != b.negative) (a.toExact.mul b.toExact)

/-- The quotient. Dividing by the negative zero gives the opposite infinity. -/
protected def div (a : SignedExact K) : SignedExact K → SignedExact K
  | exact b => withSign (a.negative != b.isNegative) (a.toExact.div b)
  | negZero => withSign (!a.negative) (a.toExact.div (.fin 0)).neg

end

variable [Field K] [LinearOrder K] [FloorSemiring K] [ExactFunctions K]

/-- Exact numbers with two zeros as scalars. -/
instance instScalar : Scalar (SignedExact K) where
  add := SignedExact.add
  sub a b := a.add b.neg
  mul := SignedExact.mul
  div := SignedExact.div
  neg := SignedExact.neg
  lt a b := a.toExact < b.toExact
  le a b := a.toExact ≤ b.toExact
  beq a b := a.toExact == b.toExact
  ofScientific m s e := exact (OfScientific.ofScientific m s e)
  abs a := exact (Signed.abs a.toExact)
  isNegative := negative
  decLt a b := Exact.decidableLt a.toExact b.toExact
  decLe a b := Exact.decidableLe a.toExact b.toExact
  ofNat n := exact (Scalar.ofNat n)
  toNat a := Scalar.toNat a.toExact
  sqrt a := exact (Scalar.sqrt a.toExact)
  sin a := exact (Scalar.sin a.toExact)
  cos a := exact (Scalar.cos a.toExact)
  acos a := exact (Scalar.acos a.toExact)
  atan2 a b := exact (Scalar.atan2 a.toExact b.toExact)
  pow a b := exact (Scalar.pow a.toExact b.toExact)
  rem a b := exact (Scalar.rem a.toExact b.toExact)
  isFinite a := Scalar.isFinite a.toExact
  infinity := exact Scalar.infinity
  pi := exact Scalar.pi
  roundingBound n := exact (Scalar.roundingBound n)

/-! ### Forgetting the sign of zero -/

variable {a b : SignedExact K}

theorem toExact_add : (a + b).toExact = a.toExact + b.toExact :=
  toExact_withSign ..

theorem toExact_sub : (a - b).toExact = a.toExact - b.toExact := by
  show (SignedExact.add a b.neg).toExact = a.toExact.add b.toExact.neg
  rw [SignedExact.add, toExact_withSign, SignedExact.neg, toExact_withSign]

theorem toExact_mul : (a * b).toExact = a.toExact * b.toExact :=
  toExact_withSign ..

theorem lt_iff : a < b ↔ a.toExact < b.toExact :=
  Iff.rfl

theorem le_iff : a ≤ b ↔ a.toExact ≤ b.toExact :=
  Iff.rfl

/-! ### One over a number -/

/-- One over a number that is not zero. -/
theorem one_div_exact {x : K} (hx : x ≠ 0) :
    (1 / exact (.fin x) : SignedExact K) = exact (1 / .fin x) := by
  have hdiv : (1 / .fin x : Exact K) = .fin (1 / x) := by
    rw [Exact.one_eq, Exact.fin_div_fin hx]
  refine withSign_of_ne (ne_of_eq_of_ne hdiv ?_)
  simpa using hx

theorem one_div_zero : (1 / exact (.fin 0) : SignedExact K) = exact .posInf := by
  have hdiv : (1 / .fin 0 : Exact K) = .posInf := by
    rw [Exact.one_eq]
    show (if (0 : K) = 0 then Exact.infinityOf 1 else _) = _
    rw [if_pos rfl, Exact.infinityOf, if_pos one_pos]
  refine (withSign_of_ne (ne_of_eq_of_ne hdiv ?_)).trans (congrArg exact hdiv)
  simp

theorem one_div_negZero : (1 / negZero : SignedExact K) = exact .negInf := by
  have hdiv : (1 / .fin 0 : Exact K).neg = .negInf := by
    rw [Exact.one_eq]
    show Exact.neg (if (0 : K) = 0 then Exact.infinityOf 1 else _) = _
    rw [if_pos rfl, Exact.infinityOf, if_pos one_pos]
    rfl
  refine (withSign_of_ne (ne_of_eq_of_ne hdiv ?_)).trans (congrArg exact hdiv)
  simp

end SignedExact

end RadianceTransfer
