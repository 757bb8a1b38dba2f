import RadianceTransfer.Failure

/-!
# Numbering of the basis functions

The basis function of degree `l` and order `m`, where `-l ≤ m ≤ l`, has the number `l (l + 1) + m`,
so the functions of a degree are consecutive and follow those of the degrees below.

## Words

The functions whose names end in `?` work on words: a signed or unsigned word of 64 bits holds a
number, one of 32 bits a degree or an order. They fail where a number leaves its word. The others
compute with exact whole numbers.

## Main definitions

* `coefficientCount`: how many functions there are up to a degree.
* `flatIndex`: the number of a function.
* `degreeOrder`: the function of a number.
* `degreeOrderFrom`: the same by correcting a guess of the degree.
-/

namespace RadianceTransfer.Harmonics

/-- The number of coefficients of an expansion up to and including a degree. -/
def coefficientCount (order : Nat) : Nat :=
  (order + 1) * (order + 1)

/-- The number of coefficients as an unsigned word. -/
def coefficientCount? (order : UInt32) : Outcome Nat :=
  let n := coefficientCount order.toNat
  if FitsUnsigned 64 n then .ok n else violate .overflow

/-- The number of the basis function of degree `l` and order `m`. -/
def flatIndex (l : Nat) (m : Int) : Nat :=
  (l * (l + 1) + m).toNat

/-- The number of a basis function by way of a signed word. The order must not exceed the
degree. -/
def flatIndex? (l : UInt32) (m : Int) : Outcome Nat :=
  let square : Int := l.toNat * (l.toNat + 1)
  if l.toNat < m.natAbs then violate .precondition
  else if ¬ FitsSigned 64 square ∨ ¬ FitsSigned 64 (square + m) then violate .overflow
  else .ok (flatIndex l.toNat m)

/-- The whole square root: two more binary digits of the argument give one more of the root. -/
def wholeRoot (n : Nat) : Nat :=
  if n = 0 then 0
  else
    let r := 2 * wholeRoot (n / 4)
    if (r + 1) * (r + 1) ≤ n then r + 1 else r
termination_by n
decreasing_by omega

/-- The degree and order of the basis function of a number. -/
def degreeOrder (i : Nat) : Nat × Int :=
  let l := wholeRoot i
  (l, (i : Int) - l * (l + 1))

/-- Lowers a guess of the degree while its square exceeds the number. -/
def lowerDegree (i : Nat) : Nat → Outcome Nat
  | 0 => .ok 0
  | l + 1 =>
    if ¬ FitsUnsigned 64 ((l + 1) * (l + 1)) then violate .overflow
    else if i < (l + 1) * (l + 1) then lowerDegree i l
    else .ok (l + 1)

/-- Raises a guess of the degree while the next square does not exceed the number. -/
def raiseDegree (i l : Nat) : Outcome Nat :=
  if ¬ FitsUnsigned 64 ((l + 1) * (l + 1)) then violate .overflow
  else if h : (l + 1) * (l + 1) ≤ i then raiseDegree i (l + 1)
  else .ok l
termination_by i - l
decreasing_by
  have : l + 1 ≤ (l + 1) * (l + 1) := Nat.le_mul_self _
  omega

/-- A whole number folded into a signed word of the given number of bits. -/
def signedWord (bits : Nat) (i : Int) : Int :=
  i.bmod (twoPow bits)

/-- The degree and order of the basis function of a number, starting from a guess of the degree
and correcting it in both directions. -/
def degreeOrderFrom (guess i : Nat) : Outcome (Nat × Int) := do
  let l ← raiseDegree i (← lowerDegree i guess)
  if ¬ FitsUnsigned 64 (l * (l + 1)) then violate .overflow
  else
    let m := signedWord 64 i - signedWord 64 (l * (l + 1))
    if ¬ FitsSigned 64 m then violate .overflow
    else .ok (l, signedWord 32 m)

/-- The degree and order of the basis function of a number, as words. -/
def degreeOrder? (i : Nat) : Outcome (Nat × Int) :=
  degreeOrderFrom (wholeRoot i) i

end RadianceTransfer.Harmonics
