/-!
# Words

A word of a number of bits holds the whole numbers below a power of two, or, if it is signed, those
from minus half that power up to below half of it.
-/

namespace RadianceTransfer

/-- A power of two. -/
def twoPow (n : Nat) : Nat :=
  Nat.pow 2 n

/-- A power of ten. -/
def tenPow (n : Nat) : Nat :=
  Nat.pow 10 n

/-- Whether an unsigned word of a number of bits holds a number. -/
abbrev FitsUnsigned (bits : Nat) (n : Nat) : Prop :=
  n < twoPow bits

/-- Whether a signed word of a number of bits holds a number. -/
abbrev FitsSigned (bits : Nat) (i : Int) : Prop :=
  -(twoPow (bits - 1) : Int) ≤ i ∧ i < (twoPow (bits - 1) : Int)

end RadianceTransfer
