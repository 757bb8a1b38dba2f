import RadianceTransfer.Number.Binary

/-!
# Single words as double words

Every value of a single word is one of a double word: its significand is short enough, and so is its
exponent. The double word is found by multiplying the significand by the power of two that goes with
it, which needs no rounding.
-/

namespace RadianceTransfer

/-- A power of two as a double word. The exponent has to be one of a full significand. -/
def Double.powerOfTwo (q : Int) : Float :=
  Float.ofBits ((q + 1023).toNat * twoPow 52).toUInt64

/-- A value that is not negative, with a sign. -/
def Double.signed (negative : Bool) (x : Float) : Float :=
  if negative then -x else x

/-- A single word as a double word. Every value of a single word is one of a double word. -/
def Double.ofSingle (x : Float32) : Float :=
  match BinaryClass.ofSingle x with
  | .nan => 0.0 / 0.0
  | .infinite negative => Double.signed negative (1.0 / 0.0)
  | .finite negative a => Double.signed negative (Float.ofNat a.m * Double.powerOfTwo a.q)

end RadianceTransfer
