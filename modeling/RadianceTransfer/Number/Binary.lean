import RadianceTransfer.Number.Word

/-!
# Binary floating-point values

A finite floating-point number is a whole number times a power of two. This module reads that
form off the bit pattern, for both word sizes in use.

## Main definitions

* `BinaryFormat`: the widths that tell one word size from another.
* `Binary`: a finite non-negative value `m * 2 ^ q`.
* `BinaryFormat.classify`: what a bit pattern stands for.
-/

namespace RadianceTransfer

/-- The layout of a binary floating-point word: how many bits hold the fraction and how many
the exponent. The sign takes one more bit on top. -/
structure BinaryFormat where
  /-- Bits of the fraction. -/
  fractionBits : Nat
  /-- Bits of the exponent. -/
  exponentBits : Nat

namespace BinaryFormat

/-- Words of 64 bits: 52 of fraction, 11 of exponent. -/
def double : BinaryFormat := ⟨52, 11⟩

/-- Words of 32 bits: 23 of fraction, 8 of exponent. -/
def single : BinaryFormat := ⟨23, 8⟩

/-- The exponent of the last place of the smallest values. -/
def minExponent (f : BinaryFormat) : Int :=
  2 - (twoPow (f.exponentBits - 1) : Int) - f.fractionBits

end BinaryFormat

/-- A finite non-negative value `m * 2 ^ q`. -/
structure Binary where
  /-- The significand. -/
  m : Nat
  /-- The exponent of two. -/
  q : Int
  /-- Whether the next value below is only half as far as the next value above. -/
  narrowBelow : Bool

/-- What the bits of a word stand for. -/
inductive BinaryClass where
  /-- Not a number. -/
  | nan
  /-- An infinity. -/
  | infinite (negative : Bool)
  /-- A finite value with its sign; zero has a sign too. -/
  | finite (negative : Bool) (magnitude : Binary)

/-- Splits a bit pattern into sign, exponent and fraction and says what they stand for. -/
def BinaryFormat.classify (f : BinaryFormat) (bits : Nat) : BinaryClass :=
  let fraction := bits % twoPow f.fractionBits
  let exponent := bits / twoPow f.fractionBits % twoPow f.exponentBits
  let negative := bits / twoPow (f.fractionBits + f.exponentBits) % 2 == 1
  if exponent == twoPow f.exponentBits - 1 then
    if fraction == 0 then .infinite negative else .nan
  else if exponent == 0 then
    .finite negative ⟨fraction, f.minExponent, false⟩
  else
    .finite negative
      ⟨twoPow f.fractionBits + fraction, f.minExponent + exponent - 1,
        fraction == 0 && decide (1 < exponent)⟩

/-- The class of a double word. -/
def BinaryClass.ofDouble (x : Float) : BinaryClass :=
  BinaryFormat.double.classify x.toBits.toNat

/-- The class of a single word. -/
def BinaryClass.ofSingle (x : Float32) : BinaryClass :=
  BinaryFormat.single.classify x.toBits.toNat

/-- Two finite values over one common power of two: the significands they have there, and the
exponent. -/
def Binary.align (a b : Binary) : Nat × Nat × Int :=
  let q := min a.q b.q
  (a.m * twoPow (a.q - q).toNat, b.m * twoPow (b.q - q).toNat, q)

end RadianceTransfer
