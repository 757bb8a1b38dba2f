import RadianceTransfer.Number.Binary

/-!
# Decimals of binary values

The text of a binary value has as few digits as still tell it from its neighbours. This module
picks those digits by exact arithmetic on whole numbers.

## Which digits

The reals that round to a value form an interval from half way to the value below to half way to
the value above. Its ends belong to it exactly when the significand is even. For one, two, three,
… digits the two decimals of that many digits around the value are tried. The first number of
digits for which one of them lies in the interval wins. If both do, the nearer one is taken, and
the larger one when they are equally near.

## Main definitions

* `Decimal`: a whole number times a power of ten.
* `Binary.readsBack`: whether a decimal lies in the interval of a value.
* `Binary.shortest`: the digits of a value.
* `Decimal.layout`: digits written positionally, without an exponent.
-/

namespace RadianceTransfer

/-- The number `digits * 10 ^ exponent`. -/
structure Decimal where
  /-- The digits as a whole number. -/
  digits : Nat
  /-- The exponent of ten. -/
  exponent : Int
  deriving DecidableEq

/-- Compares `a * 10 ^ i` with `b * 2 ^ j`. -/
def compareScaled (a : Nat) (i : Int) (b : Nat) (j : Int) : Ordering :=
  compare (a * tenPow i.toNat * twoPow (-j).toNat) (b * twoPow j.toNat * tenPow (-i).toNat)

namespace Binary

/-- Whether a decimal is nearer to a value than to its neighbours, or half way and the value has an
even significand. -/
def readsBack (x : Binary) (d : Decimal) : Bool :=
  let below := if x.narrowBelow then 4 * x.m - 1 else 4 * x.m - 2
  let above := 4 * x.m + 2
  let even := x.m % 2 == 0
  let low := compareScaled d.digits d.exponent below (x.q - 2)
  let high := compareScaled d.digits d.exponent above (x.q - 2)
  (low == .gt || (even && low == .eq)) && (high == .lt || (even && high == .eq))

/-- The least `k` for which a positive value is below `10 ^ k`. The power of two next to the value
leaves four candidates. -/
def leastPower (x : Binary) : Int :=
  let k := (x.m.log2 + x.q) * 30103 / 100000
  let below (k : Int) : Bool := compareScaled 1 k x.m x.q == .gt
  if below k then k else if below (k + 1) then k + 1 else if below (k + 2) then k + 2 else k + 3

/-- A value over `10 ^ g`, as numerator and denominator. -/
def overPower (x : Binary) (g : Int) : Nat × Nat :=
  (x.m * twoPow x.q.toNat * tenPow (-g).toNat, twoPow (-x.q).toNat * tenPow g.toNat)

/-- The decimal on the grid of `10 ^ g` that stands for a value, if one does: of the two
neighbours on the grid the nearer one that reads back. -/
def onGrid? (x : Binary) (g : Int) : Option Decimal :=
  let (n, d) := x.overPower g
  let low : Decimal := ⟨n / d, g⟩
  let high : Decimal := ⟨n / d + 1, g⟩
  match x.readsBack low, x.readsBack high with
  | true, true => some (if 2 * n < (2 * (n / d) + 1) * d then low else high)
  | true, false => some low
  | false, true => some high
  | false, false => none

/-- The value itself as a decimal. -/
def exact (x : Binary) : Decimal :=
  if 0 ≤ x.q then ⟨x.m * twoPow x.q.toNat, 0⟩ else ⟨x.m * Nat.pow 5 (-x.q).toNat, x.q⟩

/-- The fewest digits that stand for a positive value. -/
def shortest (x : Binary) : Decimal :=
  let k := x.leastPower
  ((List.range 17).findSome? fun (n : Nat) => x.onGrid? (k - (n + 1))).getD x.exact

end Binary

namespace Decimal

/-- Digits written positionally: zeros are filled in on the right or, after a point, on the
left, and zeros that end a fraction are left out. -/
def layout (d : Decimal) : String :=
  let ds := Nat.toDigits 10 d.digits
  if 0 ≤ d.exponent then
    String.ofList (ds ++ List.replicate d.exponent.toNat '0')
  else
    let places := (-d.exponent).toNat
    let padded := List.replicate (places + 1 - ds.length) '0' ++ ds
    let whole := padded.take (padded.length - places)
    let fraction := ((padded.drop (padded.length - places)).reverse.dropWhile (· == '0')).reverse
    if fraction.isEmpty then String.ofList whole
    else String.ofList (whole ++ '.' :: fraction)

end Decimal

/-- The text of a binary value: its shortest digits, written positionally, with a minus sign in
front of a negative value or a negative zero. -/
def BinaryClass.render : BinaryClass → String
  | .nan => "NaN"
  | .infinite negative => if negative then "-inf" else "inf"
  | .finite negative x =>
    (if negative then "-" else "") ++ (if x.m == 0 then "0" else x.shortest.layout)

end RadianceTransfer
