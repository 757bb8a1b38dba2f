import RadianceTransfer.Number.Decimal

/-!
# Numbers as text

What is written for a scalar, and which texts are read as one.

## The grammar

A number is an optional sign followed by `inf`, `infinity` or `nan` in any case, or by digits with
an optional point among them or at either end, and an optional exponent. At least one digit comes
before the exponent, and the exponent has at least one. Reading gives the nearest value.

## Main definitions

* `NumberText`: a scalar type whose values can be written and read.
* `readDecimal?`: the digits and exponent of a text.

-/

namespace RadianceTransfer

/-- A type whose values can be written and read. -/
class NumberText (α : Type) where
  /-- The text of a value. -/
  render : α → String
  /-- The value of a text, if it is a number. -/
  read? : String → Option α

/-- The value of a run of decimal digits. -/
def digitsValue (cs : List Char) : Nat :=
  cs.foldl (fun n c => 10 * n + (c.toNat - '0'.toNat)) 0

/-- Whether a character is a decimal digit. -/
def isDigit (c : Char) : Bool :=
  '0' ≤ c && c ≤ '9'

/-- Takes a sign off a text and says whether it was a minus. -/
def takeSign : List Char → Bool × List Char
  | '-' :: cs => (true, cs)
  | '+' :: cs => (false, cs)
  | cs => (false, cs)

/-- A signed run of digits that is the whole text. -/
def readExponent? (cs : List Char) : Option Int :=
  let (negative, ds) := takeSign cs
  if ds.isEmpty || !ds.all isDigit then none
  else
    let n : Int := digitsValue ds
    some (if negative then -n else n)

/-- The exponent that ends a number, zero where there is none. -/
def readScale? : List Char → Option Int
  | [] => some 0
  | c :: cs => if c == 'e' || c == 'E' then readExponent? cs else none

/-- The digits and exponent of an unsigned number. -/
def readDecimal? (cs : List Char) : Option Decimal :=
  let whole := cs.takeWhile isDigit
  let rest := cs.dropWhile isDigit
  let (fraction, rest) := match rest with
    | '.' :: cs => (cs.takeWhile isDigit, cs.dropWhile isDigit)
    | cs => ([], cs)
  if whole.isEmpty && fraction.isEmpty then none
  else
    (readScale? rest).map fun e => ⟨digitsValue (whole ++ fraction), e - fraction.length⟩

/-- What a text stands for before it is rounded to a word. -/
inductive NumberToken where
  /-- Not a number. -/
  | nan
  /-- An infinity. -/
  | infinite (negative : Bool)
  /-- A decimal with its sign. -/
  | decimal (negative : Bool) (d : Decimal)

/-- Reads a whole text as a number. -/
def NumberToken.read? (s : String) : Option NumberToken :=
  let (negative, cs) := takeSign s.toList
  let lowered := String.ofList (cs.map Char.toLower)
  if lowered == "inf" || lowered == "infinity" then some (.infinite negative)
  else if lowered == "nan" then some .nan
  else (readDecimal? cs).map (.decimal negative)

/-- The magnitude of a decimal, given what exceeds every word and what is below every word. A
decimal with an exponent far beyond the range of words is one of the two. -/
def Decimal.toScalar [OfScientific α] (infinity zero : α) (d : Decimal) : α :=
  let places := (Nat.toDigits 10 d.digits).length + d.exponent
  if d.digits == 0 then zero
  else if 400 < places then infinity
  else if places < -400 then zero
  else OfScientific.ofScientific d.digits (decide (d.exponent < 0)) d.exponent.natAbs

/-- Rounds what a text stands for to the nearest double word. -/
def NumberToken.toDouble : NumberToken → Float
  | .nan => Float.ofBits 0x7ff8000000000000
  | .infinite negative => if negative then -1.0 / 0.0 else 1.0 / 0.0
  | .decimal negative d =>
    let x : Float := d.toScalar (1.0 / 0.0) 0.0
    if negative then -x else x

/-- Rounds what a text stands for to the nearest single word. -/
def NumberToken.toSingle : NumberToken → Float32
  | .nan => Float32.ofBits 0x7fc00000
  | .infinite negative => if negative then -1.0 / 0.0 else 1.0 / 0.0
  | .decimal negative d =>
    let x : Float32 := d.toScalar (1.0 / 0.0) 0.0
    if negative then -x else x

/-- Double words are written with their shortest digits. -/
instance : NumberText Float where
  render x := (BinaryClass.ofDouble x).render
  read? s := (NumberToken.read? s).map NumberToken.toDouble

/-- Single words are written with their shortest digits. -/
instance : NumberText Float32 where
  render x := (BinaryClass.ofSingle x).render
  read? s := (NumberToken.read? s).map NumberToken.toSingle

end RadianceTransfer
