import RadianceTransfer.Script.Value.Text

/-!
# Operators on script values

An operation on whole numbers whose result does not fit a signed word of 64 bits has none. Where a
whole number meets a scalar it is made one. An operator has no value on operands that it is not
meant for.

## Main definitions

* `Value.negate`, `Value.keep`, `Value.not`: the operators in front of an operand.
* `Value.plus`, `Value.minus`, `Value.times`, `Value.divide`, `Value.modulo`, `Value.precedes`: the
  operators between two operands.
* `Value.added`: what a variable holds after something is added to it.
-/

namespace RadianceTransfer.Script.Value

variable {α : Type} [Scalar α]

/-- Two values as scalars, if both are numbers and one of them is a scalar. -/
def scalars? : Value α → Value α → Option (α × α)
  | scalar x, scalar y => some (x, y)
  | scalar x, int j => some (x, Scalar.ofInt j)
  | int i, scalar y => some (Scalar.ofInt i, y)
  | _, _ => none

/-- The opposite number. -/
def negate : Value α → Option (Value α)
  | int i => int? (-i)
  | scalar x => some (scalar (-x))
  | _ => none

/-- The same number. -/
def keep : Value α → Option (Value α)
  | int i => some (int i)
  | scalar x => some (scalar x)
  | _ => none

/-- The other truth value. -/
def not : Value α → Option (Value α)
  | bool b => some (bool !b)
  | _ => none

/-- A text that holds two values one behind the other, if one of them is a text or both are
characters. -/
def joined? [NumberText α] : Value α → Value α → Option String
  | text s, b => some (s ++ b.shown)
  | a, text t => some (a.shown ++ t)
  | char c, char d => some (String.ofList [c, d])
  | _, _ => none

/-- The sum of two numbers, or two texts, lists or maps put together. -/
def plus [NumberText α] : Value α → Value α → Option (Value α)
  | int i, int j => int? (i + j)
  | array xs, array ys => some (array (xs ++ ys))
  | map fs, map gs => some (map (gs.foldl (fun fs (n, v) => insert fs n v) fs))
  | a, b =>
    match scalars? a b with
    | some (x, y) => some (scalar (x + y))
    | none => (joined? a b).map text

/-- What is left of a text without the occurrences of another one, from left to right. The first
`inside` characters belong to an occurrence. -/
def without (part : List Char) : (inside : Nat) → List Char → List Char
  | _, [] => []
  | inside + 1, _ :: cs => without part inside cs
  | 0, c :: cs =>
    if part.isPrefixOf (c :: cs) then without part (part.length - 1) cs else c :: without part 0 cs

/-- The difference of two texts: the first one without the occurrences of the second. If one of them
is empty it is the other one. -/
def textWithout (s t : String) : String :=
  if t.isEmpty then s
  else if s.isEmpty then t
  else String.ofList (without t.toList 0 s.toList)

/-- The difference of two numbers, or a text without the occurrences of another one or of a
character. -/
def minus : Value α → Value α → Option (Value α)
  | int i, int j => int? (i - j)
  | text s, text t => some (text (textWithout s t))
  | text s, char c => some (text (String.ofList (s.toList.filter (· != c))))
  | a, b => (scalars? a b).map fun (x, y) => scalar (x - y)

/-- What a variable holds after a value is added to it in place. A list takes in the items of
another list, and any other value as an item. -/
def added [NumberText α] : Value α → Value α → Option (Value α)
  | array xs, array ys => some (array (xs ++ ys))
  | array xs, b => some (array (xs ++ [b]))
  | a, b => a.plus b

/-- The product of two numbers or of two rotations. -/
def times : Value α → Value α → Option (Value α)
  | int i, int j => int? (i * j)
  | rotation m, rotation n => some (rotation (m * n))
  | a, b => (scalars? a b).map fun (x, y) => scalar (x * y)

/-- The quotient of two numbers. That of whole numbers is rounded toward zero, and the divisor must
not be zero. -/
def divide : Value α → Value α → Option (Value α)
  | int i, int j => if j = 0 then none else int? (i.tdiv j)
  | a, b => (scalars? a b).map fun (x, y) => scalar (x / y)

/-- The remainder of the quotient that is rounded toward zero. Whole numbers have one where they
have a quotient. -/
def modulo : Value α → Value α → Option (Value α)
  | int i, int j => do
    if j = 0 then none
    else
      let _ ← (CheckedInt.ofInt (i.tdiv j)).toInt?
      some (int (i.tmod j))
  | a, b => (scalars? a b).map fun (x, y) => scalar (Scalar.rem x y)

/-- Whether a value comes before another one. Values of different types do not come before each
other, apart from numbers. -/
def precedes : Value α → Value α → Option Bool
  | int i, int j => some (decide (i < j))
  | text s, text t => some (decide (s < t))
  | char c, char d => some (decide (c < d))
  | text s, char d => some (decide (s < String.singleton d))
  | char c, text t => some (decide (String.singleton c < t))
  | bool b, bool c => some (!b && c)
  | unit, unit => some false
  | array _, array _ => none
  | map _, map _ => none
  | vector _, vector _ => none
  | rotation _, rotation _ => none
  | a, b =>
    match scalars? a b with
    | some (x, y) => some (decide (x < y))
    | none => some false

end RadianceTransfer.Script.Value
