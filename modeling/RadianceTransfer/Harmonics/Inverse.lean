import RadianceTransfer.Failure

/-!
# Inverting a matrix

Square matrices are kept as rows of entries, each entry computed once. A matrix is inverted by
elimination with row exchanges: what turns it into the identity turns the identity into its
inverse.

## One column at a time

For every column the row with the largest entry at or below the diagonal is brought to the
diagonal, divided by that entry, and subtracted from all the others as often as clears the column.
A matrix whose largest entry is tiny is taken for singular.

## Main definitions

* `SquareMatrix`: rows of entries.
* `SquareMatrix.mul`, `SquareMatrix.apply`: products.
* `Elimination`: a matrix and what has become of the identity.
* `SquareMatrix.inverse?`: the inverse.
-/

namespace RadianceTransfer.Harmonics

/-- A matrix of `n` rows of `n` entries. -/
structure SquareMatrix (n : Nat) (α : Type) where
  /-- The rows. -/
  rows : Vector (Vector α n) n

namespace SquareMatrix

variable {α : Type} {n : Nat}

/-- The matrix with given entries. -/
@[inline] def ofFn (f : Fin n → Fin n → α) : SquareMatrix n α :=
  ⟨Vector.ofFn fun i => Vector.ofFn fun j => f i j⟩

/-- The entry in a row and column. -/
@[inline] def get (m : SquareMatrix n α) (i j : Fin n) : α :=
  m.rows[i][j]

@[simp] theorem get_ofFn (f : Fin n → Fin n → α) (i j : Fin n) : (ofFn f).get i j = f i j := by
  simp [get, ofFn]

variable [Scalar α]

/-- The matrix with ones on the diagonal. -/
@[specialize] def identity (n : Nat) : SquareMatrix n α :=
  ofFn fun i j => if i = j then 1 else 0

/-- A sum over all positions in order, starting from zero. -/
@[specialize] def sum (f : Fin n → α) : α :=
  Fin.foldl n (fun s k => s + f k) 0

/-- The product of two matrices. -/
@[specialize] def mul (a b : SquareMatrix n α) : SquareMatrix n α :=
  ofFn fun i j => sum fun k => a.get i k * b.get k j

/-- The matrix applied to a vector. -/
@[specialize] def apply (a : SquareMatrix n α) (v : Vector α n) : Vector α n :=
  Vector.ofFn fun i => sum fun j => a.get i j * v[j]

end SquareMatrix

/-- A matrix under elimination beside what has become of the identity. -/
structure Elimination (n : Nat) (α : Type) where
  /-- The matrix. -/
  left : SquareMatrix n α
  /-- The identity after the same row operations. -/
  right : SquareMatrix n α

namespace Elimination

variable {α : Type} {n : Nat} [Scalar α]

/-- Changes every row of both matrices by the same rule. The rule sees the rows of its own matrix
only. -/
@[inline] def mapRows (f : Vector (Vector α n) n → Fin n → Vector α n) (e : Elimination n α) :
    Elimination n α :=
  ⟨⟨Vector.ofFn (f e.left.rows)⟩, ⟨Vector.ofFn (f e.right.rows)⟩⟩

/-- The first row at or below the diagonal with the largest magnitude in a column. -/
@[specialize] def pivot (e : Elimination n α) (col : Fin n) : Fin n :=
  Fin.foldl n (fun best row =>
    if col < row ∧ Signed.abs (e.left.get best col) < Signed.abs (e.left.get row col) then row
    else best) col

/-- Exchanges two rows. -/
@[specialize] def swap (e : Elimination n α) (i j : Fin n) : Elimination n α :=
  e.mapRows fun rows k => if k = i then rows[j] else if k = j then rows[i] else rows[k]

/-- Multiplies a row by a factor. -/
@[specialize] def scaleRow (e : Elimination n α) (i : Fin n) (s : α) : Elimination n α :=
  e.mapRows fun rows k => if k = i then rows[k].map (· * s) else rows[k]

/-- Subtracts a row from all the others, each time as often as clears a column. A row that is clear
already is left alone. -/
@[specialize] def clear (e : Elimination n α) (col : Fin n) : Elimination n α :=
  e.mapRows fun rows k =>
    let f := e.left.get k col
    if k = col ∨ f == 0 then rows[k]
    else rows[k].zipWith (fun x y => x - f * y) rows[col]

/-- Turns a column into that of the identity, unless its largest entry is tiny. -/
@[specialize] def step (e : Elimination n α) (col : Fin n) : Option (Elimination n α) :=
  let p := e.pivot col
  if Signed.abs (e.left.get p col) < 1e-10 then none
  else
    let e := if p = col then e else e.swap col p
    let e := e.scaleRow col (1 / e.left.get col col)
    some (e.clear col)

end Elimination

/-- The inverse of a matrix, unless it is found singular. -/
@[specialize] def SquareMatrix.inverse? {α : Type} {n : Nat} [Scalar α] (m : SquareMatrix n α) :
    Option (SquareMatrix n α) :=
  (Fin.foldl n (fun e col => e.bind fun e => e.step col)
    (some ⟨m, SquareMatrix.identity n⟩)).map Elimination.right

end RadianceTransfer.Harmonics
