import RadianceTransfer.Geometry.Vec3
import RadianceTransfer.Mesh.Basic
import RadianceTransfer.Room

/-!
# Transport tables

How light reaches the vertices of a mesh: one column of coefficients per vertex, all of one length.
The columns lie one behind the other in a flat array. Writers see it cut into columns, readers look
a column up by its vertex.

## Main definitions

* `TransportTable`: the flat array and the length of a column.
* `TransportTable.column`: the column of a vertex.
* `TransportTable.columns`, `TransportTable.ofChunks`: all of them, and back.
* `TransportTable.addBlend`: adds a weighted blend of three columns to a list of coefficients.
-/

namespace RadianceTransfer

/-- One column of coefficients per vertex. -/
structure TransportTable (α : Type) where
  /-- The length of a column. -/
  shLen : Nat
  /-- The columns one behind the other. -/
  data : Array α

namespace TransportTable

variable {α : Type}

/-- Tables are equal when their columns are and have the same length. -/
instance [BEq α] : BEq (TransportTable α) where
  beq a b := a.shLen == b.shLen && a.data == b.data

/-- The number of the first column that is not of a given length, and its length. -/
def wrongColumn? (shLen : Nat) (columns : List (List α)) : Option (Nat × Nat) :=
  (columns.zipIdx.find? fun (c, _) => c.length != shLen).map fun (c, i) => (i, c.length)

/-- The table of some columns, which have to be of a given length. The first one that is not is
reported if there is room for as many columns of that length. -/
def ofColumns (shLen : Nat) (columns : List (List α)) : Outcome (TransportTable α) :=
  match wrongColumn? shLen columns with
  | some (i, got) => do
    requireRoom (shLen * columns.length)
    report (.columnLength i got shLen)
  | none => .ok ⟨shLen, columns.flatten.toArray⟩

/-- The number of columns. A table of empty columns has none. -/
def vertexCount (t : TransportTable α) : Nat :=
  if t.shLen = 0 then 0 else t.data.size / t.shLen

/-- The column of a vertex. -/
def column (t : TransportTable α) (vertex : Nat) : Outcome (List α) :=
  let start := vertex * t.shLen
  if start + t.shLen ≤ t.data.size then .ok (t.data.extract start (start + t.shLen)).toList
  else violate .indexOutOfRange

/-- A list cut into pieces of a given length, one less than which is given here. -/
def chunks (size : Nat) : List α → List (List α)
  | [] => []
  | x :: xs => (x :: xs.take size) :: chunks size (xs.drop size)
termination_by xs => xs.length
decreasing_by simp only [List.length_drop, List.length_cons]; omega

/-- All columns in order. -/
def columns (t : TransportTable α) : List (List α) :=
  chunks (max t.shLen 1 - 1) t.data.toList

/-- The table of some columns that are of the right length already. -/
def ofChunks (shLen : Nat) (columns : List (List α)) : TransportTable α :=
  ⟨shLen, columns.flatten.toArray⟩

/-- Changes the columns in place, each by itself. -/
def mapColumns (t : TransportTable α) (f : Nat → List α → List α) : TransportTable α :=
  ofChunks t.shLen (t.columns.zipIdx.map fun (c, i) => f i c)

variable [Scalar α]

/-- The table of a number of vertices to which no light comes. -/
def zero (shLen vertices : Nat) : TransportTable α :=
  ⟨shLen, Array.replicate (shLen * vertices) 0⟩

/-- The table of a number of vertices to which no light comes. There has to be room for it. -/
def zero? (shLen vertices : Nat) : Outcome (TransportTable α) := do
  requireRoom (shLen * vertices)
  pure (zero shLen vertices)

/-- Adds the entries of one list, times a weight, to those of another one, over the entries that
both have. -/
@[specialize] def addWeighted (w : α) : List α → List α → List α
  | o :: out, t :: ts => (o + w * t) :: addWeighted w out ts
  | out, [] => out
  | [], _ => []

/-- Adds the columns of the corners of a triangle to a list of coefficients, each times the weight
of its corner and a common scale. -/
@[specialize] def addBlend (t : TransportTable α) (corners : Triangle) (weights : Vec3 α)
    (scale : α) (out : List α) : Outcome (List α) := do
  let out := addWeighted (weights.x * scale) out (← t.column corners.i0.toNat)
  let out := addWeighted (weights.y * scale) out (← t.column corners.i1.toNat)
  let out := addWeighted (weights.z * scale) out (← t.column corners.i2.toNat)
  pure out

/-- The sum of two tables, whose arrays have to be of the same size. The columns keep the length of
the first one. -/
@[specialize] def add (t other : TransportTable α) : Outcome (TransportTable α) :=
  if t.data.size = other.data.size then
    .ok ⟨t.shLen, Array.zipWith (· + ·) t.data other.data⟩
  else violate .precondition

end TransportTable

end RadianceTransfer
