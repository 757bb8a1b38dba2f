import RadianceTransfer.Number.Count
import RadianceTransfer.Storage.Store
import RadianceTransfer.Text.Blank
import RadianceTransfer.Transport.Light
import RadianceTransfer.Transport.Table

/-!
# Coefficient files

Lighting and transport are kept in plain text. A lighting file has a line with three values for
every basis function. A transport file starts with the number of vertices, followed by one line for
every corner of every triangle, in the order of the mesh, with the column of that corner. Values are
written so that reading them gives the same values again.

## Main definitions

* `writeLight`, `readLight`: lighting files.
* `writeTransport`, `readTransport`: transport files.
* `TransportFile`: what a transport file holds.
* `TransportFile.toTable`: the table of a mesh.
-/

namespace RadianceTransfer

variable {α σ : Type} [NumberText α] [FileStore σ α]

/-- Values in a line. -/
def renderLine (values : List α) : String :=
  " ".intercalate (values.map NumberText.render) ++ "\n"

/-- The text of a lighting file. -/
def renderLight (light : LightCoeffs α) : String :=
  String.join (light.coeffs.map fun c => renderLine [c.r, c.g, c.b])

/-- Writes a lighting file. -/
def writeLight (path : String) (light : LightCoeffs α) : Storing σ Unit :=
  FileStore.writeText α path (renderLight light)

/-- The columns of the corners of all triangles. -/
def cornerColumns (mesh : Mesh α) (table : TransportTable α) : Outcome (List (List α)) :=
  (mesh.triangles.toList.flatMap Triangle.toList).mapM fun i => table.column i.toNat

/-- Writes the transport file of a mesh, whose vertices have to be those of the table. -/
def writeTransport (path : String) (mesh : Mesh α) (table : TransportTable α) :
    Storing σ Unit := do
  if table.vertexCount ≠ mesh.vertexCount then
    Storing.fail (.vertexCount table.vertexCount mesh.vertexCount)
  else
    let columns ← Storing.ofOutcome (cornerColumns mesh table)
    FileStore.writeText α path
      (s!"{mesh.vertexCount}\n" ++ String.join (columns.map renderLine))

/-- The values of a line, given its number and path for the error. -/
def readLine (path : String) (number : Nat) (line : List Char) : Outcome (List α) :=
  (Text.words line).mapM fun word =>
    let word := String.ofList word
    match NumberText.read? word with
    | some x => .ok x
    | none => report (.badNumber word number path)

/-- The lines of a text that are not blank, with their numbers counted from one. -/
def numberedLines (text : String) : List (List Char × Nat) :=
  ((Text.lines text.toList).zipIdx 1).filter fun (line, _) => !(Text.trim line).isEmpty

/-- The lighting in a text. -/
def parseLight (path text : String) : Outcome (LightCoeffs α) := do
  let coeffs ← (numberedLines text).mapM fun (line, number) => do
    match ← readLine path number line with
    | [r, g, b] => pure (⟨r, g, b⟩ : Color α)
    | values => report (.valueCount number path values.length 3)
  pure ⟨coeffs⟩

/-- Reads a lighting file. -/
def readLight (s : σ) (path : String) : Outcome (LightCoeffs α) :=
  match FileStore.readText α s path with
  | .ok text => parseLight path text
  | .error e => report (.readFile path e)

/-- What a transport file holds. -/
structure TransportFile (α : Type) where
  /-- The number of vertices. -/
  vertexCount : Nat
  /-- The columns of the corners. -/
  corners : List (List α)

/-- The columns of some lines, each of which has to have as many values as the first one. -/
def readCorners (path : String) : Option Nat → List (List Char × Nat) → Outcome (List (List α))
  | _, [] => pure []
  | expected, (line, number) :: rest => do
    let values ← readLine path number line
    let count := expected.getD values.length
    if values.length ≠ count then report (.valueCount number path values.length count)
    else
      let more ← readCorners path (some count) rest
      pure (values :: more)

/-- The transport in a text. -/
def parseTransport (path text : String) : Outcome (TransportFile α) :=
  match numberedLines text with
  | [] => report (.emptyFile path)
  | (line, _) :: rest =>
    match readCount (String.ofList (Text.trim line)) with
    | .error e => report (.badVertexCount path e)
    | .ok vertexCount => do
      let corners ← readCorners path none rest
      if corners.length % 3 ≠ 0 then report (.brokenTriangle path)
      else pure ⟨vertexCount, corners⟩

/-- Reads a transport file. -/
def readTransport (s : σ) (path : String) : Outcome (TransportFile α) :=
  match FileStore.readText α s path with
  | .ok text => parseTransport path text
  | .error e => report (.readFile path e)

/-- The table of a mesh, whose triangles tell which corner is which vertex. A vertex without a
corner gets no light. -/
def TransportFile.toTable [Scalar α] (f : TransportFile α) (mesh : Mesh α) :
    Outcome (TransportTable α) :=
  if f.vertexCount ≠ mesh.vertexCount ∨ f.corners.length ≠ 3 * mesh.triangleCount then
    report .otherMesh
  else
    let shLen := (f.corners.head?.map List.length).getD 0
    let corners := (mesh.triangles.toList.flatMap Triangle.toList).zip f.corners
    let columns := corners.foldl (fun columns (i, column) => columns.set i.toNat column)
      (List.replicate f.vertexCount (List.replicate shLen 0))
    TransportTable.ofColumns shLen columns

end RadianceTransfer
