import RadianceTransfer.Scalar

/-!
# Failures

A computation ends in one of three ways: with a value, with an error that is reported to whoever
asked for it, or with a violation of what an operation requires of its arguments. Errors carry
their cause as data; their wording is in `Error.message` alone.

## Main definitions

* `StorageError`: why a file could not be read or written.
* `Error`: the causes that are reported.
* `Violation`: the requirements that can be broken.
* `Outcome`: a value or a failure.
-/

namespace RadianceTransfer

/-- Why a file operation was refused. -/
inductive StorageError where
  /-- Nothing is there. -/
  | notFound
  /-- Something is there already. -/
  | exists
  /-- A component of the path is no folder. -/
  | notFolder
  /-- A folder is where a file was wanted. -/
  | isFolder
  /-- The bytes of the file are no text. -/
  | notText
  /-- The path or one of its components is longer than the store allows. -/
  | nameTooLong
  /-- The path holds the character that ends paths for the store. -/
  | zeroInName
  deriving DecidableEq

/-- The wording of a refusal. -/
def StorageError.message : StorageError → String
  | .notFound => "No such file or directory (os error 2)"
  | .exists => "File exists (os error 17)"
  | .notFolder => "Not a directory (os error 20)"
  | .isFolder => "Is a directory (os error 21)"
  | .notText => "stream did not contain valid UTF-8"
  | .nameTooLong => "File name too long (os error 36)"
  | .zeroInName => "file name contained an unexpected NUL byte"

/-- Why a text is no count. -/
inductive CountError where
  /-- There is no text. -/
  | empty
  /-- A character is no digit. -/
  | notADigit
  /-- The count does not fit a word of 64 bits. -/
  | tooLarge
  deriving DecidableEq

/-- The wording of a refused count. -/
def CountError.message : CountError → String
  | .empty => "cannot parse integer from empty string"
  | .notADigit => "invalid digit found in string"
  | .tooLarge => "number too large to fit in target type"

/-- What a property has to be. -/
inductive PropertyKind where
  /-- A whole number. -/
  | integer
  /-- A whole number or a scalar. -/
  | number
  /-- A truth value. -/
  | bool
  /-- A text. -/
  | text
  /-- A list of values. -/
  | array
  /-- A rotation. -/
  | rotation
  /-- A map from names to values. -/
  | map
  deriving DecidableEq

/-- The name of a property kind, with its article. -/
def PropertyKind.phrase : PropertyKind → String
  | .integer => "an integer"
  | .number => "a number"
  | .bool => "a bool"
  | .text => "a string"
  | .array => "an array"
  | .rotation => "a rotation"
  | .map => "an object map"

/-- The size and channel count that tell two image formats apart. -/
structure FaceFormat where
  /-- Pixels per row. -/
  width : Nat
  /-- Rows. -/
  height : Nat
  /-- Values per pixel. -/
  channels : Nat
  deriving DecidableEq

/-- The causes that are reported. -/
inductive Error where
  /-- A triangle names a vertex that the mesh does not have. -/
  | triangleOutOfRange (triangle vertices : Nat)
  /-- There is not one normal per vertex. -/
  | normalCount (normals vertices : Nat)
  /-- A cubemap has six faces. -/
  | faceCount (got : Nat)
  /-- A cubemap face has at least one texel. -/
  | emptyFaces
  /-- A face has another number of texels than its size says. -/
  | texelCount (face : String) (got expected : Nat)
  /-- There is no file for a face. -/
  | missingFace (path : String)
  /-- The file of a face holds no image that can be decoded. -/
  | unreadableFace (path : String)
  /-- A face has another format than the first face. -/
  | faceMismatch (path : String) (got expected : FaceFormat)
  /-- The sample directions of a band do not determine it. -/
  | singularBand (band : Nat)
  /-- The only worker of a loop stopped before its end. -/
  | loopStopped
  /-- One of several workers of a loop stopped before its end. -/
  | workerStopped
  /-- A transport column has another length than the table. -/
  | columnLength (column got expected : Nat)
  /-- The bounce count is negative. -/
  | negativeBounce (got : Int)
  /-- The transfer function has an unknown name. -/
  | unknownTransfer (name : String)
  /-- The order is out of range. -/
  | orderOutOfRange (got : Int)
  /-- The sample count is out of range. -/
  | sampleCountOutOfRange (got : Int)
  /-- The thread count is negative. -/
  | negativeThreads (got : Int)
  /-- No cubemap is named. -/
  | noCubemap
  /-- There are no coefficients to write. -/
  | nothingToWrite
  /-- There is not one transport table per mesh. -/
  | tableCount (tables meshes : Nat)
  /-- A folder could not be made. -/
  | makeFolder (path : String) (cause : StorageError)
  /-- A file could not be made. -/
  | createFile (path : String) (cause : StorageError)
  /-- A file could not be read. -/
  | readFile (path : String) (cause : StorageError)
  /-- A word of a coefficient file is no number. -/
  | badNumber (word : String) (line : Nat) (path : String)
  /-- A line of a coefficient file has the wrong number of values. -/
  | valueCount (line : Nat) (path : String) (got expected : Nat)
  /-- A table has another number of vertices than its mesh. -/
  | vertexCount (table mesh : Nat)
  /-- A transport file belongs to another mesh. -/
  | otherMesh
  /-- A transport file does not start with a count. -/
  | badVertexCount (path : String) (cause : CountError)
  /-- A transport file holds nothing. -/
  | emptyFile (path : String)
  /-- A transport file ends inside a triangle. -/
  | brokenTriangle (path : String)
  /-- A mesh file could not be opened. -/
  | openMesh (path : String) (cause : StorageError)
  /-- A mesh file was opened but holds no usable mesh. -/
  | loadMesh (path : String) (cause : Error)
  /-- The text of a mesh file breaks the format. -/
  | malformedMesh
  /-- A mesh file lists no vertices. -/
  | noVertices
  /-- A mesh file lists no faces. -/
  | noFaces
  /-- A vertex lacks a property. -/
  | missingProperty (name : String)
  /-- A vertex property is a list. -/
  | notScalar
  /-- A face names a negative vertex. -/
  | negativeIndex
  /-- The indices of a face are no list of whole numbers. -/
  | notIndexList
  /-- A face has no indices. -/
  | noIndices
  /-- A face is no triangle. -/
  | notTriangle (corners : Nat)
  /-- A property has a value of another kind. -/
  | propertyKind (name : String) (wanted : PropertyKind) (got : String)
  /-- The scene lists no meshes. -/
  | noMeshes
  /-- The scene describes no integrator. -/
  | noIntegrator
  /-- A scene script could not be evaluated. -/
  | script
  /-- The scene script of a file could not be read or evaluated. -/
  | scriptFile (path : String)
  /-- The program was called without a scene. -/
  | usage

/-- A text between double quotes. -/
def inQuotes (s : String) : String :=
  "\"" ++ s ++ "\""

/-- The wording of an error. A cause that lies in another one follows it after a comma. -/
def Error.message : Error → String
  | .triangleOutOfRange i n =>
    s!"Triangle {i} references a vertex past the end of the mesh ({n} vertices)."
  | .normalCount n v => s!"Mesh has {n} normals for {v} vertices."
  | .faceCount n => s!"A cubemap needs 6 faces, got {n}."
  | .emptyFaces => "Cubemap faces can't be empty."
  | .texelCount face got expected =>
    s!"Cubemap face {face} has {got} texels, expected {expected}."
  | .missingFace path => s!"Missing cubemap face: {path}"
  | .unreadableFace path => s!"could not read cubemap face {path}"
  | .faceMismatch path got expected =>
    s!"Cubemap face {path} is {got.width}x{got.height} with {got.channels} channels, " ++
      s!"expected {expected.width}x{expected.height} with {expected.channels} channels."
  | .singularBand l => s!"Sample directions for SH band {l} produce a singular matrix."
  | .loopStopped => "The calling thread panicked while running a parallel loop."
  | .workerStopped => "A thread panicked while running a parallel loop."
  | .columnLength i got expected =>
    s!"Transport column {i} has {got} coefficients, expected {expected}"
  | .negativeBounce n => s!"The bounce count can't be negative ({n})"
  | .unknownTransfer name =>
    "Unsupported PRT type " ++ inQuotes name ++
      " (expected unshadowed, shadowed or interreflection)"
  | .orderOutOfRange n => s!"SH order must be between 0 and 16, got {n}"
  | .sampleCountOutOfRange n => s!"sample_count must be positive, got {n}"
  | .negativeThreads n => s!"threads can't be negative, got {n}"
  | .noCubemap => "The PRT integrator needs a cubemap directory"
  | .nothingToWrite => "Nothing to write, the integrator hasn't been run yet"
  | .tableCount t m => s!"Have transport for {t} meshes, the scene has {m}"
  | .makeFolder path e => s!"could not create {path}: {e.message}"
  | .createFile path e => s!"could not create {path}, {e.message}"
  | .readFile path e => s!"could not read {path}, {e.message}"
  | .badNumber word line path =>
    "bad number " ++ inQuotes word ++ s!" on line {line} of {path}, invalid float literal"
  | .valueCount line path got expected =>
    s!"Line {line} of {path} has {got} values, expected {expected}"
  | .vertexCount t m => s!"Transport has {t} vertices but the mesh has {m}"
  | .otherMesh => "Transport file doesn't match the mesh"
  | .badVertexCount path e => s!"bad vertex count in {path}, {e.message}"
  | .emptyFile path => s!"{path} is empty"
  | .brokenTriangle path => s!"{path} doesn't hold whole triangles"
  | .openMesh path e => s!"problem when opening ply file: {path}, {e.message}"
  | .loadMesh path e => s!"problem when loading ply file: {path}, " ++ e.message
  | .malformedMesh => "could not parse ply data"
  | .noVertices => "No vertices in the ply data"
  | .noFaces => "No face information in the ply data"
  | .missingProperty name => s!"Vertex without a {name} property"
  | .notScalar => "Expected a scalar vertex property"
  | .negativeIndex => "Negative vertex index in face"
  | .notIndexList => "Face indices must be an integer list"
  | .noIndices => "Face without a vertex_indices list"
  | .notTriangle n => s!"Non triangular face detected ({n} vertices)"
  | .propertyKind name wanted got =>
    "Property " ++ inQuotes name ++ s!" must be {wanted.phrase}, got {got}"
  | .noMeshes => "The scene doesn't list any meshes"
  | .noIntegrator => "The scene doesn't describe an integrator"
  | .script => "problem when running scene script"
  | .scriptFile path => s!"problem when running scene script {path}"
  | .usage => "usage: prism-prt <scene.rhai>"

/-- The requirements of an operation that its caller can break. -/
inductive Violation where
  /-- An index is past the end. -/
  | indexOutOfRange
  /-- A whole number leaves its word. -/
  | overflow
  /-- An argument breaks what the operation asks of it. -/
  | precondition
  /-- A store of fixed capacity is full, or there is no room for what is asked for. -/
  | capacity
  deriving DecidableEq

/-- The two kinds of failure. -/
inductive Failure where
  /-- An error that is reported. -/
  | reported (error : Error)
  /-- A broken requirement, which ends the computation. -/
  | violation (kind : Violation)

/-- A value or a failure. -/
abbrev Outcome (β : Type) : Type := Except Failure β

/-- Fails with a reported error. -/
def report (e : Error) : Outcome β :=
  .error (.reported e)

/-- Fails with a broken requirement. -/
def violate (v : Violation) : Outcome β :=
  .error (.violation v)

/-- The element of an array at an index, which has to be in range. -/
@[inline] def Outcome.get (xs : Array β) (i : Nat) : Outcome β :=
  match xs[i]? with
  | some x => .ok x
  | none => violate .indexOutOfRange

end RadianceTransfer
