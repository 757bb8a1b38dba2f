import RadianceTransfer.Cubemap.Face
import RadianceTransfer.Cubemap.Image

/-!
# Cubemaps

A cubemap holds linear radiance for the texels of all six faces, which are of one size.

## Main definitions

* `CubeMap`: six faces of the same positive size.
* `CubeMap.ofFaces`: a cubemap from faces that are decoded already.
* `CubeMap.load`: a cubemap from the files of its faces.
-/

namespace RadianceTransfer

/-- Linear radiance on the six faces of a cube. -/
structure CubeMap (α : Type) where
  /-- Texels per row. -/
  width : Nat
  /-- Rows per face. -/
  height : Nat
  /-- The texels of each face, row by row, in the order of `CubeFace.all`. -/
  faces : List (Array (Color α))
  /-- There are six faces. -/
  length_faces : faces.length = CubeFace.all.length
  /-- A row holds a texel. -/
  width_pos : 0 < width
  /-- A face has a row. -/
  height_pos : 0 < height
  /-- Every face is of the stated size. -/
  size_face : ∀ f ∈ faces, f.size = width * height

namespace CubeMap

variable {α : Type}

/-- The name and texel count of the first face that is not of a given size. -/
def wrongFace? (size : Nat) (faces : List (Array (Color α))) : Option (CubeFace × Nat) :=
  ((CubeFace.all.zip faces).find? fun (_, texels) => texels.size != size).map
    fun (face, texels) => (face, texels.size)

theorem size_of_wrongFace?_eq_none {size : Nat} {faces : List (Array (Color α))}
    (length : faces.length = CubeFace.all.length) (h : wrongFace? size faces = none) :
    ∀ f ∈ faces, f.size = size := by
  intro f hf
  obtain ⟨i, hi, rfl⟩ := List.getElem_of_mem hf
  have hz : i < (CubeFace.all.zip faces).length := by
    simp only [List.length_zip]; omega
  rw [wrongFace?, Option.map_eq_none_iff, List.find?_eq_none] at h
  have := h _ (List.getElem_mem hz)
  simpa using this

/-- A cubemap from faces that are decoded already. There have to be six, none of them empty and all
of the stated size. -/
def ofFaces (width height : Nat) (faces : List (Array (Color α))) : Outcome (CubeMap α) :=
  if length : faces.length = CubeFace.all.length then
    if nonempty : 0 < width ∧ 0 < height then
      if ¬ FitsUnsigned 64 (width * height) then violate .overflow
      else
        match h : wrongFace? (width * height) faces with
        | some (face, got) => report (.texelCount face.name got (width * height))
        | none =>
          .ok ⟨width, height, faces, length, nonempty.1, nonempty.2,
            size_of_wrongFace?_eq_none length h⟩
    else report .emptyFaces
  else report (.faceCount faces.length)

/-- The texel in a column and a row of a face. -/
@[inline] def texel (m : CubeMap α) (face x y : Nat) : Outcome (Color α) :=
  match m.faces[face]? with
  | some texels => Outcome.get texels (y * m.width + x)
  | none => violate .indexOutOfRange

variable [Scalar α]

/-- The path of the file of a face in a folder. -/
def facePath (join : String → String → String) (folder extension : String) (face : CubeFace) :
    String :=
  join folder (face.name ++ "." ++ extension)

/-- The linear radiance of an image. Bounded samples follow a power curve. -/
def linearize (image : DecodedImage α) : Array (Color α) :=
  if image.unbounded then image.texels else image.texels.map (·.pow 2.2)

/-- Reads the files of some faces, which all have to be images of one format: that of the first
face, if it is known already. The texels come with the format that was found. -/
def loadFaces (path : CubeFace → String) (lookup : String → FaceFile α) :
    List CubeFace → Option FaceFormat → Outcome (List (Array (Color α)) × Option FaceFormat)
  | [], format => .ok ([], format)
  | face :: faces, format =>
    match lookup (path face) with
    | .missing => report (.missingFace (path face))
    | .undecodable => report (.unreadableFace (path face))
    | .image image =>
      let expected := format.getD image.format
      if image.format = expected then do
        let (rest, format) ← loadFaces path lookup faces (some expected)
        pure (linearize image :: rest, format)
      else report (.faceMismatch (path face) image.format expected)

/-- Loads the six faces. All of them have to be images of the same size and channel count. -/
def load (path : CubeFace → String) (lookup : String → FaceFile α) : Outcome (CubeMap α) := do
  let (faces, format) ← loadFaces path lookup CubeFace.all none
  let format := format.getD ⟨0, 0, 0⟩
  ofFaces format.width format.height faces

end CubeMap

end RadianceTransfer
