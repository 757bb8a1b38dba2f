import Mathlib
import RadianceTransfer.Cubemap.Basic
import RadianceTransfer.Proofs.Outcome

/-!
# Loading the faces of a cubemap

A folder has no file for a face, or one that is no image, or a picture. The faces are loaded in
order, and the first one decides what format the others have to have, so what is wrong with a face
is known from its own file and that of the first one. Loading reports the first face with which
something is wrong. If there is none, it returns a cubemap, and each texel comes from the pixel in
the same column and row of the picture of its face.

## Main definitions

* `Picture`, `FaceEntry`: what may be found where the image of a face should be.
* `FaceEntry.fault?`, `CubeMap.fault?`: what is wrong with a face.

## Main statements

* `CubeMap.loadFaces_eq`: the loop over the faces.
* `CubeMap.load_eq_report`, `CubeMap.exists_load`: the faces with a fault, and without one.
* `CubeMap.load_all_or_nothing`: all of it.
-/

namespace RadianceTransfer

variable {α : Type}

/-- A picture: a grid of colors, with at least one row and column. -/
structure Picture (α : Type) where
  /-- Pixels per row. -/
  width : Nat
  /-- Rows. -/
  height : Nat
  /-- Values per pixel in the file. -/
  channels : Nat
  /-- Whether the colors are unbounded and linear already. -/
  unbounded : Bool
  /-- The color in a column and a row. -/
  pixel : Nat → Nat → Color α
  /-- There is a column. -/
  width_pos : 0 < width
  /-- There is a row. -/
  height_pos : 0 < height
  /-- The pixels can be counted in a word. -/
  fits : FitsUnsigned 64 (width * height)

namespace Picture

/-- Size and channel count. -/
def format (p : Picture α) : FaceFormat :=
  ⟨p.width, p.height, p.channels⟩

/-- The colors, row by row. -/
def texels (p : Picture α) : Array (Color α) :=
  Array.ofFn fun i : Fin (p.width * p.height) => p.pixel (i % p.width) (i / p.width)

/-- What a decoder makes of the picture. -/
def toImage (p : Picture α) : DecodedImage α :=
  ⟨p.format, p.unbounded, p.texels⟩

/-- The linear radiance in a column and a row. -/
def radiance [Scalar α] (p : Picture α) (x y : Nat) : Color α :=
  if p.unbounded then p.pixel x y else (p.pixel x y).pow 2.2

theorem getElem?_texels (p : Picture α) {x y : Nat} (hx : x < p.width) (hy : y < p.height) :
    p.texels[y * p.width + x]? = some (p.pixel x y) := by
  have hi : y * p.width + x < p.width * p.height := by
    calc y * p.width + x < (y + 1) * p.width := by
          rw [Nat.succ_mul]
          exact Nat.add_lt_add_left hx _
      _ ≤ p.width * p.height := by
          rw [Nat.mul_comm p.width]
          exact Nat.mul_le_mul_right _ hy
  obtain ⟨hrow, hcolumn⟩ : (y * p.width + x) / p.width = y ∧ (y * p.width + x) % p.width = x :=
    (Nat.div_mod_unique p.width_pos).2 ⟨by ring, hx⟩
  rw [texels, Array.getElem?_ofFn, dif_pos hi]
  simp only [hcolumn, hrow]

variable [Scalar α]

theorem size_linearize (p : Picture α) :
    (CubeMap.linearize p.toImage).size = p.width * p.height := by
  rw [CubeMap.linearize]
  split <;> simp [toImage, texels]

theorem getElem?_linearize (p : Picture α) {x y : Nat} (hx : x < p.width) (hy : y < p.height) :
    (CubeMap.linearize p.toImage)[y * p.width + x]? = some (p.radiance x y) := by
  have hpixel := p.getElem?_texels hx hy
  have hlinear : p.toImage.unbounded = p.unbounded := rfl
  rw [CubeMap.linearize, radiance, hlinear]
  split
  · exact hpixel
  · rw [Array.getElem?_map]
    exact congrArg (Option.map _) hpixel

end Picture

/-- What is found where the image of a face should be. -/
inductive FaceEntry (α : Type) where
  /-- No file. -/
  | missing
  /-- A file that is no image. -/
  | undecodable
  /-- A picture. -/
  | picture (p : Picture α)

namespace FaceEntry

/-- What reading the file comes to. -/
def toFile : FaceEntry α → FaceFile α
  | missing => .missing
  | undecodable => .undecodable
  | picture p => .image p.toImage

/-- What reading the files of a folder comes to. -/
def read (files : String → FaceEntry α) (name : String) : FaceFile α :=
  (files name).toFile

/-- The format, if there is a picture. -/
def format? : FaceEntry α → Option FaceFormat
  | picture p => some p.format
  | _ => none

/-- What is wrong with the file of a face, once it is known what format there has to be. -/
def fault? (path : String) (expected : Option FaceFormat) : FaceEntry α → Option Error
  | missing => some (.missingFace path)
  | undecodable => some (.unreadableFace path)
  | picture p => expected.bind fun expected =>
    if p.format = expected then none else some (.faceMismatch path p.format expected)

/-- The linear radiance of the picture, if there is one. -/
def radiance [Scalar α] : FaceEntry α → Array (Color α)
  | picture p => CubeMap.linearize p.toImage
  | _ => #[]

theorem fault?_eq_none_iff {path : String} {expected : FaceFormat} {entry : FaceEntry α} :
    entry.fault? path (some expected) = none ↔ ∃ p, entry = picture p ∧ p.format = expected := by
  cases entry <;> simp [fault?]

end FaceEntry

namespace CubeMap

variable [Scalar α] (path : CubeFace → String) (files : String → FaceEntry α)

/-- What is wrong with a face. Its picture has to have the format of the one of the first face. -/
def fault? (face : CubeFace) : Option Error :=
  (files (path face)).fault? (path face) (files (path .negX)).format?

/-! ### The loop over the faces -/

section Loop

variable {path files} {face : CubeFace} {expected : FaceFormat} {p : Picture α}

/-- A face with the expected format is kept, and the loop goes on. -/
theorem loadFaces_cons (h : files (path face) = .picture p) (hformat : p.format = expected)
    (faces : List CubeFace) :
    loadFaces path (FaceEntry.read files) (face :: faces) (some expected) = (do
      let (rest, format) ← loadFaces path (FaceEntry.read files) faces (some expected)
      pure (linearize p.toImage :: rest, format)) := by
  rw [loadFaces, FaceEntry.read, h]
  exact if_pos hformat

/-- A face with a fault ends the loop. -/
theorem loadFaces_cons_of_fault {e : Error}
    (h : (files (path face)).fault? (path face) (some expected) = some e)
    (faces : List CubeFace) :
    loadFaces path (FaceEntry.read files) (face :: faces) (some expected) = report e := by
  rw [loadFaces, FaceEntry.read]
  cases hentry : files (path face) with
  | missing =>
    rw [hentry] at h
    cases h
    rfl
  | undecodable =>
    rw [hentry] at h
    cases h
    rfl
  | picture p =>
    have hformat : p.format ≠ expected := fun hformat =>
      nomatch (FaceEntry.fault?_eq_none_iff.2 ⟨p, hentry, hformat⟩).symm.trans h
    have hfault : some (Error.faceMismatch (path face) p.format expected) = some e := by
      rw [← h, hentry]
      exact (if_neg hformat).symm
    cases hfault
    exact if_neg hformat

/-- The first face decides on the format. -/
theorem loadFaces_none (h : files (path face) = .picture p) (faces : List CubeFace) :
    loadFaces path (FaceEntry.read files) (face :: faces) none =
      loadFaces path (FaceEntry.read files) (face :: faces) (some p.format) := by
  rw [loadFaces, loadFaces, FaceEntry.read, h]
  rfl

variable (path files expected)

/-- The loop reports the first fault, and returns all pictures if there is none. -/
theorem loadFaces_eq (faces : List CubeFace) :
    loadFaces path (FaceEntry.read files) faces (some expected) =
      match faces.findSome? fun face => (files (path face)).fault? (path face) (some expected) with
      | some e => report e
      | none => .ok (faces.map fun face => (files (path face)).radiance, some expected) := by
  induction faces with
  | nil => rfl
  | cons face faces ih =>
    rw [List.findSome?_cons]
    cases hfault : (files (path face)).fault? (path face) (some expected) with
    | some e => exact loadFaces_cons_of_fault hfault faces
    | none =>
      obtain ⟨p, hp, hformat⟩ := FaceEntry.fault?_eq_none_iff.1 hfault
      rw [loadFaces_cons hp hformat, ih]
      cases faces.findSome? fun face => (files (path face)).fault? (path face) (some expected) with
      | some e => rfl
      | none =>
        rw [List.map_cons, hp]
        rfl

end Loop

/-! ### All faces -/

omit [Scalar α] in
/-- Six faces of one positive size make a cubemap. -/
theorem exists_ofFaces {width height : Nat} {faces : List (Array (Color α))}
    (hlength : faces.length = CubeFace.all.length) (hwidth : 0 < width) (hheight : 0 < height)
    (hfits : FitsUnsigned 64 (width * height)) (hsize : ∀ f ∈ faces, f.size = width * height) :
    ∃ m, ofFaces width height faces = .ok m ∧ m.width = width ∧ m.height = height ∧
      m.faces = faces := by
  have hright : wrongFace? (width * height) faces = none := by
    rw [wrongFace?, Option.map_eq_none_iff, List.find?_eq_none]
    rintro ⟨face, texels⟩ hmem
    simpa using hsize texels (List.of_mem_zip hmem).2
  rw [ofFaces, dif_pos hlength, dif_pos ⟨hwidth, hheight⟩, if_neg (not_not.2 hfits)]
  split
  · rename_i hwrong
    cases hright.symm.trans hwrong
  · exact ⟨_, rfl, rfl, rfl, rfl⟩

theorem load_eq :
    load path (FaceEntry.read files) = match CubeFace.all.findSome? (fault? path files) with
      | some e => report e
      | none =>
        let format := (files (path .negX)).format?.getD ⟨0, 0, 0⟩
        ofFaces format.width format.height
          (CubeFace.all.map fun face => (files (path face)).radiance) := by
  have hfault : fault? path files = fun face =>
      (files (path face)).fault? (path face) (files (path .negX)).format? := rfl
  rw [hfault, load, CubeFace.all]
  cases hfirst : files (path .negX) with
  | missing =>
    rw [loadFaces, FaceEntry.read, hfirst, List.findSome?_cons, hfirst]
    rfl
  | undecodable =>
    rw [loadFaces, FaceEntry.read, hfirst, List.findSome?_cons, hfirst]
    rfl
  | picture p =>
    have hformat : (FaceEntry.picture p).format? = some p.format := rfl
    rw [loadFaces_none hfirst, loadFaces_eq, hformat, ← CubeFace.all]
    cases CubeFace.all.findSome? fun face => (files (path face)).fault? (path face) p.format with
    | some e => rfl
    | none => rfl

/-- All faces are pictures of one format. -/
def IsUniform : Prop :=
  ∃ format, ∀ face ∈ CubeFace.all, ∃ p, files (path face) = .picture p ∧ p.format = format

variable {path files}

omit [Scalar α] in
/-- The faces are pictures of one format, if there is a fault with none of them. -/
theorem isUniform_iff :
    IsUniform path files ↔ CubeFace.all.findSome? (fault? path files) = none := by
  have hmem : CubeFace.negX ∈ CubeFace.all := by decide
  rw [List.findSome?_eq_none_iff]
  constructor
  · rintro ⟨format, h⟩ face hface
    obtain ⟨first, hfirst, rfl⟩ := h .negX hmem
    rw [fault?, hfirst]
    exact FaceEntry.fault?_eq_none_iff.2 (h face hface)
  · intro h
    have hnone := h .negX hmem
    cases hfirst : files (path .negX) with
    | missing =>
      rw [fault?, hfirst] at hnone
      cases hnone
    | undecodable =>
      rw [fault?, hfirst] at hnone
      cases hnone
    | picture first =>
      refine ⟨first.format, fun face hface => ?_⟩
      have hface := h face hface
      rw [fault?, hfirst] at hface
      exact FaceEntry.fault?_eq_none_iff.1 hface

/-- The first face with a fault is reported. -/
theorem exists_report_of_not_isUniform (h : ¬ IsUniform path files) :
    ∃ e, CubeFace.all.findSome? (fault? path files) = some e ∧
      load path (FaceEntry.read files) = report e := by
  obtain ⟨e, he⟩ := Option.ne_none_iff_exists'.1 (mt isUniform_iff.2 h)
  refine ⟨e, he, ?_⟩
  rw [load_eq, he]

/-- Pictures of one format make a cubemap. -/
theorem exists_load (h : IsUniform path files) :
    ∃ m, load path (FaceEntry.read files) = .ok m ∧
      m.faces = CubeFace.all.map (fun face => (files (path face)).radiance) ∧
      ∀ face ∈ CubeFace.all, ∃ p, files (path face) = .picture p ∧ p.width = m.width ∧
        p.height = m.height := by
  have hload := load_eq path files
  rw [isUniform_iff.1 h] at hload
  obtain ⟨format, hall⟩ := h
  obtain ⟨first, hfirst, rfl⟩ := hall .negX (by decide)
  have hformat : (files (path .negX)).format?.getD ⟨0, 0, 0⟩ = first.format := by
    rw [hfirst]
    rfl
  have hsize : ∀ texels ∈ CubeFace.all.map (fun face => (files (path face)).radiance),
      texels.size = first.width * first.height := by
    intro texels hmem
    obtain ⟨face, hface, rfl⟩ := List.mem_map.1 hmem
    obtain ⟨p, hp, hsame⟩ := hall face hface
    obtain ⟨hwidth, hheight, -⟩ := FaceFormat.mk.inj hsame
    rw [hp, ← hwidth, ← hheight]
    exact p.size_linearize
  obtain ⟨m, hm, hwidth, hheight, hfaces⟩ := exists_ofFaces (List.length_map _) first.width_pos
    first.height_pos first.fits hsize
  refine ⟨m, ?_, hfaces, fun face hface => ?_⟩
  · rw [hload]
    simp only [hformat]
    exact hm
  · obtain ⟨p, hp, hsame⟩ := hall face hface
    obtain ⟨hwidth', hheight', -⟩ := FaceFormat.mk.inj hsame
    exact ⟨p, hp, hwidth'.trans hwidth.symm, hheight'.trans hheight.symm⟩

theorem texel_eq {m : CubeMap α}
    (hfaces : m.faces = CubeFace.all.map (fun face => (files (path face)).radiance)) {f : Nat}
    {face : CubeFace} (hface : CubeFace.all[f]? = some face) {p : Picture α}
    (hp : files (path face) = .picture p) (hwidth : p.width = m.width) {x y : Nat}
    (hx : x < p.width) (hy : y < p.height) : m.texel f x y = .ok (p.radiance x y) := by
  have htexels : m.faces[f]? = some (linearize p.toImage) := by
    rw [hfaces, List.getElem?_map, hface, Option.map_some, hp]
    rfl
  rw [texel, htexels, ← hwidth]
  simp only [Outcome.get, p.getElem?_linearize hx hy]

/-- **Loading is all or nothing.** A cubemap is returned if the files of all six faces are pictures
of one format, and its texels are the pixels of the file that is named after the face. Otherwise the
first face is reported whose file is missing, or no image, or of another format than the first
one. -/
theorem load_all_or_nothing (join : String → String → String) (folder extension : String)
    (files : String → FaceEntry α) :
    let path := facePath join folder extension
    ((∃ m, load path (FaceEntry.read files) = .ok m) ↔ IsUniform path files) ∧
      (∀ m, load path (FaceEntry.read files) = .ok m →
        ∀ (f : Nat) (face : CubeFace), CubeFace.all[f]? = some face →
          ∃ p, files (path face) = .picture p ∧ p.width = m.width ∧ p.height = m.height ∧
            ∀ x y, x < m.width → y < m.height → m.texel f x y = .ok (p.radiance x y)) ∧
      (¬ IsUniform path files → ∃ e, CubeFace.all.findSome? (fault? path files) = some e ∧
        load path (FaceEntry.read files) = report e) := by
  intro path
  have hiff : (∃ m, load path (FaceEntry.read files) = .ok m) ↔ IsUniform path files := by
    constructor
    · rintro ⟨m, hm⟩
      by_contra hnot
      obtain ⟨e, -, he⟩ := exists_report_of_not_isUniform hnot
      cases hm.symm.trans he
    · intro h
      obtain ⟨m, hm, -⟩ := exists_load h
      exact ⟨m, hm⟩
  refine ⟨hiff, fun m hm f face hface => ?_, exists_report_of_not_isUniform⟩
  obtain ⟨_, hm', hfaces, hsizes⟩ := exists_load (hiff.1 ⟨m, hm⟩)
  cases hm.symm.trans hm'
  obtain ⟨p, hp, hwidth, hheight⟩ := hsizes face (List.mem_of_getElem? hface)
  exact ⟨p, hp, hwidth, hheight, fun x y hx hy =>
    texel_eq hfaces hface hp hwidth (hwidth.symm ▸ hx) (hheight.symm ▸ hy)⟩

/-- A row of two pixels. -/
def oblong : Picture Float where
  width := 2
  height := 1
  channels := 3
  unbounded := true
  pixel x y := ⟨Scalar.ofNat x, Scalar.ofNat y, 0⟩
  width_pos := Nat.zero_lt_two
  height_pos := Nat.one_pos
  fits := by decide

/-- A folder with this picture for every face is loaded, and one without the fourth face is not. -/
theorem load_all_or_nothing_oblong :
    let path := facePath (· ++ "/" ++ ·) "room" "hdr"
    (∃ m, load path (FaceEntry.read fun _ => .picture oblong) = .ok m ∧
      m.texel 3 1 0 = .ok ⟨Scalar.ofNat 1, Scalar.ofNat 0, 0⟩) ∧
    load path (FaceEntry.read fun name =>
      if name = "room/negy.hdr" then .missing else .picture oblong) =
        report (.missingFace "room/negy.hdr") := by
  intro path
  constructor
  · obtain ⟨hiff, htexels, -⟩ := load_all_or_nothing (· ++ "/" ++ ·) "room" "hdr" fun _ =>
      .picture oblong
    obtain ⟨m, hm⟩ := hiff.2 ⟨oblong.format, fun _ _ => ⟨oblong, rfl, rfl⟩⟩
    obtain ⟨p, ⟨⟩, hwidth, hheight, hpixels⟩ := htexels m hm 3 .negY rfl
    exact ⟨m, hm, hpixels 1 0 (hwidth ▸ Nat.one_lt_two) (hheight ▸ Nat.one_pos)⟩
  · obtain ⟨-, -, hreport⟩ := load_all_or_nothing (· ++ "/" ++ ·) "room" "hdr" fun name =>
      if name = "room/negy.hdr" then .missing else .picture oblong
    have hfault : CubeFace.all.findSome? (fault? path fun name =>
        if name = "room/negy.hdr" then .missing else .picture oblong) =
          some (.missingFace "room/negy.hdr") := by rfl
    obtain ⟨e, he, hload⟩ := hreport (mt isUniform_iff.1 (by rw [hfault]; exact nofun))
    cases hfault.symm.trans he
    exact hload

end CubeMap

end RadianceTransfer
