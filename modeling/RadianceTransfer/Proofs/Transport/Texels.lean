import Mathlib
import RadianceTransfer.Proofs.Color
import RadianceTransfer.Proofs.Harmonics.Index
import RadianceTransfer.Proofs.Transport.Environment

/-!
# Every texel counts once

The projection of an environment adds up what its texels contribute, row by row, and the rows
afterwards. So a coefficient is a sum over the faces, their rows and the texels of these, and a
texel that is black does not contribute.

That no texel is read twice is seen in a run that notes which texels are read. It reads what is
stored under a number of a face and a position on it, and does everything else as the projection
does.

## Main definitions

* `CubeMap.color`: the texels of a cubemap.
* `CubeMap.darkenFirst`: a cubemap without light on its first face.
* `noteProjection`: the projection with the texels it reads.

## Main statements

* `projectEnvironment_eq`: the rows of the faces, one after the other.
* `noteProjection_eq`: the notes of a run.
* `projectEnvironment_counts_texels`: coefficients, reads, and what leaving out the first face does.
-/

namespace RadianceTransfer

open Harmonics

/-! ### Texels -/

namespace CubeMap

variable {α : Type}

/-- What is stored at a position of a face. -/
def stored (map : CubeMap α) (face i : Nat) : Outcome (Color α) :=
  match map.faces[face]? with
  | some texels => Outcome.get texels i
  | none => violate .indexOutOfRange

theorem texel_eq_stored (map : CubeMap α) (face x y : Nat) :
    map.texel face x y = map.stored face (y * map.width + x) :=
  rfl

/-- The texel in a row and a column of a face. -/
def color (map : CubeMap α) (face : Fin CubeFace.all.length) (y : Fin map.height)
    (x : Fin map.width) : Color α :=
  have hface : face.val < map.faces.length := face.isLt.trans_eq map.length_faces.symm
  have hi := map.position_lt_size hface x.isLt y.isLt
  map.faces[face.val][y.val * map.width + x.val]

theorem texel_eq_color (map : CubeMap α) (face : Fin CubeFace.all.length) (y : Fin map.height)
    (x : Fin map.width) : map.texel face x y = .ok (map.color face y x) := by
  have hface : face.val < map.faces.length := face.isLt.trans_eq map.length_faces.symm
  have hi := map.position_lt_size hface x.isLt y.isLt
  rw [texel, List.getElem?_eq_getElem hface]
  exact Outcome.get_eq_ok_iff.2 (Array.getElem?_eq_getElem hi)

end CubeMap

/-! ### The positions of the rows -/

section Positions

variable {α : Type} (map : CubeMap α)

/-- The positions that a row takes on its face. -/
def rowReads (slot : Nat) : List (Nat × Nat) :=
  (List.range map.width).map fun x => (slot / map.height, slot % map.height * map.width + x)

theorem mem_rowReads {slot face i : Nat} :
    (face, i) ∈ rowReads map slot ↔
      slot / map.height = face ∧ slot % map.height = i / map.width := by
  rw [rowReads, List.mem_map]
  constructor
  · rintro ⟨x, hx, ⟨⟩⟩
    rw [List.mem_range] at hx
    refine ⟨rfl, ?_⟩
    rw [Nat.mul_comm, Nat.mul_add_div map.width_pos, Nat.div_eq_of_lt hx, Nat.add_zero]
  · rintro ⟨hface, hy⟩
    refine ⟨i % map.width, List.mem_range.2 (Nat.mod_lt _ map.width_pos), ?_⟩
    rw [hface, hy, Nat.div_add_mod']

/-- Every stored texel is read once. -/
theorem reads_spec :
    ((List.range (CubeFace.all.length * map.height)).flatMap (rowReads map)).Nodup ∧
      ∀ face i, (face, i) ∈ (List.range (CubeFace.all.length * map.height)).flatMap (rowReads map) ↔
        ∃ texels, map.faces[face]? = some texels ∧ i < texels.size := by
  constructor
  · rw [List.nodup_flatMap]
    refine ⟨fun slot _ => ?_, List.nodup_range.imp fun {slot slot'} hne => ?_⟩
    · refine List.nodup_range.map fun x x' h => ?_
      exact Nat.add_left_cancel (Prod.ext_iff.1 h).2
    · intro ⟨face, i⟩ hslot hslot'
      rw [mem_rowReads] at hslot hslot'
      refine hne ?_
      rw [← Nat.div_add_mod slot map.height, hslot.1, hslot.2, ← hslot'.1, ← hslot'.2,
        Nat.div_add_mod]
  · intro face i
    simp only [List.mem_flatMap, List.mem_range, mem_rowReads]
    constructor
    · rintro ⟨slot, hslot, rfl, hy⟩
      have hface : slot / map.height < map.faces.length :=
        ((Nat.div_lt_iff_lt_mul map.height_pos).2 hslot).trans_eq map.length_faces.symm
      refine ⟨_, List.getElem?_eq_getElem hface, ?_⟩
      have hi := map.position_lt_size hface (Nat.mod_lt i map.width_pos)
        (Nat.mod_lt slot map.height_pos)
      rwa [hy, Nat.div_add_mod'] at hi
    · rintro ⟨texels, htexels, hi⟩
      obtain ⟨hface, rfl⟩ := List.getElem?_eq_some_iff.1 htexels
      rw [map.size_face _ (List.getElem_mem hface)] at hi
      have hy : i / map.width < map.height := Nat.div_lt_of_lt_mul hi
      refine ⟨i / map.width + map.height * face, ?_, ?_, ?_⟩
      · rw [← map.length_faces]
        calc i / map.width + map.height * face < map.height * (face + 1) := by
              rw [Nat.mul_succ, Nat.add_comm]
              exact Nat.add_lt_add_left hy _
          _ ≤ map.height * map.faces.length := Nat.mul_le_mul_left _ hface
          _ = map.faces.length * map.height := Nat.mul_comm _ _
      · rw [Nat.add_mul_div_left _ _ map.height_pos, Nat.div_eq_of_lt hy, Nat.zero_add]
      · rw [Nat.add_mul_mod_self_left, Nat.mod_eq_of_lt hy]

end Positions

section Projection

variable {α : Type} [Scalar α] (map : CubeMap α) (order : Nat)

/-! ### Rows -/

/-- What a texel contributes to the coefficients. -/
def texelPart (face : Fin CubeFace.all.length) (y : Fin map.height) (x : Fin map.width) :
    List (Color α) :=
  (basis order (texelDirection (CubeFace.all.get face) x y map.width map.height)).map
    ((map.color face y x).scale (texelSolidAngle x y map.width map.height)).scale

theorem length_texelPart (face : Fin CubeFace.all.length) (y : Fin map.height)
    (x : Fin map.width) : (texelPart map order face y x).length = coefficientCount order := by
  rw [texelPart, List.length_map, length_basis]

theorem addTexel_eq (face : Fin CubeFace.all.length) (y : Fin map.height) (x : Fin map.width)
    (row : List (Color α)) :
    addTexel map order (CubeFace.all.get face) face y row x =
      .ok (addColors row (texelPart map order face y x)) := by
  rw [addTexel, map.texel_eq_color]
  rfl

/-- The sum of some contributions. -/
def addParts (row : List (Color α)) (parts : List (List (Color α))) : List (Color α) :=
  parts.foldl addColors row

theorem length_addParts (row : List (Color α)) (parts : List (List (Color α))) :
    (addParts row parts).length = row.length := by
  induction parts generalizing row with
  | nil => rfl
  | cons part parts ih => rw [addParts, List.foldl_cons, ← addParts, ih, length_addColors]

/-- The contributions of the texels of a row. -/
def rowParts (face : Fin CubeFace.all.length) (y : Fin map.height) : List (List (Color α)) :=
  (List.finRange map.width).map (texelPart map order face y)

theorem foldlM_addTexel (face : Fin CubeFace.all.length) (y : Fin map.height)
    (row : List (Color α)) :
    (List.range map.width).foldlM (addTexel map order (CubeFace.all.get face) face y) row =
      .ok (addParts row (rowParts map order face y)) := by
  rw [← List.map_coe_finRange_eq_range, List.foldlM_map, rowParts]
  generalize List.finRange map.width = xs
  induction xs generalizing row with
  | nil => rfl
  | cons x xs ih =>
    rw [List.foldlM_cons, addTexel_eq, Outcome.bind_ok, ih]
    rfl

theorem projectRow_eq (slot : Fin (CubeFace.all.length * map.height)) (row : List (Color α)) :
    projectRow map order false slot row =
      .ok (addParts row (rowParts map order slot.divNat slot.modNat)) := by
  have hface : slot.val / map.height < CubeFace.all.length := slot.divNat.isLt
  rw [projectRow, List.getElem?_eq_getElem hface]
  exact foldlM_addTexel map order slot.divNat slot.modNat row

/-- The sums of the rows. -/
def rowSums : List (List (Color α)) :=
  (List.finRange (CubeFace.all.length * map.height)).map fun slot =>
    addParts (LightCoeffs.zero order).coeffs (rowParts map order slot.divNat slot.modNat)

/-- The rows of the faces, one after the other. -/
theorem projectEnvironment_eq (threads : ThreadParam) :
    projectEnvironment map order false threads =
      if HasRoom (3 * coefficientCount order) then
        .ok ⟨addParts (LightCoeffs.zero order).coeffs (rowSums map order)⟩
      else violate .capacity := by
  split_ifs with hroom
  · rw [projectEnvironment_eq_ok_iff]
    refine ⟨hroom, rowSums map order, ?_, rfl⟩
    rw [Outcome.mapM_eq_ok_iff, ← List.map_coe_finRange_eq_range, rowSums,
      List.forall₂_map_left_iff, List.forall₂_map_right_iff, List.forall₂_same]
    exact fun slot _ => projectRow_eq map order slot _
  · rw [projectEnvironment, LightCoeffs.zero?, requireRoom, if_neg hroom]
    rfl

/-! ### What is read -/

variable {m : Type → Type} [Monad m] [MonadLiftT Outcome m]

/-- Adds what a texel contributes, for any way of reading a position of a face. -/
def addTexelFrom (read : Nat → Nat → m (Color α)) (face : CubeFace) (faceIndex y : Nat)
    (row : List (Color α)) (x : Nat) : m (List (Color α)) := do
  let dir := texelDirection face x y map.width map.height
  let texel ← read faceIndex (y * map.width + x)
  let radiance := texel.scale (texelSolidAngle x y map.width map.height)
  pure (addColors row ((basis order dir).map radiance.scale))

/-- The coefficients of a row, for any way of reading a position of a face. -/
def projectRowFrom (read : Nat → Nat → m (Color α)) (skipFirst : Bool) (slot : Nat)
    (row : List (Color α)) : m (List (Color α)) :=
  let faceIndex := slot / map.height
  let y := slot % map.height
  if skipFirst && faceIndex == 0 then pure row
  else
    match CubeFace.all[faceIndex]? with
    | some face =>
      (List.range map.width).foldlM (addTexelFrom map order read face faceIndex y) row
    | none => liftM (violate .indexOutOfRange : Outcome (List (Color α)))

/-- Reading what is stored is what the projection does. -/
theorem projectRowFrom_stored (skipFirst : Bool) (slot : Nat) (row : List (Color α)) :
    projectRowFrom map order map.stored skipFirst slot row =
      projectRow map order skipFirst slot row :=
  rfl

/-- Reads what is stored and notes where. -/
def CubeMap.noted (face i : Nat) : StateT (List (Nat × Nat)) Outcome (Color α) := fun reads => do
  let texel ← map.stored face i
  pure (texel, reads ++ [(face, i)])

/-- The projection together with the texels that it reads, row by row. Every row is summed as in the
projection, and has its own notes. -/
def noteProjection (skipFirst : Bool) (threads : ThreadParam) :
    Outcome (LightCoeffs α × List (Nat × Nat)) := do
  let zero : LightCoeffs α ← LightCoeffs.zero? order
  let rows ← parallelFor (Array.replicate (CubeFace.all.length * map.height) (zero.coeffs, []))
    threads fun slot (row, reads) =>
      (projectRowFrom map order map.noted skipFirst slot row).run reads
  pure (⟨(rows.toList.map (·.1)).foldl addColors zero.coeffs⟩, rows.toList.flatMap (·.2))

theorem run_addTexelFrom {face : CubeFace} {faceIndex y x : Nat} {row out : List (Color α)}
    (h : addTexel map order face faceIndex y row x = .ok out) (reads : List (Nat × Nat)) :
    (addTexelFrom map order map.noted face faceIndex y row x).run reads =
      .ok (out, reads ++ [(faceIndex, y * map.width + x)]) := by
  rw [addTexel] at h
  obtain ⟨texel, htexel, ⟨⟩⟩ := Outcome.bind_eq_ok_iff.1 h
  have hnoted : map.noted faceIndex (y * map.width + x) reads =
      .ok (texel, reads ++ [(faceIndex, y * map.width + x)]) := by
    rw [CubeMap.noted, ← map.texel_eq_stored, htexel]
    rfl
  rw [addTexelFrom, StateT.run_bind, StateT.run, hnoted]
  rfl

theorem run_foldlM_addTexelFrom {face : CubeFace} {faceIndex y : Nat} {row out : List (Color α)}
    {xs : List Nat} (h : xs.foldlM (addTexel map order face faceIndex y) row = .ok out)
    (reads : List (Nat × Nat)) :
    (xs.foldlM (addTexelFrom map order map.noted face faceIndex y) row).run reads =
      .ok (out, reads ++ xs.map fun x => (faceIndex, y * map.width + x)) := by
  induction xs generalizing row reads with
  | nil =>
    cases h
    rw [List.map_nil, List.append_nil]
    rfl
  | cons x xs ih =>
    rw [List.foldlM_cons] at h
    obtain ⟨row', hrow', hrest⟩ := Outcome.bind_eq_ok_iff.1 h
    rw [List.foldlM_cons, StateT.run_bind, run_addTexelFrom map order hrow', Outcome.bind_ok,
      ih hrest, List.map_cons, List.append_assoc, List.singleton_append]

theorem run_projectRowFrom (slot : Fin (CubeFace.all.length * map.height))
    (row : List (Color α)) (reads : List (Nat × Nat)) :
    (projectRowFrom map order map.noted false slot row).run reads =
      .ok (addParts row (rowParts map order slot.divNat slot.modNat),
        reads ++ rowReads map slot) := by
  have hface : slot.val / map.height < CubeFace.all.length := slot.divNat.isLt
  rw [projectRowFrom, List.getElem?_eq_getElem hface]
  exact run_foldlM_addTexelFrom map order
    (foldlM_addTexel map order slot.divNat slot.modNat row) reads

/-- A run that notes its reads computes what the projection does, and reads row after row. -/
theorem noteProjection_eq (threads : ThreadParam) :
    noteProjection map order false threads =
      if HasRoom (3 * coefficientCount order) then
        .ok (⟨addParts (LightCoeffs.zero order).coeffs (rowSums map order)⟩,
          (List.range (CubeFace.all.length * map.height)).flatMap (rowReads map))
      else violate .capacity := by
  split_ifs with hroom
  · let rows := (List.finRange (CubeFace.all.length * map.height)).map
      fun slot : Fin (CubeFace.all.length * map.height) =>
        (addParts (LightCoeffs.zero order).coeffs (rowParts map order slot.divNat slot.modNat),
          rowReads map slot)
    have hrows : (List.range (CubeFace.all.length * map.height)).mapM (fun slot =>
        (projectRowFrom map order map.noted false slot (LightCoeffs.zero order).coeffs).run []) =
          .ok rows := by
      rw [Outcome.mapM_eq_ok_iff, ← List.map_coe_finRange_eq_range, List.forall₂_map_left_iff,
        List.forall₂_map_right_iff, List.forall₂_same]
      exact fun slot _ => run_projectRowFrom map order slot _ []
    have hsums : rows.map (·.1) = rowSums map order := by
      rw [List.map_map, rowSums]
      rfl
    have hreads : rows.flatMap (·.2) =
        (List.range (CubeFace.all.length * map.height)).flatMap (rowReads map) := by
      rw [List.flatMap_map, ← List.map_coe_finRange_eq_range, List.flatMap_map]
    rw [← hsums, ← hreads]
    exact Outcome.bind_eq_ok_iff.2 ⟨_, LightCoeffs.zero?_eq_ok_iff.2 ⟨hroom, rfl⟩,
      Outcome.bind_eq_ok_iff.2 ⟨rows.toArray,
        Outcome.parallelFor_replicate_eq_ok_iff.2 hrows, rfl⟩⟩
  · rw [noteProjection, LightCoeffs.zero?, requireRoom, if_neg hroom]
    rfl

end Projection

/-! ### Coefficients -/

section Sums

variable {K : Type} [Field K] [LinearOrder K] [FloorSemiring K] [FieldFunctions K]

/-- A coefficient in one channel. -/
def channelAt (k : Channel) (i : Nat) (row : List (Color K)) : K :=
  (row.getD i .black).get k

theorem channelAt_zero (k : Channel) (i order : Nat) :
    channelAt k i (LightCoeffs.zero (α := K) order).coeffs = 0 := by
  rw [channelAt, LightCoeffs.zero, List.getD_eq_getElem?_getD, List.getElem?_replicate]
  split_ifs <;> exact get_black k

theorem channelAt_addColors (k : Channel) (i : Nat) {row part : List (Color K)}
    (h : part.length = row.length) :
    channelAt k i (addColors row part) = channelAt k i row + channelAt k i part := by
  induction row generalizing part i with
  | nil =>
    rw [List.eq_nil_of_length_eq_zero h, addColors, channelAt, List.getD_nil, get_black, add_zero]
  | cons c row ih =>
    obtain ⟨d, part, rfl⟩ := List.exists_cons_of_length_eq_add_one h
    cases i with
    | zero => exact get_add c d k
    | succ i => exact ih i (Nat.succ.inj h)

theorem channelAt_addParts (k : Channel) (i : Nat) {row : List (Color K)}
    {parts : List (List (Color K))} (h : ∀ part ∈ parts, part.length = row.length) :
    channelAt k i (addParts row parts) = channelAt k i row + (parts.map (channelAt k i)).sum := by
  induction parts generalizing row with
  | nil => rw [List.map_nil, List.sum_nil, add_zero]; rfl
  | cons part parts ih =>
    rw [List.forall_mem_cons] at h
    have hrest : ∀ p ∈ parts, p.length = (addColors row part).length := by
      simpa only [length_addColors] using h.2
    rw [addParts, List.foldl_cons, ← addParts, ih hrest, channelAt_addColors k i h.1, List.map_cons,
      List.sum_cons, add_assoc]

variable (map : CubeMap K) (order : Nat)

/-- What a texel contributes to a coefficient. -/
noncomputable def texelTerm (k : Channel) (i : Nat) (face : Fin CubeFace.all.length)
    (y : Fin map.height) (x : Fin map.width) : K :=
  eval (degreeOrder i).1 (degreeOrder i).2
      (texelDirection (CubeFace.all.get face) x y map.width map.height) *
    texelSolidAngle x y map.width map.height * (map.color face y x).get k

theorem channelAt_texelPart (k : Channel) {i : Nat} (hi : i < coefficientCount order)
    (face : Fin CubeFace.all.length) (y : Fin map.height) (x : Fin map.width) :
    channelAt k i (texelPart map order face y x) = texelTerm map k i face y x := by
  rw [channelAt, texelPart, List.getD_eq_getElem?_getD, List.getElem?_map, getElem?_basis hi,
    Option.map_some, Option.getD_some, get_scale, get_scale, texelTerm]
  ring

theorem channelAt_rowParts (k : Channel) {i : Nat} (hi : i < coefficientCount order)
    (face : Fin CubeFace.all.length) (y : Fin map.height) :
    channelAt k i (addParts (LightCoeffs.zero order).coeffs (rowParts map order face y)) =
      ∑ x, texelTerm map k i face y x := by
  have hlength : ∀ part ∈ rowParts map order face y,
      part.length = (LightCoeffs.zero (α := K) order).coeffs.length := by
    intro part hpart
    obtain ⟨x, -, rfl⟩ := List.mem_map.1 hpart
    rw [length_texelPart, LightCoeffs.zero, List.length_replicate]
  rw [channelAt_addParts k i hlength, channelAt_zero, zero_add, rowParts, List.map_map,
    Fin.sum_univ_def]
  congr 2
  exact funext fun x => channelAt_texelPart map order k hi face y x

/-- A coefficient is a sum over the texels. -/
theorem channelAt_rowSums (k : Channel) {i : Nat} (hi : i < coefficientCount order) :
    channelAt k i (addParts (LightCoeffs.zero order).coeffs (rowSums map order)) =
      ∑ face, ∑ y, ∑ x, texelTerm map k i face y x := by
  have hlength : ∀ part ∈ rowSums map order,
      part.length = (LightCoeffs.zero (α := K) order).coeffs.length := by
    intro part hpart
    obtain ⟨slot, -, rfl⟩ := List.mem_map.1 hpart
    exact length_addParts _ _
  let rowTerm (slot : Fin (CubeFace.all.length * map.height)) : K :=
    ∑ x, texelTerm map k i slot.divNat slot.modNat x
  calc channelAt k i (addParts (LightCoeffs.zero order).coeffs (rowSums map order))
      = ∑ slot, rowTerm slot := by
        rw [channelAt_addParts k i hlength, channelAt_zero, zero_add, rowSums, List.map_map,
          Fin.sum_univ_def]
        congr 2
        exact funext fun slot => channelAt_rowParts map order k hi slot.divNat slot.modNat
    _ = ∑ p : Fin CubeFace.all.length × Fin map.height, ∑ x, texelTerm map k i p.1 p.2 x :=
        finProdFinEquiv.symm.sum_comp fun p => ∑ x, texelTerm map k i p.1 p.2 x
    _ = ∑ face, ∑ y, ∑ x, texelTerm map k i face y x := Fintype.sum_prod_type _

/-! ### A dark first face -/

namespace CubeMap

/-- The cubemap without the light of its first face. -/
noncomputable def darkenFirst (map : CubeMap K) : CubeMap K where
  width := map.width
  height := map.height
  faces := map.faces.set 0 (Array.replicate (map.width * map.height) .black)
  length_faces := by rw [List.length_set, map.length_faces]
  width_pos := map.width_pos
  height_pos := map.height_pos
  size_face f hf := by
    rcases List.mem_or_eq_of_mem_set hf with hf | rfl
    · exact map.size_face f hf
    · exact Array.size_replicate

theorem texel_darkenFirst {face : Nat} (hface : face ≠ 0) (x y : Nat) :
    map.darkenFirst.texel face x y = map.texel face x y := by
  rw [texel, texel, darkenFirst, List.getElem?_set_ne hface.symm]

theorem texel_darkenFirst_zero {x y : Nat} (hx : x < map.width) (hy : y < map.height) :
    map.darkenFirst.texel 0 x y = .ok .black := by
  have hfaces : 0 < map.faces.length := map.length_faces ▸ Nat.zero_lt_succ 5
  have hposition : y * map.width + x < map.width * map.height :=
    (map.position_lt_size hfaces hx hy).trans_eq (map.size_face _ (List.getElem_mem hfaces))
  rw [texel, darkenFirst, List.getElem?_set_self hfaces]
  refine Outcome.get_eq_ok_iff.2 ?_
  rw [Array.getElem?_replicate, if_pos hposition]

end CubeMap

theorem addColors_black (row : List (Color K)) {part : List (Color K)}
    (h : ∀ c ∈ part, c = .black) : addColors row part = row := by
  induction row generalizing part with
  | nil => cases part <;> rfl
  | cons c row ih =>
    cases part with
    | nil => rfl
    | cons d part =>
      rw [List.forall_mem_cons] at h
      have hadd : c + Color.black = c := by
        rw [Color.black, FieldFunctions.zero_eq]
        exact Color.ext (add_zero c.r) (add_zero c.g) (add_zero c.b)
      rw [addColors, h.1, hadd, ih h.2]

/-- A row of the dark face adds nothing. -/
theorem projectRow_darkenFirst_zero {slot : Nat} (hslot : slot / map.height = 0)
    (row : List (Color K)) : projectRow map.darkenFirst order false slot row = .ok row := by
  have hy : slot % map.height < map.height := Nat.mod_lt _ map.height_pos
  have hkeeps : Outcome.Returns (· = row) ((List.range map.width).foldlM
      (addTexel map.darkenFirst order .negX 0 (slot % map.height)) row) := by
    refine .foldlM rfl fun x hx out hout => ?_
    rw [addTexel, map.texel_darkenFirst_zero (List.mem_range.1 hx) hy]
    refine .ok ?_
    rw [← hout]
    refine addColors_black out fun c hc => ?_
    obtain ⟨value, -, rfl⟩ := List.mem_map.1 hc
    rw [scale_black, scale_black]
  obtain ⟨_, hrow, rfl⟩ := hkeeps
  have hface : CubeFace.all[slot / map.darkenFirst.height]? = some .negX := by
    show CubeFace.all[slot / map.height]? = _
    rw [hslot]
    rfl
  rw [projectRow, hface]
  show (List.range map.width).foldlM
    (addTexel map.darkenFirst order .negX (slot / map.height) _) _ = _
  rw [hslot]
  exact hrow

/-- Leaving out the first face adds up what there is without its light. -/
theorem projectRow_skipFirst (slot : Nat) (row : List (Color K)) :
    projectRow map order true slot row = projectRow map.darkenFirst order false slot row := by
  by_cases hslot : slot / map.height = 0
  · rw [projectRow_darkenFirst_zero map order hslot, projectRow, hslot]
    rfl
  · have htexel (face : CubeFace) (y : Nat) :
        addTexel map order face (slot / map.height) y =
          addTexel map.darkenFirst order face (slot / map.height) y := by
      funext row x
      rw [addTexel, addTexel, map.texel_darkenFirst hslot]
      rfl
    have hskip : (true && slot / map.height == 0) = false := by simpa using hslot
    rw [projectRow, hskip, projectRow]
    simp only [htexel]
    rfl

theorem projectEnvironment_skipFirst (threads : ThreadParam) :
    projectEnvironment map order true threads =
      projectEnvironment map.darkenFirst order false threads := by
  have hrows : projectRow map order true = projectRow map.darkenFirst order false :=
    funext₂ (projectRow_skipFirst map order)
  rw [projectEnvironment, hrows]
  rfl

/-- The projection of an environment counts every texel once, for as many coefficients as there is
room for. -/
theorem projectEnvironment_counts_texels (threads : ThreadParam) :
    (∃ coeffs reads,
      projectEnvironment map order false threads =
          (if HasRoom (3 * coefficientCount order) then .ok ⟨coeffs⟩ else violate .capacity) ∧
        noteProjection map order false threads =
          (if HasRoom (3 * coefficientCount order) then .ok (⟨coeffs⟩, reads)
            else violate .capacity) ∧
        coeffs.length = coefficientCount order ∧
        (∀ i < coefficientCount order, ∀ k : Channel,
          (coeffs.getD i .black).get k =
            ∑ face : Fin CubeFace.all.length, ∑ y : Fin map.height, ∑ x : Fin map.width,
              eval (degreeOrder i).1 (degreeOrder i).2
                  (texelDirection (CubeFace.all.get face) x y map.width map.height) *
                texelSolidAngle x y map.width map.height * (map.color face y x).get k) ∧
        reads.Nodup ∧
        ∀ face i, (face, i) ∈ reads ↔ ∃ texels, map.faces[face]? = some texels ∧ i < texels.size) ∧
      projectEnvironment map order true threads =
        projectEnvironment map.darkenFirst order false threads := by
  refine ⟨⟨addParts (LightCoeffs.zero order).coeffs (rowSums map order),
    (List.range (CubeFace.all.length * map.height)).flatMap (rowReads map),
    projectEnvironment_eq map order threads, noteProjection_eq map order threads, ?_, ?_,
    reads_spec map⟩, projectEnvironment_skipFirst map order threads⟩
  · rw [length_addParts, LightCoeffs.zero, List.length_replicate]
  · intro i hi k
    exact channelAt_rowSums map order k hi

end Sums

end RadianceTransfer
