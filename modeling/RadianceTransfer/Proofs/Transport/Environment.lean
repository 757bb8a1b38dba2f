import RadianceTransfer.Transport.Environment
import RadianceTransfer.Proofs.Transport.Table
import RadianceTransfer.Proofs.Harmonics.Basis

/-!
# The projection of an environment returns

The rows of the faces are numbered through, so the number of a row tells its face and its place on
it. Both are in range, as are the texels of the row, since the faces of a cubemap are of one size.
So all that the projection needs is room for its coefficients.

## Main statements

* `exists_texel`: the texels of the faces are there.
* `returns_projectEnvironment`: the projection returns one color per basis function.
-/

namespace RadianceTransfer

variable {α : Type}

theorem CubeMap.position_lt_size (map : CubeMap α) {face x y : Nat}
    (hface : face < map.faces.length) (hx : x < map.width) (hy : y < map.height) :
    y * map.width + x < map.faces[face].size := by
  calc y * map.width + x < (y + 1) * map.width := by rw [Nat.succ_mul]; omega
    _ ≤ map.height * map.width := Nat.mul_le_mul_right _ hy
    _ = map.faces[face].size := by rw [map.size_face _ (List.getElem_mem hface), Nat.mul_comm]

theorem CubeMap.exists_texel (map : CubeMap α) {face x y : Nat} (hface : face < CubeFace.all.length)
    (hx : x < map.width) (hy : y < map.height) : ∃ c, map.texel face x y = .ok c := by
  have hface' : face < map.faces.length := map.length_faces ▸ hface
  have hi := map.position_lt_size hface' hx hy
  refine ⟨map.faces[face][y * map.width + x], ?_⟩
  rw [texel, List.getElem?_eq_getElem hface']
  exact Outcome.get_eq_ok_iff.2 (Array.getElem?_eq_getElem hi)

variable [Scalar α]

theorem length_addColors (row cs : List (Color α)) : (addColors row cs).length = row.length := by
  induction row generalizing cs with
  | nil => cases cs <;> rfl
  | cons c row ih =>
    cases cs with
    | nil => rfl
    | cons d cs => rw [addColors, List.length_cons, List.length_cons, ih]

theorem take_addColors (k : Nat) (row cs : List (Color α)) :
    (addColors row cs).take k = addColors (row.take k) (cs.take k) := by
  induction k generalizing row cs with
  | zero => rfl
  | succ k ih =>
    cases row with
    | nil => cases cs <;> rfl
    | cons c row =>
      cases cs with
      | nil => rfl
      | cons d cs =>
        rw [addColors, List.take_succ_cons, ih, List.take_succ_cons, List.take_succ_cons, addColors]

theorem returns_projectRow (map : CubeMap α) (order : Nat) (skipFirst : Bool) {slot : Nat}
    (hslot : slot < CubeFace.all.length * map.height) (row : List (Color α)) :
    Outcome.Returns (·.length = row.length) (projectRow map order skipFirst slot row) := by
  have hface : slot / map.height < CubeFace.all.length :=
    (Nat.div_lt_iff_lt_mul map.height_pos).2 hslot
  have hy : slot % map.height < map.height := Nat.mod_lt _ map.height_pos
  rw [projectRow]
  split
  · exact .ok rfl
  · rw [List.getElem?_eq_getElem hface]
    refine .foldlM rfl fun x hx out hout => ?_
    obtain ⟨texel, htexel⟩ := map.exists_texel hface (List.mem_range.1 hx) hy
    rw [addTexel, htexel]
    exact .ok (by rw [length_addColors, hout])

theorem LightCoeffs.zero?_eq_ok_iff {order : Nat} {light : LightCoeffs α} :
    zero? order = .ok light ↔
      HasRoom (3 * Harmonics.coefficientCount order) ∧ light = zero order := by
  rw [zero?, Outcome.bind_eq_ok_iff]
  simp only [requireRoom_eq_ok_iff]
  constructor
  · rintro ⟨_, hroom, ⟨⟩⟩
    exact ⟨hroom, rfl⟩
  · rintro ⟨hroom, rfl⟩
    exact ⟨(), hroom, rfl⟩

theorem projectEnvironment_eq_ok_iff {map : CubeMap α} {order : Nat} {skipFirst : Bool}
    {threads : ThreadParam} {light : LightCoeffs α} :
    projectEnvironment map order skipFirst threads = .ok light ↔
      HasRoom (3 * Harmonics.coefficientCount order) ∧
        ∃ rows, (List.range (CubeFace.all.length * map.height)).mapM (fun slot =>
            projectRow map order skipFirst slot (LightCoeffs.zero order).coeffs) = .ok rows ∧
          light = ⟨rows.foldl addColors (LightCoeffs.zero order).coeffs⟩ := by
  rw [projectEnvironment, Outcome.bind_eq_ok_iff]
  simp only [LightCoeffs.zero?_eq_ok_iff, Outcome.bind_eq_ok_iff,
    Outcome.parallelFor_replicate_eq_ok_iff]
  constructor
  · rintro ⟨_, ⟨hroom, rfl⟩, rows, hrows, ⟨⟩⟩
    exact ⟨hroom, rows.toList, hrows, rfl⟩
  · rintro ⟨hroom, rows, hrows, rfl⟩
    exact ⟨_, ⟨hroom, rfl⟩, rows.toArray, hrows, rfl⟩

/-- The projection of an environment returns whenever there is room for its coefficients. -/
theorem returns_projectEnvironment (map : CubeMap α) {order : Nat} (skipFirst : Bool)
    (threads : ThreadParam) (hroom : HasRoom (3 * Harmonics.coefficientCount order)) :
    ∃ light, projectEnvironment map order skipFirst threads = .ok light := by
  obtain ⟨rows, hrows, -⟩ := Outcome.Returns.mapM
    (l := List.range (CubeFace.all.length * map.height)) fun slot hslot =>
      returns_projectRow map order skipFirst (List.mem_range.1 hslot)
        (LightCoeffs.zero order).coeffs
  exact ⟨_, projectEnvironment_eq_ok_iff.2 ⟨hroom, rows, hrows, rfl⟩⟩

end RadianceTransfer
