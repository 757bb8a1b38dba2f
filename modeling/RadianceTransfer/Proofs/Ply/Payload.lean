import RadianceTransfer.Ply.Payload
import RadianceTransfer.Proofs.Mesh.Normals
import RadianceTransfer.Proofs.Number.Value
import RadianceTransfer.Proofs.Outcome

/-!
# Which records make a mesh

The records of a file are checked one after the other: the position of every vertex, its normal if
the first vertex has one, the corners of every face, and last that the corners are vertices. Each
check says what passes it and what the value that it lets through has to do with the record. Put
together, they are the condition under which the file holds a mesh, and the mesh lists the vertices
and faces of the file in their order.

Numbers keep their values: a component of a position has the exact value of the property that it was
read from, and a corner is the number that the face lists.

## Main definitions

* `Record.number?`, `Record.face?`: what a record holds under a name.
* `Payload.IsMesh`: the condition.
* `Payload.ListedBy`: what the mesh has to do with the records.

## Main statements

* `Payload.toMesh_checks`: the mesh is returned exactly under the condition.
* `Payload.toMesh_accepts_meshes`: all of it.
-/

namespace RadianceTransfer.Ply

/-! ### What a record holds -/

/-- The exact value of a floating-point number. -/
def RealType.value : (t : RealType) → t.Number → Exact ℚ
  | .single, x => Single.value x
  | .double, x => Double.value x

/-- The exact value of a number, of whichever type. -/
def Value.number? : Value → Option (Exact ℚ)
  | .whole _ n => some (.fin (n.val : ℚ))
  | .real t x => some (t.value x)
  | _ => none

/-- The items of a list of whole numbers, of whichever type. -/
def Value.wholes? : Value → Option (List Int)
  | .wholes _ ns => some (ns.map Subtype.val)
  | _ => none

namespace Record

/-- The exact value of the number under a name. -/
def number? (r : Record) (name : String) : Option (Exact ℚ) :=
  (find? name r).bind Value.number?

/-- The list of a face. It stands under the longer of two names, or else under the shorter one. -/
def face? (r : Record) : Option (List Int) :=
  ((find? "vertex_indices" r).or (find? "vertex_index" r)).bind Value.wholes?

/-- There is a value under each of some names. -/
def HasValues (r : Record) (names : List String) : Prop :=
  ∀ name ∈ names, ∃ v, find? name r = some v

/-- There is a number under each of some names. -/
def HasNumbers (r : Record) (names : List String) : Prop :=
  ∀ name ∈ names, ∃ e, r.number? name = some e

/-- The face lists three corners, none of them negative. -/
def HasCorners (r : Record) : Prop :=
  ∃ ns, r.face? = some ns ∧ ns.length = 3 ∧ ∀ n ∈ ns, 0 ≤ n

/-- All corners that the face lists are below a number of vertices. -/
def IsBelow (r : Record) (count : Nat) : Prop :=
  ∀ ns, r.face? = some ns → ∀ n ∈ ns, n < count

/-- A position has the values of three numbers of a record. -/
def Locates (r : Record) (x y z : String) (v : Vec3 Float) : Prop :=
  r.number? x = some (Double.value v.x) ∧ r.number? y = some (Double.value v.y) ∧
    r.number? z = some (Double.value v.z)

/-- A triangle has the corners that a face lists. -/
def Bounds (r : Record) (t : Triangle) : Prop :=
  r.face? = some (t.toList.map fun i => (i.toNat : Int))

end Record

namespace Payload

/-- The records of a kind. -/
def records (p : Payload) (kind : String) : List Record :=
  (find? kind p).getD []

/-- What makes a mesh. -/
structure IsMesh (p : Payload) : Prop where
  /-- There is a vertex. -/
  exists_vertex : p.records "vertex" ≠ []
  /-- There is a face. -/
  exists_face : p.records "face" ≠ []
  /-- Every vertex has a position. -/
  positions : ∀ v ∈ p.records "vertex", v.HasNumbers ["x", "y", "z"]
  /-- If the first vertex has a normal, whatever it is, all of them have one. -/
  normals : ∀ first ∈ (p.records "vertex").head?, first.HasValues ["nx", "ny", "nz"] →
    ∀ v ∈ p.records "vertex", v.HasNumbers ["nx", "ny", "nz"]
  /-- Every face lists three corners, and these are vertices. -/
  faces : ∀ f ∈ p.records "face", ∃ ns, f.face? = some ns ∧ ns.length = 3 ∧
    ∀ n ∈ ns, 0 ≤ n ∧ n < (p.records "vertex").length

/-- The mesh has the vertices and the faces of the file, in order. -/
structure ListedBy (p : Payload) (m : Mesh Float) : Prop where
  /-- The positions are those of the vertices. -/
  positions : List.Forall₂ (fun v position => v.Locates "x" "y" "z" position)
    (p.records "vertex") m.positions.toList
  /-- The triangles are the faces. -/
  triangles : List.Forall₂ Record.Bounds (p.records "face") m.triangles.toList

end Payload

/-! ### Single values -/

open Outcome

/-- The numbers of a whole type are shorter than 32 digits. -/
theorem WholeType.natAbs_lt {t : WholeType} (n : t.Number) : n.val.natAbs < 2 ^ 32 := by
  obtain ⟨n, hn⟩ := n
  have hbits : 8 * t.bytes ≤ 32 := by cases t <;> decide
  have hroom : twoPow (8 * t.bytes) ≤ 2 ^ 32 := Nat.pow_le_pow_right Nat.zero_lt_two hbits
  have hhalf : twoPow (8 * t.bytes - 1) ≤ 2 ^ 31 :=
    Nat.pow_le_pow_right Nat.zero_lt_two (Nat.sub_le_sub_right hbits 1)
  simp only [holds] at hn
  dsimp only
  split at hn
  · have := of_decide_eq_true hn
    omega
  · have := of_decide_eq_true hn
    omega

theorem WholeType.toNat_toUInt32 {t : WholeType} {n : t.Number} (h : 0 ≤ n.val) :
    (n.val.toNat.toUInt32.toNat : Int) = n.val := by
  have hroom : n.val.toNat < UInt32.size := by
    have := natAbs_lt n
    rw [UInt32.size]
    omega
  rw [Nat.toUInt32_eq, UInt32.toNat_ofNat_of_lt' hroom, Int.toNat_of_nonneg h]

theorem RealType.value_widen (t : RealType) (x : t.Number) :
    Double.value (t.widen x) = t.value x := by
  cases t with
  | single => exact Double.value_ofSingle x
  | double => rfl

theorem Value.toScalar_checks (v : Value) :
    Checks (∃ e, v.number? = some e) (fun x => v.number? = some (Double.value x)) v.toScalar := by
  cases v with
  | whole t n =>
    have hshort : n.val.natAbs < 2 ^ 53 := (WholeType.natAbs_lt n).trans (by decide)
    exact .ok ⟨_, rfl⟩ (congrArg some (Double.value_ofInt hshort).symm)
  | real t x => exact .ok ⟨_, rfl⟩ (congrArg some (t.value_widen x).symm)
  | wholes => exact .report nofun _
  | reals => exact .report nofun _

theorem Value.toIndices_checks (v : Value) :
    Checks (∃ ns, v.wholes? = some ns ∧ ∀ n ∈ ns, 0 ≤ n)
      (fun is => v.wholes? = some (is.map fun i => (i.toNat : Int))) v.toIndices := by
  cases v with
  | whole => exact .report nofun _
  | real => exact .report nofun _
  | reals => exact .report nofun _
  | wholes t ns =>
    have hitems : Checks (∀ n ∈ ns, 0 ≤ n.val)
        (List.Forall₂ (fun n i => n.val = (i.toNat : Int)) ns) (toIndices (.wholes t ns)) := by
      refine .mapM fun n _ => ?_
      by_cases hn : n.val < 0
      · rw [if_pos hn]
        exact .report (not_le.2 hn) _
      · rw [if_neg hn]
        exact .ok (not_lt.1 hn) (WholeType.toNat_toUInt32 (not_lt.1 hn)).symm
    refine (hitems.of_iff ?_).mono fun is his => ?_
    · simp [wholes?]
    · rw [wholes?, Option.some_inj, ← List.forall₂_eq_eq_eq, List.forall₂_map_left_iff,
        List.forall₂_map_right_iff]
      exact his

/-! ### Vertices -/

namespace Record

theorem scalar_checks (r : Record) (name : String) :
    Checks (∃ e, r.number? name = some e) (fun x => r.number? name = some (Double.value x))
      (r.scalar name) := by
  rw [number?, scalar]
  cases find? name r with
  | none => exact .report nofun _
  | some v => exact v.toScalar_checks

theorem vector_checks (r : Record) (x y z : String) :
    Checks (r.HasNumbers [x, y, z]) (r.Locates x y z) (r.vector x y z) := by
  refine Checks.of_iff (c := (∃ e, r.number? x = some e) ∧ (∃ e, r.number? y = some e) ∧
    (∃ e, r.number? z = some e) ∧ True) ?_ (by simp [HasNumbers])
  refine (r.scalar_checks x).bind fun _ hx => ?_
  refine (r.scalar_checks y).bind fun _ hy => ?_
  refine (r.scalar_checks z).bind fun _ hz => ?_
  exact .ok trivial ⟨hx, hy, hz⟩

theorem hasNormal_iff (r : Record) : r.hasNormal = true ↔ r.HasValues ["nx", "ny", "nz"] := by
  simp [hasNormal, HasValues, Option.isSome_iff_exists]

end Record

/-- If there are normals, they are as many as the vertices. -/
theorem normals?_checks (vertices : List Record) :
    Checks (∀ first ∈ vertices.head?, first.HasValues ["nx", "ny", "nz"] →
        ∀ v ∈ vertices, v.HasNumbers ["nx", "ny", "nz"])
      (fun normals => ∀ ns, normals = some ns → ns.size = vertices.length)
      (normals? vertices) := by
  cases vertices with
  | nil => exact .ok nofun nofun
  | cons first rest =>
    rw [normals?]
    by_cases hnormal : first.HasValues ["nx", "ny", "nz"]
    · rw [if_pos (first.hasNormal_iff.2 hnormal)]
      have hvectors : Checks (∀ v ∈ first :: rest, v.HasNumbers ["nx", "ny", "nz"])
          (List.Forall₂ (fun v n => v.Locates "nx" "ny" "nz" n) (first :: rest))
          ((first :: rest).mapM fun v => v.vector "nx" "ny" "nz") :=
        .mapM fun v _ => v.vector_checks _ _ _
      refine Checks.of_iff (hvectors.bind (d := True) fun ns hns => ?_) ?_
      · refine .ok trivial ?_
        rintro _ ⟨⟩
        exact hns.length_eq.symm
      · simp [hnormal]
    · rw [if_neg (mt first.hasNormal_iff.1 hnormal)]
      refine .ok ?_ nofun
      rintro _ ⟨⟩ h
      exact absurd h hnormal

/-! ### Faces -/

namespace Record

theorem corners_checks (r : Record) :
    Checks (∃ ns, r.face? = some ns ∧ ∀ n ∈ ns, 0 ≤ n)
      (fun is => r.face? = some (is.map fun i => (i.toNat : Int))) r.corners := by
  rw [face?, corners]
  cases (find? "vertex_indices" r).or (find? "vertex_index" r) with
  | none => exact .report nofun _
  | some v => exact v.toIndices_checks

theorem triangle_checks (r : Record) : Checks r.HasCorners r.Bounds r.triangle := by
  have hthree : Checks ((∃ ns, r.face? = some ns ∧ ∀ n ∈ ns, 0 ≤ n) ∧
      ∀ ns, r.face? = some ns → ns.length = 3) r.Bounds r.triangle := by
    refine r.corners_checks.bind fun is his => ?_
    split
    · rename_i i j k
      refine .ok ?_ his
      rw [his]
      rintro _ ⟨⟩
      rfl
    · rename_i _ hnot
      refine .report (fun hlength => ?_) _
      have : is.length = 3 := by simpa using hlength _ his
      obtain ⟨i, j, k, rfl⟩ := List.length_eq_three.1 this
      exact hnot i j k rfl
  refine hthree.of_iff ⟨?_, ?_⟩
  · rintro ⟨⟨ns, hns, hnat⟩, hlength⟩
    exact ⟨ns, hns, hlength ns hns, hnat⟩
  · rintro ⟨ns, hns, hlength, hnat⟩
    refine ⟨⟨ns, hns, hnat⟩, ?_⟩
    rw [hns]
    rintro _ ⟨⟩
    exact hlength

theorem Bounds.isBelow_iff {r : Record} {t : Triangle} (h : r.Bounds t) (count : Nat) :
    r.IsBelow count ↔ ∀ i ∈ t.toList, i.toNat < count := by
  rw [Bounds] at h
  simp [IsBelow, h]

end Record

/-! ### The mesh -/

theorem build_checks (positions : Array (Vec3 Float)) (normals : Option (Array (Vec3 Float)))
    (triangles : Array Triangle) :
    Checks (Mesh.Fits positions normals triangles)
      (fun m => m.positions = positions ∧ m.triangles = triangles)
      (Mesh.build positions normals triangles) := by
  refine ⟨fun h => ?_, Mesh.exists_report_of_not_fits⟩
  obtain ⟨m, hm, hpositions, htriangles, -⟩ := Mesh.exists_build h
  exact ⟨m, hm, hpositions, htriangles⟩

/-- Normals that are one per vertex do not matter to whether the parts fit together. -/
theorem fits_iff {vertices faces : List Record} {positions : List (Vec3 Float)}
    {normals : Option (Array (Vec3 Float))} {triangles : List Triangle}
    (hpositions : positions.length = vertices.length)
    (hnormals : ∀ ns, normals = some ns → ns.size = vertices.length)
    (htriangles : List.Forall₂ Record.Bounds faces triangles) :
    Mesh.Fits positions.toArray normals triangles.toArray ↔
      ∀ f ∈ faces, f.IsBelow vertices.length := by
  have hbelow : (∀ f ∈ faces, f.IsBelow vertices.length) ↔
      ∀ t ∈ triangles, ∀ i ∈ t.toList, i.toNat < vertices.length := by
    induction htriangles with
    | nil => simp
    | cons hbounds _ ih => rw [List.forall_mem_cons, List.forall_mem_cons, ih,
        hbounds.isBelow_iff]
  rw [hbelow, Mesh.Fits, List.size_toArray, hpositions, and_iff_left hnormals]
  simp only [List.mem_toArray]

namespace Payload

/-- With vertices and faces, the rest of the condition is what the single checks are about. -/
theorem isMesh_iff {p : Payload} (hvertex : p.records "vertex" ≠ [])
    (hface : p.records "face" ≠ []) :
    (∀ v ∈ p.records "vertex", v.HasNumbers ["x", "y", "z"]) ∧
      (∀ first ∈ (p.records "vertex").head?, first.HasValues ["nx", "ny", "nz"] →
        ∀ v ∈ p.records "vertex", v.HasNumbers ["nx", "ny", "nz"]) ∧
      (∀ f ∈ p.records "face", f.HasCorners) ∧
      (∀ f ∈ p.records "face", f.IsBelow (p.records "vertex").length) ↔ p.IsMesh := by
  constructor
  · rintro ⟨hpositions, hnormals, hcorners, hbelow⟩
    refine ⟨hvertex, hface, hpositions, hnormals, fun f hf => ?_⟩
    obtain ⟨ns, hns, hlength, hnat⟩ := hcorners f hf
    exact ⟨ns, hns, hlength, fun n hn => ⟨hnat n hn, hbelow f hf ns hns n hn⟩⟩
  · intro h
    refine ⟨h.positions, h.normals, fun f hf => ?_, fun f hf ns hns n hn => ?_⟩
    · obtain ⟨ns, hns, hlength, hcorners⟩ := h.faces f hf
      exact ⟨ns, hns, hlength, fun n hn => (hcorners n hn).1⟩
    · obtain ⟨ns', hns', -, hcorners⟩ := h.faces f hf
      cases hns.symm.trans hns'
      exact (hcorners n hn).2

theorem toMesh_checks (p : Payload) : Checks p.IsMesh p.ListedBy p.toMesh := by
  by_cases hvertex : p.records "vertex" = []
  · have hempty : p.toMesh = report .noVertices := if_pos (List.isEmpty_iff.2 hvertex)
    exact hempty ▸ .report (fun h => h.exists_vertex hvertex) _
  by_cases hface : p.records "face" = []
  · have hempty : p.toMesh = report .noFaces :=
      (if_neg (mt List.isEmpty_iff.1 hvertex)).trans (if_pos (List.isEmpty_iff.2 hface))
    exact hempty ▸ .report (fun h => h.exists_face hface) _
  have hparts : p.toMesh = (do
      let positions ← (p.records "vertex").mapM fun v => v.vector "x" "y" "z"
      let normals ← normals? (p.records "vertex")
      let triangles ← (p.records "face").mapM Record.triangle
      Mesh.build positions.toArray normals triangles.toArray) :=
    (if_neg (mt List.isEmpty_iff.1 hvertex)).trans (if_neg (mt List.isEmpty_iff.1 hface))
  rw [hparts]
  refine Checks.of_iff ?_ (isMesh_iff hvertex hface)
  refine (Checks.mapM fun v _ => Record.vector_checks v "x" "y" "z").bind fun _ hpositions => ?_
  refine (normals?_checks _).bind fun _ hnormals => ?_
  refine (Checks.mapM fun f _ => Record.triangle_checks f).bind fun _ htriangles => ?_
  refine ((build_checks _ _ _).of_iff
    (fits_iff hpositions.length_eq.symm hnormals htriangles)).mono fun m hm => ?_
  exact ⟨hm.1 ▸ hpositions, hm.2 ▸ htriangles⟩

/-- Meshes are returned, with all that the records say about them, and nothing else is. -/
theorem toMesh_accepts_meshes (p : Payload) :
    ((∃ m, p.toMesh = .ok m) ↔ p.IsMesh) ∧ (¬ p.IsMesh → ∃ e, p.toMesh = report e) ∧
      ∀ m, p.toMesh = .ok m → p.ListedBy m :=
  ⟨p.toMesh_checks.exists_iff, p.toMesh_checks.reports, fun _ => p.toMesh_checks.of_eq_ok⟩

/-- A vertex whose first two coordinates are given. -/
def vertexAt (x y : WholeType.Number .uint16) : Record :=
  [("z", .whole .int32 ⟨-5, rfl⟩), ("x", .whole .uint16 x), ("y", .whole .uint16 y)]

/-- Three vertices and a face that lists some corners. -/
def oneFace (corners : List (WholeType.Number .int8)) : Payload :=
  [("face", [[("vertex_index", .wholes .int8 corners)]]),
    ("vertex",
      [vertexAt ⟨0, rfl⟩ ⟨0, rfl⟩, vertexAt ⟨1, rfl⟩ ⟨0, rfl⟩, vertexAt ⟨0, rfl⟩ ⟨1, rfl⟩])]

theorem isMesh_oneFace {corners : List (WholeType.Number .int8)} :
    (oneFace corners).IsMesh ↔ corners.length = 3 ∧ ∀ n ∈ corners, 0 ≤ n.val ∧ n.val < 3 := by
  have hvertex : (oneFace corners).records "vertex" =
      [vertexAt ⟨0, rfl⟩ ⟨0, rfl⟩, vertexAt ⟨1, rfl⟩ ⟨0, rfl⟩, vertexAt ⟨0, rfl⟩ ⟨1, rfl⟩] := rfl
  have hface : (oneFace corners).records "face" = [[("vertex_index", .wholes .int8 corners)]] := rfl
  have hlist : Record.face? [("vertex_index", .wholes .int8 corners)] =
      some (corners.map Subtype.val) := rfl
  constructor
  · intro h
    obtain ⟨ns, hns, hlength, hcorners⟩ := h.faces _ (hface ▸ List.mem_singleton_self _)
    cases hlist.symm.trans hns
    rw [List.length_map] at hlength
    exact ⟨hlength, fun n hn => hcorners _ (List.mem_map_of_mem hn)⟩
  · rintro ⟨hlength, hcorners⟩
    refine ⟨List.cons_ne_nil _ _, List.cons_ne_nil _ _, ?_, ?_, ?_⟩
    · have hnumbers (x y : WholeType.Number .uint16) :
          (vertexAt x y).HasNumbers ["x", "y", "z"] := by
        simp only [Record.HasNumbers, List.forall_mem_cons]
        exact ⟨⟨_, rfl⟩, ⟨_, rfl⟩, ⟨_, rfl⟩, nofun⟩
      simp only [hvertex, List.forall_mem_cons]
      exact ⟨hnumbers _ _, hnumbers _ _, hnumbers _ _, nofun⟩
    · rintro _ ⟨⟩ hnormal
      obtain ⟨v, hv⟩ := hnormal "nx" List.mem_cons_self
      cases hv
    · simp only [hface, List.forall_mem_cons]
      refine ⟨⟨_, hlist, by rwa [List.length_map], fun n hn => ?_⟩, nofun⟩
      obtain ⟨n, hmem, rfl⟩ := List.mem_map.1 hn
      exact hcorners n hmem

/-- The corners may come in any order, and none of them may be negative. -/
theorem toMesh_accepts_meshes_oneFace :
    (∃ m, (oneFace [⟨2, rfl⟩, ⟨0, rfl⟩, ⟨1, rfl⟩]).toMesh = .ok m) ∧
      ∃ e, (oneFace [⟨2, rfl⟩, ⟨0, rfl⟩, ⟨-1, rfl⟩]).toMesh = report e := by
  constructor
  · exact (toMesh_accepts_meshes _).1.2 (isMesh_oneFace.2 (by decide))
  · exact (toMesh_accepts_meshes _).2.1 (mt isMesh_oneFace.1 (by decide))

end Payload

end RadianceTransfer.Ply
