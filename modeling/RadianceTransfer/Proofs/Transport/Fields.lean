import RadianceTransfer.Proofs.Transport.Combination

/-!
# Tables as fields

The tables of the meshes of a scene have one value for each coefficient at each vertex. A field is
what they have for one of the coefficients: a value for each mesh and vertex. Tables of the same
shape that hold the same fields are equal, and tables are combined field by field.

## Main statements

* `ShapedTables.exists_fields`, `HoldFields.unique`: tables and fields determine each other.
* `HoldFields.zipWith`: tables are combined field by field.
-/

namespace RadianceTransfer

open TransportTable

variable {α : Type} {shLen : Nat} {meshes : Array (Mesh α)} {ts ts' : List (TransportTable α)}
  {F G : Nat → Nat → Nat → α}

/-- The tables hold the values of some fields, one for each coefficient. -/
structure HoldFields (shLen : Nat) (meshes : Array (Mesh α)) (tables : List (TransportTable α))
    (F : Nat → Nat → Nat → α) : Prop where
  /-- There is a table for each mesh. -/
  shaped : ShapedTables shLen meshes tables
  /-- A column has the values of all fields at its vertex. -/
  column_eq {i v : Nat} {mesh : Mesh α} {t : TransportTable α} :
    meshes[i]? = some mesh → tables[i]? = some t → v < mesh.vertexCount →
      t.column v = .ok ((List.range shLen).map fun k => F k i v)

namespace HoldFields

theorem coefficient?_eq (h : HoldFields shLen meshes ts F) {i v k : Nat} {mesh : Mesh α}
    (hmesh : meshes[i]? = some mesh) (hv : v < mesh.vertexCount) (hk : k < shLen) :
    coefficient? ts i v k = some (F k i v) := by
  obtain ⟨t, ht, -⟩ := h.shaped.exists_table hmesh
  rw [TransportTable.coefficient?_eq ht (h.column_eq hmesh ht hv), List.getElem?_map,
    List.getElem?_range hk, Option.map_some]

/-- Only the values at vertices matter. -/
theorem congr (h : HoldFields shLen meshes ts F)
    (hFG : ∀ k < shLen, ∀ (i : Nat) mesh v, meshes[i]? = some mesh → v < mesh.vertexCount →
      F k i v = G k i v) : HoldFields shLen meshes ts G := by
  refine ⟨h.shaped, fun {i v mesh t} hmesh ht hv => ?_⟩
  rw [h.column_eq hmesh ht hv]
  exact congrArg Except.ok (List.map_congr_left fun k hk =>
    hFG k (List.mem_range.1 hk) i mesh v hmesh hv)

/-- Tables are combined field by field. -/
theorem zipWith (h : HoldFields shLen meshes ts F) (h' : HoldFields shLen meshes ts' G)
    (f : α → α → α) :
    HoldFields shLen meshes (List.zipWith (TransportTable.zipWith f) ts ts')
      fun k i v => f (F k i v) (G k i v) := by
  refine ⟨h.shaped.zipWith h'.shaped, fun {i v mesh t} hmesh ht hv => ?_⟩
  obtain ⟨s, hs, hshape⟩ := h.shaped.exists_table hmesh
  obtain ⟨s', hs', hshape'⟩ := h'.shaped.exists_table hmesh
  rw [List.getElem?_zipWith, hs, hs'] at ht
  cases ht
  rw [(hshape.sameShape hshape').column_zipWith, h.column_eq hmesh hs hv, Outcome.bind_ok,
    h'.column_eq hmesh hs' hv, Outcome.bind_ok, List.zipWith_map, List.zipWith_self]

/-- Tables that hold the same fields are equal. -/
theorem unique (h : HoldFields shLen meshes ts F) (h' : HoldFields shLen meshes ts' F) :
    ts = ts' := by
  obtain ⟨hlen, hshape⟩ := shapedTables_iff.1 h.shaped
  obtain ⟨hlen', hshape'⟩ := shapedTables_iff.1 h'.shaped
  refine List.ext_getElem (hlen.trans hlen'.symm) fun i hi hi' => ?_
  have hsize : i < meshes.size := hlen ▸ hi
  have hmesh : meshes[i]? = some meshes[i] := Array.getElem?_eq_getElem hsize
  have ht : ts[i]? = some ts[i] := List.getElem?_eq_getElem hi
  have ht' : ts'[i]? = some ts'[i] := List.getElem?_eq_getElem hi'
  refine (hshape i _ _ hmesh ht).ext (hshape' i _ _ hmesh ht') fun v hv => ?_
  rw [h.column_eq hmesh ht hv, h'.column_eq hmesh ht' hv]

end HoldFields

/-- Tables with a column for each vertex hold fields. -/
theorem ShapedTables.exists_fields [Zero α] (h : ShapedTables shLen meshes ts) :
    ∃ F, HoldFields shLen meshes ts F := by
  refine ⟨fun k i v => (coefficient? ts i v k).getD 0, h, fun {i v mesh t} hmesh ht hv => ?_⟩
  obtain ⟨-, hshape⟩ := shapedTables_iff.1 h
  obtain ⟨col, hcol⟩ := (hshape i mesh t hmesh ht).exists_column hv
  have hlen : col.length = shLen := (hshape i mesh t hmesh ht).length_column hcol
  rw [hcol]
  refine congrArg Except.ok (List.ext_getElem ?_ fun k hk hk' => ?_)
  · rw [hlen, List.length_map, List.length_range]
  · simp only [List.getElem_map, List.getElem_range, TransportTable.coefficient?_eq ht hcol]
    rw [List.getElem?_eq_getElem hk, Option.getD_some]

end RadianceTransfer
