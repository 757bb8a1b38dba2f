import RadianceTransfer.Transport.Interreflection
import RadianceTransfer.Proofs.Harmonics.Basis
import RadianceTransfer.Proofs.Harmonics.Numbering
import RadianceTransfer.Proofs.Transport.Table

/-!
# The passes over the vertices

A pass fills one table per mesh. It returns whenever the scene answers its rays with hits on
vertices that exist, since then every position, normal and column that it looks up is there.

What the columns of a level inherit from the level before, such as a sign, is a condition that is
kept by blending three columns and by the weight of the samples. `Inherited` says this of a
condition, so the argument about lookups is made once for all of them.

## Main definitions

* `RayCaster.NamesVertices`, `ShapedTables`: scenes and tables that fit together.
* `Reflection`, `reflection?`: what a sample meets.

## Main statements

* `TransportTable.exists_fill`: a table has the columns that were computed.
* `gather_cases`: what a sample does.
* `returns_projectAllDirect`: the direct transport of all meshes.
* `returns_projectBounce`: a level of interreflection from the level before it.
-/

namespace RadianceTransfer

/-! ### Lookups -/

section

variable {α : Type} {meshes : Array (Mesh α)} {shLen v i : Nat} {P : List α → Prop}

/-- Every ray is answered. If it hits anything, the hit names a mesh and vertices of it. -/
def RayCaster.NamesVertices (caster : RayCaster α) (meshes : Array (Mesh α)) : Prop :=
  ∀ ray, ∃ answer, caster.closest ray = .ok answer ∧
    ∀ hit, answer = some hit → ∃ mesh, meshes[hit.mesh]? = some mesh ∧
      hit.corners.InRange mesh.vertexCount

/-- There is one table for each mesh, with one column of a common length for each vertex. -/
def ShapedTables (shLen : Nat) (meshes : Array (Mesh α)) (tables : List (TransportTable α)) :
    Prop :=
  List.Forall₂ (fun mesh t => t.Shaped shLen mesh.vertexCount) meshes.toList tables

/-- Every column of some tables satisfies a condition. -/
def EachColumn (P : List α → Prop) (tables : List (TransportTable α)) : Prop :=
  ∀ t ∈ tables, ∀ v c, t.column v = .ok c → P c

theorem ShapedTables.exists_table {tables : List (TransportTable α)}
    (h : ShapedTables shLen meshes tables) {mesh : Mesh α} (hmesh : meshes[i]? = some mesh) :
    ∃ t, tables[i]? = some t ∧ t.Shaped shLen mesh.vertexCount := by
  obtain ⟨hi, rfl⟩ := Array.getElem?_eq_some_iff.1 hmesh
  have hi' : i < tables.length := h.length_eq ▸ hi
  exact ⟨tables[i], List.getElem?_eq_getElem hi', (List.forall₂_iff_get.1 h).2 i hi hi'⟩

/-- The table of a mesh is found. -/
theorem ShapedTables.exists_get {tables : List (TransportTable α)}
    (h : ShapedTables shLen meshes tables) {mesh : Mesh α} (hmesh : meshes[i]? = some mesh) :
    ∃ t, Outcome.get tables.toArray i = .ok t ∧ tables[i]? = some t ∧
      t.Shaped shLen mesh.vertexCount := by
  obtain ⟨t, ht, hshape⟩ := h.exists_table hmesh
  exact ⟨t, Outcome.get_eq_ok_iff.2 (by rw [List.getElem?_toArray, ht]), ht, hshape⟩

theorem shapedTables_iff {tables : List (TransportTable α)} :
    ShapedTables shLen meshes tables ↔ tables.length = meshes.size ∧
      ∀ (i : Nat) mesh t, meshes[i]? = some mesh → tables[i]? = some t →
        t.Shaped shLen mesh.vertexCount := by
  rw [ShapedTables, List.forall₂_iff_get]
  constructor
  · rintro ⟨hlen, hget⟩
    refine ⟨hlen.symm, fun i mesh t hmesh ht => ?_⟩
    obtain ⟨hi, rfl⟩ := Array.getElem?_eq_some_iff.1 hmesh
    obtain ⟨hi', rfl⟩ := List.getElem?_eq_some_iff.1 ht
    exact hget i hi hi'
  · rintro ⟨hlen, hget⟩
    exact ⟨hlen.symm, fun i hi hi' =>
      hget i _ _ (Array.getElem?_eq_getElem hi) (List.getElem?_eq_getElem hi')⟩

theorem TransportTable.Shaped.exists_column {t : TransportTable α} {vertices : Nat}
    (h : t.Shaped shLen vertices) (hv : v < vertices) : ∃ c, t.column v = .ok c := by
  obtain ⟨columns, rfl, hholds⟩ := h.exists_holds
  exact ⟨columns[v], hholds.column_eq (List.getElem?_eq_getElem hv)⟩

theorem Mesh.exists_position {mesh : Mesh α} (hv : v < mesh.vertexCount) :
    ∃ p, mesh.position v = .ok p :=
  ⟨mesh.positions[v], Outcome.get_eq_ok_iff.2 (Array.getElem?_eq_getElem hv)⟩

theorem Mesh.exists_normal {mesh : Mesh α} (hv : v < mesh.vertexCount) :
    ∃ n, mesh.normal v = .ok n :=
  have hv' : v < mesh.normals.size := mesh.size_normals ▸ hv
  ⟨mesh.normals[v], Outcome.get_eq_ok_iff.2 (Array.getElem?_eq_getElem hv')⟩

theorem Mesh.exists_blendNormal [Scalar α] {mesh : Mesh α} {t : Triangle}
    (ht : t.InRange mesh.vertexCount) (weights : Vec3 α) :
    ∃ n, mesh.blendNormal t weights = .ok n := by
  obtain ⟨h0, h1, h2⟩ := ht
  obtain ⟨n0, hn0⟩ := Mesh.exists_normal h0
  obtain ⟨n1, hn1⟩ := Mesh.exists_normal h1
  obtain ⟨n2, hn2⟩ := Mesh.exists_normal h2
  exact ⟨_, by rw [Mesh.blendNormal, hn0, hn1, hn2]; rfl⟩

/-- The number of a vertex as a word names a vertex, although perhaps another one. -/
theorem toUInt32_toNat_lt {n : Nat} (hv : v < n) : v.toUInt32.toNat < n :=
  Nat.lt_of_le_of_lt (Nat.mod_le v (2 ^ 32)) hv

/-- A pass over the meshes gives one table for each. -/
theorem returns_tables {f : Mesh α × Nat → Outcome (TransportTable α)}
    (hf : ∀ i mesh, meshes[i]? = some mesh → Outcome.Returns
      (fun t => t.Shaped shLen mesh.vertexCount ∧ ∀ v c, t.column v = .ok c → P c) (f (mesh, i))) :
    Outcome.Returns (fun tables => ShapedTables shLen meshes tables ∧ EachColumn P tables)
      (meshes.toList.zipIdx.mapM f) := by
  have htables := Outcome.Returns.mapM_zipIdx (l := meshes.toList) fun i mesh hmesh =>
    hf i mesh (by rwa [Array.getElem?_toList] at hmesh)
  refine htables.mono fun tables h => ⟨h.imp fun _ _ ht => ht.1, fun t ht => ?_⟩
  obtain ⟨i, hi, rfl⟩ := List.getElem_of_mem ht
  exact ((List.forall₂_iff_get.1 h).2 i (h.length_eq ▸ hi) hi).2

end

variable {α : Type} [Scalar α]

section

variable {shLen vertices : Nat} {column : Nat → Outcome (List α)} {P : List α → Prop}

/-- A table is filled with the columns of the vertices if there is room for it and every column is
computed. -/
theorem TransportTable.exists_fill (threads : ThreadParam) (hpos : 0 < shLen)
    (hroom : HasRoom (shLen * vertices))
    (h : ∀ v < vertices, Outcome.Returns (fun c => c.length = shLen ∧ P c) (column v)) :
    ∃ t, fill shLen vertices threads column = .ok t ∧ t.Shaped shLen vertices ∧
      (∀ v < vertices, t.column v = column v) ∧ ∀ v c, t.column v = .ok c → P c := by
  obtain ⟨columns, hcolumns, hall⟩ :=
    Outcome.Returns.mapM (l := List.range vertices) fun v hv => h v (List.mem_range.1 hv)
  have hlen : vertices = columns.length := by
    rw [← hall.length_eq, List.length_range]
  have hmem (c : List α) (hc : c ∈ columns) : c.length = shLen ∧ P c := by
    obtain ⟨i, hi, rfl⟩ := List.getElem_of_mem hc
    exact (List.forall₂_iff_get.1 hall).2 i (by rwa [List.length_range, hlen]) hi
  have hholds := holds_ofChunks fun c hc => (hmem c hc).1
  subst hlen
  refine ⟨_, (fill_eq_ok_iff hpos).2 ⟨hroom, columns, hcolumns, rfl⟩, hholds.shaped hroom,
    fun v hv => ?_, fun v c hc => ?_⟩
  · rw [Outcome.mapM_eq_ok_iff, List.forall₂_iff_get] at hcolumns
    have hcolumn : column v = .ok columns[v] := by
      simpa using hcolumns.2 v (by rwa [List.length_range]) hv
    rw [hholds.column_eq (List.getElem?_eq_getElem hv), hcolumn]
  · rw [hholds.column_eq_ok_iff hpos] at hc
    exact (hmem c (List.mem_of_getElem? hc)).2

/-- It is filled with the columns that are computed even if these are empty. -/
theorem TransportTable.exists_fill_of_length (threads : ThreadParam)
    (hroom : HasRoom (shLen * vertices))
    (h : ∀ v < vertices, Outcome.Returns (fun c => c.length = shLen) (column v)) :
    ∃ t, fill shLen vertices threads column = .ok t ∧ t.Shaped shLen vertices ∧
      ∀ v < vertices, t.column v = column v := by
  rcases Nat.eq_zero_or_pos shLen with rfl | hpos
  · have hempty : (zero 0 vertices : TransportTable α).columns.toArray = #[] := by
      rw [columns, zero, Nat.zero_mul]
      show (chunks _ []).toArray = #[]
      rw [chunks]
    have hloop : parallelFor (#[] : Array (List α)) threads (fun v _ => column v) = .ok #[] :=
      Outcome.parallelFor_replicate_eq_ok_iff (n := 0) (x := []).2 rfl
    refine ⟨⟨0, #[]⟩, ?_, ⟨rfl, (Nat.zero_mul _).symm, ?_⟩, fun v hv => ?_⟩
    · rw [fill, zero?_eq_ok_iff.2 ⟨hroom, rfl⟩, Outcome.bind_ok, hempty, hloop]
      rfl
    · rwa [Nat.zero_mul] at hroom
    · obtain ⟨c, hc, hlen⟩ := h v hv
      rw [hc, List.eq_nil_of_length_eq_zero hlen]
      rfl
  · obtain ⟨t, ht, hshape, hcolumn, -⟩ := exists_fill threads hpos hroom
      (P := fun _ => True) fun v hv => (h v hv).mono fun _ hlen => ⟨hlen, trivial⟩
    exact ⟨t, ht, hshape, hcolumn⟩

theorem TransportTable.returns_fill {threads : ThreadParam} (hpos : 0 < shLen)
    (hroom : HasRoom (shLen * vertices))
    (h : ∀ v < vertices, Outcome.Returns (fun c => c.length = shLen ∧ P c) (column v)) :
    Outcome.Returns (fun t => t.Shaped shLen vertices ∧ ∀ v c, t.column v = .ok c → P c)
      (fill shLen vertices threads column) :=
  let ⟨t, ht, hshape, _, hcols⟩ := exists_fill threads hpos hroom h
  ⟨t, ht, hshape, hcols⟩

end

/-! ### Direct transport -/

section

variable {P : List α → Prop} {caster : RayCaster α} {meshes : Array (Mesh α)}
  {param : TransportParam α}

/-- The light from a direction is nothing, or the cosine to it if that is not below zero. -/
theorem returns_incoming (hblocked : ∀ ray, ∃ b, caster.blocked ray = .ok b)
    (point normal : Vec3 α) (sample : SphereSample α) :
    Outcome.Returns (fun value => value = 0 ∨ ¬ value ≤ 0)
      (incoming caster param point normal sample) := by
  unfold incoming
  by_cases hh : normal.dot sample.dir ≤ 0
  · rw [if_pos hh]
    exact .ok (.inl rfl)
  rw [if_neg hh]
  by_cases hs : param.shadowed
  · obtain ⟨b, hb⟩ := hblocked (Ray.offset point sample.dir param.rayBias)
    rw [if_pos hs, hb, Outcome.bind_ok]
    cases b
    · exact .ok (.inr hh)
    · exact .ok (.inl rfl)
  · rw [if_neg hs]
    exact .ok (.inr hh)

/-- A condition on columns that the direct transport satisfies. -/
structure Projected (order : Nat) (P : List α → Prop) : Prop where
  /-- A column of zeros satisfies it. -/
  zero : P (List.replicate (Harmonics.coefficientCount order) 0)
  /-- It is kept when the light from a direction is added. -/
  add {dir : Vec3 α} {col : List α} {value : α} :
    value = 0 ∨ ¬ value ≤ 0 → P col → P (Harmonics.addProjected order dir col value)
  /-- It is kept when a column is multiplied by the weight of the samples. -/
  weight {sampler : StratifiedSphere Pcg} {col : List α} :
    P col → P (col.map (· * sampler.weight))

theorem projected_true (order : Nat) : Projected order fun _ : List α => True :=
  ⟨trivial, fun _ _ => trivial, fun _ => trivial⟩

theorem returns_projectFunction {order : Nat} (hP : Projected order P)
    (hroom : HasRoom (Harmonics.coefficientCount order)) {f : SphereSample α → Outcome α}
    (hf : ∀ sample, Outcome.Returns (fun value => value = 0 ∨ ¬ value ≤ 0) (f sample))
    (sampler : StratifiedSphere Pcg) :
    Outcome.Returns (fun col => col.length = Harmonics.coefficientCount order ∧ P col)
      (Harmonics.projectFunction order sampler f) := by
  unfold Harmonics.projectFunction
  rw [requireRoom_eq_ok_iff (u := ()).2 hroom, Outcome.bind_ok]
  refine Outcome.Returns.bind (.foldlM
    (P := fun col => col.length = Harmonics.coefficientCount order ∧ P col)
    ⟨List.length_replicate, hP.zero⟩ fun sample _ col hcol => ?_) fun col hcol => ?_
  · exact (hf sample).bind fun value hvalue =>
      .ok ⟨Harmonics.length_addProjected hcol.1 sample.dir value, hP.add hvalue hcol.2⟩
  · exact .ok ⟨by rw [List.length_map, hcol.1], hP.weight hcol.2⟩

theorem projectDirect_eq (caster : RayCaster α) (meshId : UInt32) (mesh : Mesh α)
    (param : TransportParam α) :
    projectDirect caster meshId mesh param =
      Harmonics.coefficientCount? param.order >>= fun shLen =>
        TransportTable.fill shLen mesh.vertexCount param.threads fun v =>
          directColumn caster meshId mesh param v.toUInt32 :=
  rfl

/-- The direct transport of a vertex. -/
theorem returns_directColumn (hP : Projected param.order.toNat P)
    (hblocked : ∀ ray, ∃ b, caster.blocked ray = .ok b) (meshId : UInt32) {mesh : Mesh α}
    (hcount : HasRoom (Harmonics.coefficientCount param.order.toNat)) {v : UInt32}
    (hv : v.toNat < mesh.vertexCount) :
    Outcome.Returns (fun c => c.length = Harmonics.coefficientCount param.order.toNat ∧ P c)
      (directColumn caster meshId mesh param v) := by
  obtain ⟨point, hpoint⟩ := Mesh.exists_position hv
  obtain ⟨normal, hnormal⟩ := Mesh.exists_normal hv
  rw [directColumn, hpoint, Outcome.bind_ok, hnormal, Outcome.bind_ok]
  exact returns_projectFunction hP hcount (returns_incoming hblocked point normal) _

/-- The direct transport of a mesh. -/
theorem returns_projectDirect (hP : Projected param.order.toNat P)
    (hblocked : ∀ ray, ∃ b, caster.blocked ray = .ok b) (meshId : UInt32) {mesh : Mesh α}
    (hcount : HasRoom (Harmonics.coefficientCount param.order.toNat))
    (hroom : HasRoom (Harmonics.coefficientCount param.order.toNat * mesh.vertexCount)) :
    Outcome.Returns (fun t => t.Shaped (Harmonics.coefficientCount param.order.toNat)
        mesh.vertexCount ∧ ∀ v c, t.column v = .ok c → P c)
      (projectDirect caster meshId mesh param) := by
  rw [projectDirect_eq, Harmonics.coefficientCount?_eq_ok_iff.2 ⟨hcount.fitsUnsigned, rfl⟩,
    Outcome.bind_ok]
  exact TransportTable.returns_fill (Harmonics.coefficientCount_pos _) hroom fun v hv =>
    returns_directColumn hP hblocked meshId hcount (toUInt32_toNat_lt hv)

/-- The direct transport of all meshes. -/
theorem returns_projectAllDirect (hP : Projected param.order.toNat P)
    (hblocked : ∀ ray, ∃ b, caster.blocked ray = .ok b)
    (hcount : HasRoom (Harmonics.coefficientCount param.order.toNat))
    (hroom : ∀ mesh ∈ meshes,
      HasRoom (Harmonics.coefficientCount param.order.toNat * mesh.vertexCount)) :
    Outcome.Returns (fun direct =>
        ShapedTables (Harmonics.coefficientCount param.order.toNat) meshes direct ∧
          EachColumn P direct)
      (projectAllDirect caster meshes param) :=
  returns_tables fun i mesh hmesh => returns_projectDirect hP hblocked i.toUInt32 hcount
    (hroom mesh (Array.mem_of_getElem? hmesh))

end

/-! ### Interreflection -/

/-- The surface that light comes from in a direction, and how much of it comes. -/
structure Reflection (α : Type) where
  /-- The hit on the surface. -/
  hit : SurfaceHit α
  /-- What the weights of the corners are multiplied by. -/
  scale : α

/-- What is reflected in the direction of a sample, if anything is. No table is read for it. -/
def reflection? (caster : RayCaster α) (meshes : Array (Mesh α)) (param : TransportParam α)
    (point normal : Vec3 α) (sample : SphereSample α) : Option (Reflection α) :=
  let h := normal.dot sample.dir
  if h ≤ 0 then none
  else do
    let hit ← (caster.closest (Ray.offset point sample.dir param.rayBias)).toOption.join
    let mesh ← meshes[hit.mesh]?
    let hitNormal ← (mesh.blendNormal hit.corners hit.weights).toOption
    if hitNormal.dot (-sample.dir) ≤ 0 then none
    else some ⟨hit, h * (1 / Scalar.twoPi)⟩

/-- A condition on columns that a level passes on to the next one. -/
structure Inherited (caster : RayCaster α) (shLen : Nat) (P : List α → Prop) : Prop where
  /-- A column of zeros satisfies it. -/
  zero : P (List.replicate shLen 0)
  /-- It is kept when the columns at a hit are added, as they are seen from a direction above. -/
  blend {ray : Ray α} {hit : SurfaceHit α} {h : α} {c0 c1 c2 sum : List α} :
    caster.closest ray = .ok (some hit) → ¬ h ≤ 0 → P c0 → P c1 → P c2 → P sum →
      P (TransportTable.blend c0 c1 c2 hit.weights (h * (1 / Scalar.twoPi)) sum)
  /-- It is kept when a column is multiplied by the weight of the samples. -/
  weight {sampler : StratifiedSphere Pcg} {c : List α} :
    P c → P (c.map (· * sampler.weight))

theorem inherited_true (caster : RayCaster α) (shLen : Nat) :
    Inherited caster shLen fun _ => True :=
  ⟨trivial, fun _ _ _ _ _ _ => trivial, fun _ => trivial⟩

section

variable {P : List α → Prop} {caster : RayCaster α} {meshes : Array (Mesh α)} {shLen : Nat}
  {prev : List (TransportTable α)} {param : TransportParam α}

/-- What a sample does. It adds nothing, or a blend of columns of the level before. Which one it is,
and what is blended, depends on no table. -/
theorem gather_cases (hnames : caster.NamesVertices meshes) (param : TransportParam α)
    (point normal : Vec3 α) (sample : SphereSample α) :
    (reflection? caster meshes param point normal sample = none ∧
      ∀ prev sum, gather caster meshes prev param point normal sample sum = .ok sum) ∨
    ∃ r mesh, reflection? caster meshes param point normal sample = some r ∧
      caster.closest (Ray.offset point sample.dir param.rayBias) = .ok (some r.hit) ∧
      (∃ h, ¬ h ≤ 0 ∧ r.scale = h * (1 / Scalar.twoPi)) ∧
      meshes[r.hit.mesh]? = some mesh ∧ r.hit.corners.InRange mesh.vertexCount ∧
      ∀ prev sum, gather caster meshes prev param point normal sample sum =
        Outcome.get prev r.hit.mesh >>= fun t =>
          t.addBlend r.hit.corners r.hit.weights r.scale sum := by
  unfold reflection? gather
  by_cases hh : normal.dot sample.dir ≤ 0
  · simp only [if_pos hh]
    exact .inl ⟨trivial, fun _ _ => rfl⟩
  simp only [if_neg hh]
  obtain ⟨answer, hans, hnamed⟩ := hnames (Ray.offset point sample.dir param.rayBias)
  rw [hans]
  cases answer with
  | none => exact .inl ⟨rfl, fun _ _ => rfl⟩
  | some hit =>
    obtain ⟨mesh, hmesh, hin⟩ := hnamed hit rfl
    obtain ⟨normal', hnormal'⟩ := Mesh.exists_blendNormal hin hit.weights
    simp only [Except.toOption, Option.join_some, Option.bind_eq_bind, Option.bind_some, hmesh,
      hnormal', Outcome.bind_ok, Outcome.get_eq_ok_iff.2 hmesh]
    by_cases hback : normal'.dot (-sample.dir) ≤ 0
    · simp only [if_pos hback]
      exact .inl ⟨trivial, fun _ _ => rfl⟩
    · simp only [if_neg hback]
      exact .inr ⟨_, mesh, rfl, rfl, ⟨_, hh, rfl⟩, hmesh, hin, fun _ _ => rfl⟩

/-- A sample returns, and what it adds to a column keeps the condition. -/
theorem returns_gather (hP : Inherited caster shLen P) (hnames : caster.NamesVertices meshes)
    (hshape : ShapedTables shLen meshes prev) (hcols : EachColumn P prev) (point normal : Vec3 α)
    (sample : SphereSample α) {sum : List α} (hsum : sum.length = shLen ∧ P sum) :
    Outcome.Returns (fun out => out.length = shLen ∧ P out)
      (gather caster meshes prev.toArray param point normal sample sum) := by
  rcases gather_cases hnames param point normal sample with
    ⟨-, hgather⟩ | ⟨r, mesh, -, hhit, ⟨h, hh, hscale⟩, hmesh, hin, hgather⟩
  · rw [hgather]
    exact .ok hsum
  · obtain ⟨t, hget, ht, htshape⟩ := hshape.exists_get hmesh
    obtain ⟨c0, hc0⟩ := htshape.exists_column hin.1
    obtain ⟨c1, hc1⟩ := htshape.exists_column hin.2.1
    obtain ⟨c2, hc2⟩ := htshape.exists_column hin.2.2
    rw [hgather, hget, Outcome.bind_ok, TransportTable.addBlend_eq hc0 hc1 hc2, hscale]
    have hcol := hcols t (List.mem_of_getElem? ht)
    exact .ok ⟨by rw [TransportTable.length_blend, hsum.1],
      hP.blend hhit hh (hcol _ _ hc0) (hcol _ _ hc1) (hcol _ _ hc2) hsum.2⟩

/-- A level of one vertex. -/
theorem returns_bounceColumn (hP : Inherited caster shLen P) (hnames : caster.NamesVertices meshes)
    (hshape : ShapedTables shLen meshes prev) (hcols : EachColumn P prev) (depth : UInt32)
    (meshId : UInt32) {mesh : Mesh α} {vertex : UInt32} (hv : vertex.toNat < mesh.vertexCount) :
    Outcome.Returns (fun c => c.length = shLen ∧ P c)
      (bounceColumn caster meshes prev.toArray depth param shLen meshId mesh vertex) := by
  obtain ⟨point, hpoint⟩ := Mesh.exists_position hv
  obtain ⟨normal, hnormal⟩ := Mesh.exists_normal hv
  rw [bounceColumn, hpoint, Outcome.bind_ok, hnormal, Outcome.bind_ok, Harmonics.projectVector]
  refine Outcome.Returns.bind (.foldlM (P := fun c => c.length = shLen ∧ P c)
    ⟨List.length_replicate, hP.zero⟩ fun sample _ sum hsum =>
      returns_gather hP hnames hshape hcols point normal sample hsum) fun c hc => ?_
  exact .ok ⟨by rw [List.length_map, hc.1], hP.weight hc.2⟩

theorem bounceTable_eq (caster : RayCaster α) (meshes : Array (Mesh α))
    (prev : Array (TransportTable α)) (depth : UInt32) (param : TransportParam α) (mesh : Mesh α)
    (meshId : Nat) :
    bounceTable caster meshes prev depth param mesh meshId =
      Outcome.get prev meshId >>= fun t =>
        TransportTable.fill t.shLen mesh.vertexCount param.threads fun v =>
          bounceColumn caster meshes prev depth param t.shLen meshId.toUInt32 mesh v.toUInt32 :=
  rfl

/-- A level fills a table of the same shape, for which there is room. -/
theorem ShapedTables.bounceTable_eq_fill (hshape : ShapedTables shLen meshes prev)
    (caster : RayCaster α) (depth : UInt32) (param : TransportParam α) {i : Nat} {mesh : Mesh α}
    (hmesh : meshes[i]? = some mesh) :
    HasRoom (shLen * mesh.vertexCount) ∧
      bounceTable caster meshes prev.toArray depth param mesh i =
        TransportTable.fill shLen mesh.vertexCount param.threads fun v =>
          bounceColumn caster meshes prev.toArray depth param shLen i.toUInt32 mesh v.toUInt32 := by
  obtain ⟨t, hget, -, htshape⟩ := hshape.exists_get hmesh
  refine ⟨htshape.size_eq ▸ htshape.room, ?_⟩
  rw [bounceTable_eq, hget, Outcome.bind_ok, htshape.shLen_eq]

/-- A level of one mesh. -/
theorem returns_bounceTable (hpos : 0 < shLen) (hP : Inherited caster shLen P)
    (hnames : caster.NamesVertices meshes) (hshape : ShapedTables shLen meshes prev)
    (hcols : EachColumn P prev) (depth : UInt32) {i : Nat} {mesh : Mesh α}
    (hmesh : meshes[i]? = some mesh) :
    Outcome.Returns
      (fun t => t.Shaped shLen mesh.vertexCount ∧ ∀ v c, t.column v = .ok c → P c)
      (bounceTable caster meshes prev.toArray depth param mesh i) := by
  obtain ⟨hroom, hfill⟩ := hshape.bounceTable_eq_fill caster depth param hmesh
  rw [hfill]
  exact TransportTable.returns_fill hpos hroom fun v hv =>
    returns_bounceColumn hP hnames hshape hcols depth _ (toUInt32_toNat_lt hv)

/-- A level of interreflection for all meshes. -/
theorem returns_projectBounce (hpos : 0 < shLen) (hP : Inherited caster shLen P)
    (hnames : caster.NamesVertices meshes) (hshape : ShapedTables shLen meshes prev)
    (hcols : EachColumn P prev) (depth : UInt32) :
    Outcome.Returns (fun level => ShapedTables shLen meshes level ∧ EachColumn P level)
      (projectBounce caster meshes prev depth param) :=
  returns_tables fun _ _ hmesh => returns_bounceTable hpos hP hnames hshape hcols depth hmesh

end

/-! ### Two triangles that face each other -/

namespace Facing

theorem inRange : (⟨0, 1, 2⟩ : Triangle).InRange 3 := by
  decide

/-- A triangle at a height, with one normal. -/
def triangle (height : α) (normal : Vec3 α) : Mesh α where
  positions := #[⟨0, 0, height⟩, ⟨1, 0, height⟩, ⟨0, 1, height⟩]
  normals := #[normal, normal, normal]
  triangles := #[⟨0, 1, 2⟩]
  size_normals := rfl
  inRange := by
    intro t ht
    rw [List.mem_toArray, List.mem_singleton] at ht
    rw [ht]
    exact inRange

/-- A floor that looks up and a lid that looks down. -/
def meshes : Array (Mesh α) :=
  #[triangle 0 ⟨0, 0, 1⟩, triangle 1 ⟨0, 0, -1⟩]

/-- Rays up meet the lid and others the floor, always at the same point. -/
def caster : RayCaster α where
  blocked _ := .ok false
  closest ray := .ok (some ⟨if 0 < ray.dir.z then 1 else 0, ⟨0, 1, 2⟩, ⟨0.5, 0.25, 0.25⟩, ray.org⟩)

/-- One sample of each of sixteen cells, and no shadows. -/
def param (order : UInt32) (threads : ThreadParam) : TransportParam α :=
  ⟨order, 16, 7, false, 0, threads⟩

theorem vertexCount_of_mem {mesh : Mesh α} (h : mesh ∈ (meshes : Array (Mesh α))) :
    mesh.vertexCount = 3 := by
  rw [meshes, List.mem_toArray, List.mem_pair] at h
  rcases h with rfl | rfl <;> rfl

/-- The lid has a third vertex. -/
theorem exists_lid : ∃ mesh, (meshes : Array (Mesh α))[1]? = some mesh ∧ 2 < mesh.vertexCount :=
  ⟨triangle 1 ⟨0, 0, -1⟩, rfl, Nat.lt_succ_self 2⟩

theorem namesVertices : (caster : RayCaster α).NamesVertices meshes := by
  intro ray
  refine ⟨_, rfl, ?_⟩
  rintro _ ⟨⟩
  dsimp only
  split
  · exact ⟨triangle 1 ⟨0, 0, -1⟩, rfl, inRange⟩
  · exact ⟨triangle 0 ⟨0, 0, 1⟩, rfl, inRange⟩

end Facing

end RadianceTransfer
