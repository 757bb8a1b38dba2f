import Mathlib
import RadianceTransfer.Proofs.Number.Digits
import RadianceTransfer.Proofs.Transport.Table
import RadianceTransfer.Storage.Coefficients

/-!
# Reading coefficient files back

The text of a coefficient file consists of rows of words. Rows of legible values, whose texts are
words that are read as the values again, come back line by line: lighting as it was, transport as
the columns of the corners.

A column is kept once for every corner at its vertex, so the table is rebuilt by writing the columns
of the corners into a table without light. Corners at one vertex have the same column, so it does
not matter which of them comes last, and a vertex without a corner stays dark.

## Main statements

* `parseLight_renderLight`: lighting is read back.
* `parseTransport_eq_ok`: the columns of the corners are read back.
* `TransportFile.exists_restored`: the table that they make.
-/

namespace RadianceTransfer

open Text (IsWord joinWords)

variable {α : Type}

section Text

variable [NumberText α]

/-- A value whose text is a word that is read as the value again. -/
structure Legible (x : α) : Prop where
  /-- The text is a word. -/
  isWord : IsWord (NumberText.render x).toList
  /-- The text is read as the value. -/
  read_render : NumberText.read? (NumberText.render x) = some x

/-! ### Rows -/

/-- The words of some values. -/
def rowOf (values : List α) : List (List Char) :=
  values.map fun x => (NumberText.render x).toList

/-- A text made of rows, each of which ends in a line feed. -/
def HasRows (text : String) (rows : List (List (List Char))) : Prop :=
  text.toList = rows.flatMap fun ws => joinWords ws ++ ['\n']

theorem isWord_of_mem_rowOf {values : List α} (h : ∀ x ∈ values, Legible x) :
    ∀ w ∈ rowOf values, IsWord w := by
  intro w hw
  obtain ⟨x, hx, rfl⟩ := List.mem_map.1 hw
  exact (h x hx).isWord

theorem toList_renderLine (values : List α) :
    (renderLine values).toList = joinWords (rowOf values) ++ ['\n'] := by
  rw [renderLine, String.toList_append, String.toList_intercalate, List.map_map]
  rfl

theorem hasRows_renderLines {ι : Type} (l : List ι) (values : ι → List α) :
    HasRows (String.join (l.map fun i => renderLine (values i)))
      (l.map fun i => rowOf (values i)) := by
  rw [HasRows, String.toList_join, List.flatMap_map, List.flatMap_map]
  simp only [toList_renderLine]

/-- A text of rows, none of which is empty, has one line for each row. -/
theorem numberedLines_eq {text : String} {rows : List (List (List Char))} (h : HasRows text rows)
    (hrows : ∀ ws ∈ rows, ws ≠ [] ∧ ∀ w ∈ ws, IsWord w) :
    numberedLines text = (rows.map joinWords).zipIdx 1 := by
  rw [numberedLines, h, Text.lines_joinWords fun ws hws => (hrows ws hws).2, List.filter_eq_self]
  rintro ⟨line, number⟩ hmem
  obtain ⟨ws, hws, rfl⟩ := List.mem_map.1 (List.fst_mem_of_mem_zipIdx hmem)
  simpa using Text.trim_joinWords_ne_nil (hrows ws hws).1 (hrows ws hws).2

theorem readLine_joinWords {values : List α} (h : ∀ x ∈ values, Legible x) (path : String)
    (number : Nat) : readLine path number (joinWords (rowOf values)) = .ok values := by
  rw [readLine, Text.words_joinWords (isWord_of_mem_rowOf h), Outcome.mapM_eq_ok_iff, rowOf,
    List.forall₂_map_left_iff, List.forall₂_same]
  intro x hx
  rw [String.ofList_toList]
  dsimp only
  rw [(h x hx).read_render]

theorem mapM_numbered {β ι : Type} {f : β × Nat → Outcome ι} {line : ι → β} {l : List ι}
    (hf : ∀ i ∈ l, ∀ number, f (line i, number) = .ok i) (start : Nat) :
    ((l.map line).zipIdx start).mapM f = .ok l := by
  induction l generalizing start with
  | nil => rfl
  | cons i l ih =>
    rw [List.map_cons, List.zipIdx_cons, List.mapM_cons, hf i List.mem_cons_self,
      Outcome.bind_ok, ih fun j hj => hf j (List.mem_cons_of_mem _ hj)]
    rfl

/-! ### Lighting -/

/-- Reading a lighting file gives the lighting that was written. -/
theorem parseLight_renderLight {light : LightCoeffs α}
    (h : ∀ c ∈ light.coeffs, Legible c.r ∧ Legible c.g ∧ Legible c.b) (path : String) :
    parseLight path (renderLight light) = .ok light := by
  have hlegible : ∀ c ∈ light.coeffs, ∀ x ∈ [c.r, c.g, c.b], Legible x := by
    intro c hc
    obtain ⟨hr, hg, hb⟩ := h c hc
    simp [hr, hg, hb]
  have hlines : numberedLines (renderLight light) =
      (light.coeffs.map fun c => joinWords (rowOf [c.r, c.g, c.b])).zipIdx 1 := by
    rw [renderLight, numberedLines_eq (hasRows_renderLines light.coeffs fun c => [c.r, c.g, c.b]),
      List.map_map]
    · rfl
    · intro ws hws
      obtain ⟨c, hc, rfl⟩ := List.mem_map.1 hws
      exact ⟨List.cons_ne_nil _ _, isWord_of_mem_rowOf (hlegible c hc)⟩
  rw [parseLight, hlines, mapM_numbered]
  · rfl
  · intro c hc number
    dsimp only
    rw [readLine_joinWords (hlegible c hc)]
    rfl

/-! ### Transport -/

/-- Lines that all have the length that is expected, if any is, are read one by one. -/
theorem readCorners_eq_ok {n : Nat} {columns : List (List α)}
    (h : ∀ column ∈ columns, column.length = n ∧ ∀ x ∈ column, Legible x) (path : String)
    {expected : Option Nat} (hexpected : expected.getD n = n) (start : Nat) :
    readCorners path expected
      ((columns.map fun column => joinWords (rowOf column)).zipIdx start) = .ok columns := by
  induction columns generalizing expected start with
  | nil => rfl
  | cons column columns ih =>
    obtain ⟨hlen, hlegible⟩ := h column List.mem_cons_self
    have hmore : readCorners path (some n)
        ((columns.map fun column => joinWords (rowOf column)).zipIdx (start + 1)) = .ok columns :=
      ih (fun c hc => h c (List.mem_cons_of_mem _ hc)) rfl (start + 1)
    rw [List.map_cons, List.zipIdx_cons, readCorners, readLine_joinWords hlegible,
      Outcome.bind_ok]
    dsimp only
    rw [hlen, hexpected, if_neg (not_not_intro rfl), hmore]
    rfl

theorem toList_count_line (n : Nat) : (s!"{n}\n").toList = Nat.toDigits 10 n ++ ['\n'] := by
  have happend : s!"{n}\n" = n.repr ++ "\n" := rfl
  rw [happend, String.toList_append, Nat.toList_repr]
  rfl

/-- A transport file has a line with a count and one line for each corner. -/
theorem numberedLines_transport (vertices : Nat) {columns : List (List α)}
    (h : ∀ column ∈ columns, column ≠ [] ∧ ∀ x ∈ column, Legible x) :
    numberedLines (s!"{vertices}\n" ++ String.join (columns.map renderLine)) =
      (joinWords [Nat.toDigits 10 vertices], 1) ::
        (columns.map fun column => joinWords (rowOf column)).zipIdx 2 := by
  have hrows : HasRows (s!"{vertices}\n" ++ String.join (columns.map renderLine))
      ([Nat.toDigits 10 vertices] :: columns.map rowOf) := by
    have hcolumns : HasRows (String.join (columns.map renderLine)) (columns.map rowOf) :=
      hasRows_renderLines columns id
    rw [HasRows, String.toList_append, hcolumns, toList_count_line, List.flatMap_cons, joinWords,
      List.intercalate_singleton]
  have hwords : ∀ ws ∈ [Nat.toDigits 10 vertices] :: columns.map rowOf,
      ws ≠ [] ∧ ∀ w ∈ ws, IsWord w := by
    intro ws hws
    rcases List.mem_cons.1 hws with rfl | hws
    · refine ⟨List.cons_ne_nil _ _, fun w hw => ?_⟩
      rw [List.mem_singleton.1 hw]
      exact Text.isWord_toDigits vertices
    · obtain ⟨column, hcolumn, rfl⟩ := List.mem_map.1 hws
      obtain ⟨hne, hlegible⟩ := h column hcolumn
      exact ⟨fun hnil => hne (List.map_eq_nil_iff.1 hnil), isWord_of_mem_rowOf hlegible⟩
  rw [numberedLines_eq hrows hwords, List.map_cons, List.zipIdx_cons, List.map_map]
  rfl

theorem readCount_count_line {n : Nat} (h : FitsUnsigned 64 n) :
    readCount (String.ofList (Text.trim (joinWords [Nat.toDigits 10 n]))) = .ok n := by
  rw [joinWords, List.intercalate_singleton, Text.trim_eq_self (Text.isWord_toDigits n).not_blank,
    readCount_digits h]

/-- Reading a transport file gives the number of vertices and the columns that were written. -/
theorem parseTransport_eq_ok {n vertices : Nat} {columns : List (List α)} (hn : 0 < n)
    (hvertices : FitsUnsigned 64 vertices)
    (h : ∀ column ∈ columns, column.length = n ∧ ∀ x ∈ column, Legible x)
    (htriangles : columns.length % 3 = 0) (path : String) :
    parseTransport path (s!"{vertices}\n" ++ String.join (columns.map renderLine)) =
      .ok ⟨vertices, columns⟩ := by
  have hlines := numberedLines_transport vertices fun column hcolumn =>
    ⟨List.ne_nil_of_length_pos (by rw [(h column hcolumn).1]; exact hn), (h column hcolumn).2⟩
  have hcorners : readCorners path none
      ((columns.map fun column => joinWords (rowOf column)).zipIdx 2) = .ok columns :=
    readCorners_eq_ok h path rfl 2
  rw [parseTransport, hlines]
  dsimp only
  rw [readCount_count_line hvertices]
  dsimp only
  rw [hcorners, Outcome.bind_ok, if_neg (not_not_intro htriangles)]
  rfl

end Text

/-! ### Tables -/

/-- The vertices at the corners of all triangles, one for each corner. -/
def Mesh.corners (mesh : Mesh α) : List Nat :=
  (mesh.triangles.toList.flatMap Triangle.toList).map UInt32.toNat

theorem Mesh.length_corners (mesh : Mesh α) : mesh.corners.length = 3 * mesh.triangleCount := by
  have hthree (t : Triangle) : t.toList.length = 3 := rfl
  rw [corners, List.length_map, List.length_flatMap]
  simp only [hthree, List.map_const', List.sum_replicate, Array.length_toList, smul_eq_mul,
    Mesh.triangleCount, Nat.mul_comm]

theorem Mesh.lt_of_mem_corners {mesh : Mesh α} {v : Nat} (h : v ∈ mesh.corners) :
    v < mesh.vertexCount := by
  obtain ⟨i, hi, rfl⟩ := List.mem_map.1 h
  obtain ⟨t, ht, hi⟩ := List.mem_flatMap.1 hi
  obtain ⟨h0, h1, h2⟩ := mesh.inRange t (Array.mem_def.2 ht)
  simp only [Triangle.toList, List.mem_cons, List.not_mem_nil, or_false] at hi
  rcases hi with rfl | rfl | rfl
  · exact h0
  · exact h1
  · exact h2

theorem cornerColumns_eq_ok {mesh : Mesh α} {t : TransportTable α} {column : Nat → List α}
    (h : ∀ v < mesh.vertexCount, t.column v = .ok (column v)) :
    cornerColumns mesh t = .ok (mesh.corners.map column) := by
  rw [cornerColumns, Outcome.mapM_eq_ok_iff, Mesh.corners, List.map_map, List.forall₂_map_right_iff,
    List.forall₂_same]
  intro i hi
  exact h i.toNat (Mesh.lt_of_mem_corners (List.mem_map_of_mem hi))

/-- Of several writes at one place the last one stays, and here they all write the same. -/
theorem foldl_set_replicate {β : Type} (places : List Nat) (value : Nat → β) (n : Nat) (z : β) :
    places.foldl (fun xs v => xs.set v (value v)) (List.replicate n z) =
      (List.range n).map fun v => if v ∈ places then value v else z := by
  induction places using List.reverseRecOn with
  | nil => simp
  | append_singleton places w ih =>
    rw [List.foldl_append, ih, List.foldl_cons, List.foldl_nil]
    refine List.ext_getElem (by simp) fun v hv hv' => ?_
    rw [List.getElem_set]
    by_cases hw : w = v
    · subst hw
      simp
    · simp [hw, Ne.symm hw]

section Restored

variable [Scalar α] {mesh : Mesh α} {n : Nat} {column : Nat → List α}

/-- Columns at the corners of all triangles, and no light at every other vertex. -/
def Mesh.columnsAtCorners (mesh : Mesh α) (n : Nat) (column : Nat → List α) : List (List α) :=
  (List.range mesh.vertexCount).map fun v =>
    if v ∈ mesh.corners then column v else List.replicate n 0

theorem Mesh.length_columnsAtCorners :
    (mesh.columnsAtCorners n column).length = mesh.vertexCount := by
  rw [columnsAtCorners, List.length_map, List.length_range]

theorem Mesh.getElem?_columnsAtCorners {v : Nat} (hv : v < mesh.vertexCount) :
    (mesh.columnsAtCorners n column)[v]? =
      some (if v ∈ mesh.corners then column v else List.replicate n 0) := by
  rw [columnsAtCorners, List.getElem?_map, List.getElem?_range hv, Option.map_some]

theorem Mesh.holds_columnsAtCorners (h : ∀ v < mesh.vertexCount, (column v).length = n) :
    (TransportTable.ofChunks n (mesh.columnsAtCorners n column)).Holds n
      (mesh.columnsAtCorners n column) := by
  refine TransportTable.holds_ofChunks fun c hc => ?_
  obtain ⟨v, hv, rfl⟩ := List.mem_map.1 hc
  split
  · exact h v (List.mem_range.1 hv)
  · exact List.length_replicate

/-- The table that the columns of the corners make. -/
theorem TransportFile.toTable_eq_ok (hmesh : 0 < mesh.triangleCount)
    (h : ∀ v < mesh.vertexCount, (column v).length = n) :
    (⟨mesh.vertexCount, mesh.corners.map column⟩ : TransportFile α).toTable mesh =
      .ok (TransportTable.ofChunks n (mesh.columnsAtCorners n column)) := by
  have hlen : (mesh.corners.map column).length = 3 * mesh.triangleCount := by
    rw [List.length_map, mesh.length_corners]
  have hhead : ((mesh.corners.map column).head?.map List.length).getD 0 = n := by
    cases hcorners : mesh.corners with
    | nil =>
      rw [hcorners, List.map_nil, List.length_nil] at hlen
      omega
    | cons v _ => exact h v (Mesh.lt_of_mem_corners (hcorners ▸ List.mem_cons_self))
  have hfold : ((mesh.triangles.toList.flatMap Triangle.toList).zip
        (mesh.corners.map column)).foldl (fun columns p => columns.set p.1.toNat p.2)
        (List.replicate mesh.vertexCount (List.replicate n 0)) =
      mesh.columnsAtCorners n column := by
    rw [Mesh.columnsAtCorners, ← foldl_set_replicate, Mesh.corners, List.map_map,
      ← List.map_prod_left_eq_zip, List.foldl_map, List.foldl_map]
    rfl
  rw [toTable]
  dsimp only
  rw [if_neg (by simp [hlen]), hhead, hfold]
  exact TransportTable.ofColumns_eq_ok (Mesh.holds_columnsAtCorners h).length_eq

/-- A table as its file gives it back: of the same shape, the same at the corners of all triangles,
and without light at every other vertex. -/
structure TransportTable.Restores (back t : TransportTable α) (mesh : Mesh α) : Prop where
  /-- The columns have the length they had. -/
  shLen_eq : back.shLen = t.shLen
  /-- There are as many of them. -/
  size_eq : back.data.size = t.data.size
  /-- The vertices with a corner keep their columns. -/
  column_of_mem : ∀ v ∈ mesh.corners, back.column v = t.column v
  /-- No light comes to the others. -/
  column_of_not_mem : ∀ v < mesh.vertexCount, v ∉ mesh.corners →
    back.column v = .ok (List.replicate t.shLen 0)

omit [Scalar α] in
theorem TransportTable.Shaped.exists_columns {t : TransportTable α} {vertices : Nat}
    (h : t.Shaped n vertices) :
    ∃ column : Nat → List α, ∀ v < vertices,
      t.column v = .ok (column v) ∧ (column v).length = n ∧ ∀ x ∈ column v, x ∈ t.data := by
  obtain ⟨columns, rfl, hholds⟩ := h.exists_holds
  refine ⟨fun v => columns[v]?.getD [], fun v hv => ?_⟩
  obtain ⟨c, hc, hlen⟩ := hholds.exists_getElem? hv
  dsimp only
  rw [hc, Option.getD_some]
  refine ⟨hholds.column_eq hc, hlen, fun x hx => ?_⟩
  rw [Array.mem_def, hholds.toList_data]
  exact List.mem_flatten_of_mem (List.mem_of_getElem? hc) hx

/-- What is written of a table makes the table again, as far as its vertices have a corner. -/
theorem TransportFile.exists_restored (hmesh : 0 < mesh.triangleCount) {t : TransportTable α}
    (h : t.Shaped n mesh.vertexCount) :
    ∃ columns, cornerColumns mesh t = .ok columns ∧ columns.length = 3 * mesh.triangleCount ∧
      (∀ c ∈ columns, c.length = n ∧ ∀ x ∈ c, x ∈ t.data) ∧
      ∃ back, (⟨mesh.vertexCount, columns⟩ : TransportFile α).toTable mesh = .ok back ∧
        back.Restores t mesh := by
  obtain ⟨column, hcolumn⟩ := h.exists_columns
  have hlength : ∀ v < mesh.vertexCount, (column v).length = n := fun v hv => (hcolumn v hv).2.1
  have hholds := Mesh.holds_columnsAtCorners hlength
  refine ⟨_, cornerColumns_eq_ok fun v hv => (hcolumn v hv).1, ?_, ?_, _,
    toTable_eq_ok hmesh hlength, ?_⟩
  · rw [List.length_map, mesh.length_corners]
  · intro c hc
    obtain ⟨v, hv, rfl⟩ := List.mem_map.1 hc
    exact (hcolumn v (Mesh.lt_of_mem_corners hv)).2
  · constructor
    case shLen_eq => rw [hholds.shLen_eq, h.shLen_eq]
    case size_eq => rw [hholds.size_data, Mesh.length_columnsAtCorners, h.size_eq]
    case column_of_mem =>
      intro v hv
      have hlt := Mesh.lt_of_mem_corners hv
      rw [hholds.column_eq (Mesh.getElem?_columnsAtCorners hlt), if_pos hv, (hcolumn v hlt).1]
    case column_of_not_mem =>
      intro v hv hnot
      rw [hholds.column_eq (Mesh.getElem?_columnsAtCorners hv), if_neg hnot, h.shLen_eq]

end Restored

end RadianceTransfer
