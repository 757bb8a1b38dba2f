import Mathlib
import RadianceTransfer.Integrator.Output
import RadianceTransfer.Proofs.Storage.Coefficients
import RadianceTransfer.Proofs.Storage.Store

/-!
# What the integrator leaves in its folder

The coefficient files of a scene have different names, so none overwrites another, and reading them
gives the lighting and the transport that were written.

## Main statements

* `nodup_outputPaths`: the files have different names.
* `exists_writes_writeTransport`: a transport file gives its table back.
* `Integrator.run_writeOutputs_eq`: the steps of writing all files of a scene.
* `coefficients_read_back`: so do all files of a scene.
-/

namespace RadianceTransfer

/-! ### Names -/

namespace Path

/-- What follows the last slash of a path. -/
def fileName (p : String) : String :=
  (segments p).getLast?.getD ""

theorem splitOn_name {name : String} (hname : '/' ∉ name.toList) :
    Text.splitOn (· == '/') name.toList = [name.toList] := by
  rw [Text.splitOn_eq_splitOnP]
  refine List.splitOnP_eq_singleton fun c hc => ?_
  rw [beq_eq_false_iff_ne]
  rintro rfl
  exact hname hc

theorem fileName_of_toList_eq {p name : String} (front : List Char) (hname : '/' ∉ name.toList)
    (hp : p.toList = front ++ '/' :: name.toList) : fileName p = name := by
  have hsplit : Text.splitOn (· == '/') p.toList =
      Text.splitOn (· == '/') front ++ [name.toList] := by
    rw [hp, ← splitOn_name hname, Text.splitOn_eq_splitOnP, Text.splitOn_eq_splitOnP,
      Text.splitOn_eq_splitOnP, List.splitOnP_append_cons front name.toList (by decide)]
  rw [fileName, segments, hsplit, List.map_append, List.map_singleton, List.getLast?_concat,
    Option.getD_some, String.ofList_toList]

/-- A name in a folder is the last part of its path. -/
theorem fileName_join {folder name : String} (hname : '/' ∉ name.toList) :
    fileName (join folder name) = name := by
  have hrelative : isAbsolute name = false := by
    rw [isAbsolute, beq_eq_false_iff_ne]
    exact fun h => hname (List.mem_of_head? h)
  rw [join, hrelative, if_neg Bool.false_ne_true]
  split
  · rename_i hfolder
    rw [Bool.or_eq_true, String.isEmpty_iff, beq_iff_eq] at hfolder
    rcases hfolder with rfl | hlast
    · rw [String.empty_append, fileName, segments, splitOn_name hname]
      exact String.ofList_toList
    · obtain ⟨front, hfront⟩ := List.getLast?_eq_some_iff.1 hlast
      refine fileName_of_toList_eq front hname ?_
      rw [String.toList_append, hfront, List.append_assoc, List.singleton_append]
  · refine fileName_of_toList_eq folder.toList hname ?_
    rw [String.toList_append, String.toList_append, List.append_assoc]
    rfl

end Path

theorem toList_transportName (i : Nat) :
    (transportName i).toList = "transport".toList ++
      (if i = 0 then [] else '_' :: Nat.toDigits 10 i) ++ ".txt".toList := by
  rw [transportName]
  split
  · decide
  · have happend : s!"transport_{i}.txt" = "transport_" ++ i.repr ++ ".txt" := rfl
    rw [happend, String.toList_append, String.toList_append, Nat.toList_repr]
    rfl

theorem slash_notMem_transportName (i : Nat) : '/' ∉ (transportName i).toList := by
  have hdigit : '/' ∉ Nat.toDigits 10 i := fun h =>
    Bool.false_ne_true (isDigit_of_mem_toDigits h)
  rw [toList_transportName]
  split
  · decide
  · simp [hdigit]

/-- The number in a name tells which mesh it is. -/
theorem transportName_injective : Function.Injective transportName := by
  intro i j hij
  have h := congrArg String.toList hij
  rw [toList_transportName, toList_transportName, List.append_left_inj, List.append_right_inj] at h
  split at h
  · split at h
    · omega
    · cases h
  · split at h
    · cases h
    · have hdigits : Nat.toDigits 10 i = Nat.toDigits 10 j := (List.cons.inj h).2
      have hvalue (n : Nat) : Nat.ofDigitChars 10 (Nat.toDigits 10 n) 0 = n :=
        Nat.ofDigitChars_toDigits (by decide) (by decide)
      rw [← hvalue i, hdigits, hvalue j]

theorem light_ne_transportName (i : Nat) : "light.txt" ≠ transportName i := by
  intro h
  have hhead : "light.txt".toList.head? = (transportName i).toList.head? := by rw [h]
  rw [toList_transportName, List.append_assoc] at hhead
  have hchar : 'l' = 't' := Option.some.inj hhead
  exact absurd hchar (by decide)

theorem length_outputPaths (folder : String) (meshes : Nat) :
    (outputPaths folder meshes).2.length = meshes := by
  rw [outputPaths, List.length_map, List.length_range]

/-- The lighting file and the transport files of a scene have different names. -/
theorem nodup_outputPaths (folder : String) (meshes : Nat) :
    (((outputPaths folder meshes).1 :: (outputPaths folder meshes).2).map Path.fileName).Nodup := by
  have hnames : ((outputPaths folder meshes).1 :: (outputPaths folder meshes).2).map Path.fileName =
      "light.txt" :: (List.range meshes).map transportName := by
    rw [outputPaths, List.map_cons, List.map_map, Path.fileName_join (by decide)]
    exact congrArg _ (List.map_congr_left fun i _ =>
      Path.fileName_join (slash_notMem_transportName i))
  rw [hnames, List.nodup_cons]
  refine ⟨fun h => ?_, List.nodup_range.map transportName_injective⟩
  obtain ⟨i, -, hi⟩ := List.mem_map.1 h
  exact light_ne_transportName i hi.symm

/-! ### Files -/

section Files

variable {α σ : Type} [NumberText α] [FileStore σ α]

theorem readLight_eq_ok {s : σ} {path : String} {light : LightCoeffs α}
    (hlegible : ∀ c ∈ light.coeffs, Legible c.r ∧ Legible c.g ∧ Legible c.b)
    (hread : FileStore.readText α s path = .ok (renderLight light)) :
    readLight s path = .ok light := by
  rw [readLight, hread]
  exact parseLight_renderLight hlegible path

theorem readTransport_eq {s : σ} {path text : String}
    (hread : FileStore.readText α s path = .ok text) :
    (readTransport s path : Outcome (TransportFile α)) = parseTransport path text := by
  rw [readTransport, hread]

/-- The file of a mesh gives back its table. -/
def GivesBack [Scalar α] (path text : String) (mesh : Mesh α) (t : TransportTable α) : Prop :=
  ∃ file back, parseTransport path text = .ok file ∧ file.toTable mesh = .ok back ∧
    back.Restores t mesh

theorem exists_writes_writeTransport [Scalar α] [FileStore.Lawful σ α] {mesh : Mesh α}
    (hmesh : 0 < mesh.triangleCount) {t : TransportTable α} (hpos : 0 < t.shLen)
    (h : t.Shaped t.shLen mesh.vertexCount) (hlegible : ∀ x ∈ t.data, Legible x) (path : String) :
    ∃ text, Storing.Writes α path text (writeTransport path mesh t : Storing σ Unit) ∧
      GivesBack path text mesh t := by
  obtain ⟨columns, hcolumns, hlen, hcolumn, back, hback, hrestores⟩ :=
    TransportFile.exists_restored hmesh h
  have hroom : FitsUnsigned 64 mesh.vertexCount := by
    refine (h.room.of_le ?_).fitsUnsigned
    rw [h.size_eq]
    exact Nat.le_mul_of_pos_left _ hpos
  have hwork : (writeTransport path mesh t : Storing σ Unit) =
      FileStore.writeText α path
        (s!"{mesh.vertexCount}\n" ++ String.join (columns.map renderLine)) := by
    obtain ⟨_, hvertices, hholds⟩ := h.exists_holds
    rw [writeTransport, hholds.vertexCount_eq hpos, hvertices, if_neg (not_not_intro rfl), hcolumns]
    rfl
  refine ⟨_, hwork ▸ Storing.writes_writeText path _, _, back, ?_, hback, hrestores⟩
  refine parseTransport_eq_ok hpos hroom (fun c hc => ?_) (by omega) path
  obtain ⟨hclen, hmem⟩ := hcolumn c hc
  exact ⟨hclen, fun x hx => hlegible x (hmem x hx)⟩

/-- Tables for meshes whose files have different paths are all written. -/
theorem exists_writeTables [Scalar α] [FileStore.Lawful σ α] {paths : List String}
    (hpaths : paths.Nodup) {meshes : List (Mesh α)} {tables : List (TransportTable α)}
    (hlength : paths.length = meshes.length)
    (hmeshes : ∀ mesh ∈ meshes, 0 < mesh.triangleCount)
    (htables : List.Forall₂ (fun mesh t => 0 < t.shLen ∧ t.Shaped t.shLen mesh.vertexCount)
      meshes tables)
    (hlegible : ∀ t ∈ tables, ∀ x ∈ t.data, Legible x) (s : σ) :
    ∃ s', (Integrator.writeTables paths meshes tables : Storing σ Unit).run.run s = (.ok (), s') ∧
      Outcome.Forall₃ (fun path mesh t => ∃ text, FileStore.readText α s' path = .ok text ∧
        GivesBack path text mesh t) paths meshes tables ∧
      ∀ other, other ∉ paths → FileStore.readText α s' other = FileStore.readText α s other := by
  obtain ⟨hlength', hshaped⟩ := List.forall₂_iff_zip.1 htables
  have hfirst : (paths.zip (meshes.zip tables)).map Prod.fst = paths := by
    refine List.map_fst_zip ?_
    rw [List.length_zip]
    omega
  have hwrites : ∀ job ∈ paths.zip (meshes.zip tables), ∃ text,
      Storing.Writes α job.1 text (writeTransport job.1 job.2.1 job.2.2 : Storing σ Unit) ∧
        GivesBack job.1 text job.2.1 job.2.2 := by
    rintro ⟨path, mesh, t⟩ hjob
    have hpair : (mesh, t) ∈ meshes.zip tables := (List.of_mem_zip hjob).2
    obtain ⟨hmesh, ht⟩ := List.of_mem_zip hpair
    obtain ⟨hpos, hshape⟩ := hshaped hpair
    exact exists_writes_writeTransport (hmeshes mesh hmesh) hpos hshape (hlegible t ht) path
  obtain ⟨s', hrun, hread, hframe⟩ := Storing.exists_forM (by rwa [hfirst]) hwrites s
  rw [hfirst] at hframe
  exact ⟨s', hrun, Outcome.forall₃_of_zip hlength hlength' hread, hframe⟩

namespace Integrator

/-- The coefficient files, whose folder is there. -/
def writeFiles (paths : String × List String) (light : LightCoeffs α) (meshes : List (Mesh α))
    (tables : List (TransportTable α)) : Storing σ (List String) := do
  writeLight paths.1 light
  writeTables paths.2 meshes tables
  pure (paths.1 :: paths.2)

theorem run_writeOutputs_eq [Scalar α] {prt : Integrator α} {light : LightCoeffs α}
    (hlight : prt.light = some light) (meshes : List (Mesh α)) (store : σ) :
    (prt.writeOutputs meshes).run.run store =
      if prt.transport.length = meshes.length then
        match FileStore.makeFolders α store prt.settings.outputFolder with
        | (.error e, made) =>
          (.error (.reported (.makeFolder prt.settings.outputFolder e)), made)
        | (.ok (), made) =>
          (writeFiles (outputPaths prt.settings.outputFolder meshes.length) light meshes
            prt.transport).run.run made
      else (.error (.reported (.tableCount prt.transport.length meshes.length)), store) := by
  have hget : (get : Storing σ σ).run.run store = (.ok store, store) := rfl
  rw [writeOutputs, hlight]
  dsimp only
  rw [ite_not]
  split_ifs
  · rw [Storing.run_bind hget]
    rcases FileStore.makeFolders α store prt.settings.outputFolder with ⟨e | _, made⟩ <;> rfl
  · rfl

/-- Writing the files of a scene makes their folder and then writes the lighting and the tables. -/
theorem run_writeOutputs [Scalar α] {prt : Integrator α} {light : LightCoeffs α}
    {meshes : List (Mesh α)} (hlight : prt.light = some light)
    (hlength : prt.transport.length = meshes.length) {s s₀ s₁ s₂ : σ}
    (hfolder : FileStore.makeFolders α s prt.settings.outputFolder = (.ok (), s₀))
    (hfirst : (writeLight (outputPaths prt.settings.outputFolder meshes.length).1 light :
      Storing σ Unit).run.run s₀ = (.ok (), s₁))
    (hrest : (writeTables (outputPaths prt.settings.outputFolder meshes.length).2 meshes
      prt.transport : Storing σ Unit).run.run s₁ = (.ok (), s₂)) :
    (prt.writeOutputs meshes).run.run s =
      (.ok ((outputPaths prt.settings.outputFolder meshes.length).1 ::
        (outputPaths prt.settings.outputFolder meshes.length).2), s₂) := by
  rw [run_writeOutputs_eq hlight, if_pos hlength, hfolder]
  exact (Storing.run_bind hfirst).trans (Storing.run_bind hrest)

end Integrator

end Files

/-! ### Numbers -/

/-- A number whose text is read as the number again. -/
def ReadsBack (x : Float) : Prop :=
  NumberText.read? (NumberText.render x) = some x

instance (x : Float) : Decidable (ReadsBack x) :=
  inferInstanceAs (Decidable (_ = _))

theorem ReadsBack.legible {x : Float} (h : ReadsBack x) : Legible x :=
  ⟨(BinaryClass.ofDouble x).isWord_render, h⟩

namespace Square

/-- Two triangles with a common edge, and a vertex that is no corner of either. -/
def mesh : Mesh Float where
  positions := #[⟨0, 0, 0⟩, ⟨1, 0, 0⟩, ⟨1, 1, 0⟩, ⟨0, 1, 0⟩, ⟨2, 2, 0⟩]
  normals := Array.replicate 5 ⟨0, 0, 1⟩
  triangles := #[⟨0, 1, 2⟩, ⟨2, 3, 0⟩]
  size_normals := rfl
  inRange := by
    intro t ht
    rw [List.mem_toArray, List.mem_pair] at ht
    rcases ht with rfl | rfl
    · exact (by decide : (⟨0, 1, 2⟩ : Triangle).InRange 5)
    · exact (by decide : (⟨2, 3, 0⟩ : Triangle).InRange 5)

/-- Lighting with a value that is not a number. -/
def light : LightCoeffs Float :=
  ⟨[⟨1 / 3, -0.0, 0.0 / 0.0⟩, ⟨1e10, 2e-9, 1.0 / 0.0⟩]⟩

/-- Tables of two meshes with columns of different lengths. -/
def tables : List (TransportTable Float) :=
  [⟨2, #[0.5, 1, 1.5, 2, 2.5, 3, 3.5, 0.1, 4.5, 5]⟩, ⟨1, #[-1, 0, 0.25, 7, 8]⟩]

/-- An integrator that holds them. -/
def prt : Integrator Float where
  settings := ⟨.unshadowed, 0, 1, 0, 1, "faces", "hdr", false, "out", none⟩
  light := some light
  shadingLight := none
  transport := tables

theorem shaped :
    List.Forall₂ (fun mesh t => 0 < t.shLen ∧ t.Shaped t.shLen mesh.vertexCount)
      [mesh, mesh] prt.transport := by
  have hroom : HasRoom 10 := by decide
  refine .cons ⟨by decide, rfl, rfl, hroom⟩ (.cons ⟨by decide, rfl, rfl, hroom.of_le ?_⟩ .nil)
  decide

end Square

/-- **Coefficient files give back what was written.** On a store that never fails, writing the
coefficients of a scene, each of whose meshes has a triangle, succeeds if the tables have the shape
of the meshes and every number is read back from its text. The files have different names, so their
paths are different. The first one gives the lighting back and the others, in the order of the
meshes, the tables as far as their vertices are corners of triangles. -/
theorem coefficients_read_back {σ : Type} [FileStore σ Float] [FileStore.Lawful σ Float]
    {prt : Integrator Float} {light : LightCoeffs Float} {meshes : List (Mesh Float)}
    (hlight : prt.light = some light) (hmeshes : ∀ mesh ∈ meshes, 0 < mesh.triangleCount)
    (htables : List.Forall₂ (fun mesh t => 0 < t.shLen ∧ t.Shaped t.shLen mesh.vertexCount)
      meshes prt.transport)
    (hcolors : ∀ c ∈ light.coeffs, ReadsBack c.r ∧ ReadsBack c.g ∧ ReadsBack c.b)
    (hvalues : ∀ t ∈ prt.transport, ∀ x ∈ t.data, ReadsBack x) (store : σ) :
    ∃ lightPath tablePaths store',
      (prt.writeOutputs meshes).run.run store = (.ok (lightPath :: tablePaths), store') ∧
      ((lightPath :: tablePaths).map Path.fileName).Nodup ∧
      readLight store' lightPath = .ok light ∧
      Outcome.Forall₃ (fun path mesh t => ∃ file back,
        readTransport store' path = .ok file ∧ file.toTable mesh = .ok back ∧ back.Restores t mesh)
        tablePaths meshes prt.transport := by
  have hnames := nodup_outputPaths prt.settings.outputFolder meshes.length
  have hpaths := hnames.of_map
  rw [List.nodup_cons] at hpaths
  -- The folder, the lighting and the tables are written one after the other.
  have hfolder : FileStore.makeFolders Float store prt.settings.outputFolder = (.ok (), _) :=
    Prod.ext (FileStore.Lawful.makeFolders_ok store _) rfl
  obtain ⟨s₁, hrun₁, hread₁, -⟩ := Storing.writes_writeText (σ := σ) (α := Float)
    (outputPaths prt.settings.outputFolder meshes.length).1 (renderLight light) _
  obtain ⟨s₂, hrun₂, hread₂, hframe₂⟩ := exists_writeTables hpaths.2
    (length_outputPaths _ _) hmeshes htables (fun t ht x hx => (hvalues t ht x hx).legible) s₁
  have hrun := prt.run_writeOutputs hlight htables.length_eq.symm hfolder hrun₁ hrun₂
  refine ⟨_, _, s₂, hrun, hnames, ?_, ?_⟩
  · refine readLight_eq_ok (fun c hc => ?_) ((hframe₂ _ hpaths.1).trans hread₁)
    obtain ⟨hr, hg, hb⟩ := hcolors c hc
    exact ⟨hr.legible, hg.legible, hb.legible⟩
  · refine hread₂.mono fun path mesh t ⟨text, htext, file, back, hparse, hback, hrestores⟩ => ?_
    exact ⟨file, back, (readTransport_eq htext).trans hparse, hback, hrestores⟩

/-- The files of two meshes of the same form, and lighting with values that are not finite. -/
theorem coefficients_read_back_square :
    Square.prt.light = some Square.light ∧
    (∀ mesh ∈ [Square.mesh, Square.mesh], 0 < mesh.triangleCount) ∧
    List.Forall₂ (fun mesh t => 0 < t.shLen ∧ t.Shaped t.shLen mesh.vertexCount)
      [Square.mesh, Square.mesh] Square.prt.transport ∧
    (∀ c ∈ Square.light.coeffs, ReadsBack c.r ∧ ReadsBack c.g ∧ ReadsBack c.b) ∧
    (∀ t ∈ Square.prt.transport, ∀ x ∈ t.data, ReadsBack x) ∧
    ∃ lightPath tablePaths store',
      (Square.prt.writeOutputs [Square.mesh, Square.mesh]).run.run PathMap.empty =
        (.ok (lightPath :: tablePaths), store') ∧
      ((lightPath :: tablePaths).map Path.fileName).Nodup ∧
      readLight store' lightPath = .ok Square.light ∧
      Outcome.Forall₃ (fun path mesh t => ∃ file back,
        readTransport store' path = .ok file ∧ file.toTable mesh = .ok back ∧ back.Restores t mesh)
        tablePaths [Square.mesh, Square.mesh] Square.prt.transport := by
  have hmeshes : ∀ mesh ∈ [Square.mesh, Square.mesh], 0 < mesh.triangleCount := by
    simp [Square.mesh, Mesh.triangleCount]
  have hcolors : ∀ c ∈ Square.light.coeffs, ReadsBack c.r ∧ ReadsBack c.g ∧ ReadsBack c.b := by
    decide +kernel
  have hvalues : ∀ t ∈ Square.prt.transport, ∀ x ∈ t.data, ReadsBack x := by decide +kernel
  exact ⟨rfl, hmeshes, Square.shaped, hcolors, hvalues,
    coefficients_read_back rfl hmeshes Square.shaped hcolors hvalues PathMap.empty⟩

end RadianceTransfer
