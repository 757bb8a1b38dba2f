import Mathlib
import RadianceTransfer.Proofs.Storage.Outputs

/-!
# What has been written when writing stops

On a store that can refuse any file, writing some files stops at the first one that is refused. What
has been written by then are the files before it, in order. For the coefficient files this means
that the lighting comes first, as it was projected, and the tables follow in the order of their
meshes.

## Main definitions

* `FileStore.Written`: files that were written one after the other.
* `Storing.WritesInTurn`: work that writes at some paths in turn, until it stops.
* `Integrator.WritesLightFirst`: what writing coefficients writes.

## Main statements

* `Storing.WritesInTurn.forM`: pieces of work, one after the other.
* `Integrator.writesLightFirst`: writing coefficients.
-/

namespace RadianceTransfer

variable {σ : Type}

/-- Files that were written one after the other, each given by its path and its text, between two
states of a store. -/
inductive FileStore.Written (α : Type) [FileStore σ α] : List (String × String) → σ → σ → Prop where
  /-- No files. -/
  | nil (s : σ) : Written α [] s s
  /-- One file, and then others. -/
  | cons {path text : String} {files : List (String × String)} {s s' s'' : σ} :
    FileStore.write α s path text.toUTF8 = .ok s' → Written α files s' s'' →
      Written α ((path, text) :: files) s s''

namespace FileStore.Written

variable {α : Type} [FileStore σ α] {files files' : List (String × String)} {s s' s'' : σ}

theorem append (h : Written α files s s') (h' : Written α files' s' s'') :
    Written α (files ++ files') s s'' := by
  induction h with
  | nil => exact h'
  | cons hwrite _ ih => exact .cons hwrite (ih h')

end FileStore.Written

namespace Storing

variable {β γ : Type}

/-- What comes after work that fails is not done. -/
theorem run_bind_error {work : Storing σ β} {next : β → Storing σ γ} {s s' : σ} {e : Failure}
    (h : work.run.run s = (.error e, s')) : (work >>= next).run.run s = (.error e, s') := by
  rw [ExceptT.run_bind, StateT.run_bind, h]
  rfl

theorem run_ofOutcome_ok_bind (x : β) (next : β → Storing σ γ) (s : σ) :
    (ofOutcome (.ok x) >>= next).run.run s = (next x).run.run s :=
  rfl

variable (α : Type) [FileStore σ α]

theorem run_writeText (path text : String) (s : σ) :
    (FileStore.writeText α path text : Storing σ Unit).run.run s =
      match FileStore.write α s path text.toUTF8 with
      | .ok s' => (.ok (), s')
      | .error e => (.error (.reported (.createFile path e)), s) := by
  have hget : (get : Storing σ σ).run.run s = (.ok s, s) := rfl
  rw [FileStore.writeText, run_bind hget]
  cases FileStore.write α s path text.toUTF8 <;> rfl

/-- Work that writes a file at each of some paths in turn. Where it stops, it has written the files
before. -/
def WritesInTurn (paths : List String) (work : Storing σ Unit) : Prop :=
  ∀ s, ∃ files, FileStore.Written α files s (work.run.run s).2 ∧
    files.map Prod.fst <+: paths ∧ ((work.run.run s).1 = .ok () → files.map Prod.fst = paths)

variable {α} {path : String} {work : Storing σ Unit}

theorem writesInTurn_of_run_eq_error {paths : List String}
    (h : ∀ s, ∃ e, work.run.run s = (.error e, s)) : WritesInTurn α paths work := by
  intro s
  obtain ⟨e, hrun⟩ := h s
  rw [hrun]
  exact ⟨[], .nil s, List.nil_prefix, fun h => by cases h⟩

theorem writesInTurn_writeText (path text : String) :
    WritesInTurn α [path] (FileStore.writeText α path text : Storing σ Unit) := by
  intro s
  rw [run_writeText]
  cases hwrite : FileStore.write α s path text.toUTF8 with
  | ok s' => exact ⟨[(path, text)], .cons hwrite (.nil s'), List.prefix_rfl, fun _ => rfl⟩
  | error e => exact ⟨[], .nil s, List.nil_prefix, fun h => by cases h⟩

theorem WritesInTurn.forM {ι : Type} {jobs : List ι} {path : ι → String} {work : ι → Storing σ Unit}
    (h : ∀ j ∈ jobs, WritesInTurn α [path j] (work j)) :
    WritesInTurn α (jobs.map path) (jobs.forM work) := by
  induction jobs with
  | nil => exact fun s => ⟨[], .nil s, List.prefix_rfl, fun _ => rfl⟩
  | cons j jobs ih =>
    intro s
    obtain ⟨files, hwritten, hprefix, hall⟩ := h j List.mem_cons_self s
    have hcons : (j :: jobs).forM work = (work j >>= fun _ => jobs.forM work) := rfl
    rw [hcons, List.map_cons]
    rcases hrun : (work j).run.run s with ⟨e | _, s'⟩
    · rw [hrun] at hwritten
      rw [run_bind_error hrun]
      exact ⟨files, hwritten, hprefix.trans (List.prefix_append [path j] _), fun h => by cases h⟩
    · rw [hrun] at hwritten hall
      rw [run_bind hrun]
      obtain ⟨files', hwritten', hprefix', hall'⟩ :=
        ih (fun i hi => h i (List.mem_cons_of_mem _ hi)) s'
      refine ⟨files ++ files', hwritten.append hwritten', ?_, fun h => ?_⟩
      · rw [List.map_append, hall rfl]
        exact (List.prefix_append_right_inj [path j]).2 hprefix'
      · rw [List.map_append, hall rfl, hall' h]
        rfl

end Storing

/-! ### Coefficient files -/

section Coefficients

variable {α : Type} [NumberText α] [FileStore σ α]

theorem writesInTurn_writeTransport (path : String) (mesh : Mesh α) (t : TransportTable α) :
    Storing.WritesInTurn α [path] (writeTransport path mesh t : Storing σ Unit) := by
  rw [writeTransport]
  split_ifs
  · exact Storing.writesInTurn_of_run_eq_error fun s => ⟨_, rfl⟩
  · cases cornerColumns mesh t with
    | error e => exact Storing.writesInTurn_of_run_eq_error fun s => ⟨e, rfl⟩
    | ok columns => exact Storing.writesInTurn_writeText path _

namespace Integrator

theorem writesInTurn_writeTables {paths : List String} {meshes : List (Mesh α)}
    {tables : List (TransportTable α)} (hmeshes : paths.length = meshes.length)
    (htables : paths.length = tables.length) :
    Storing.WritesInTurn α paths (writeTables paths meshes tables : Storing σ Unit) := by
  have hpaths : (paths.zip (meshes.zip tables)).map Prod.fst = paths := by
    refine List.map_fst_zip ?_
    rw [List.length_zip, ← hmeshes, ← htables, Nat.min_self]
  have hforM : Storing.WritesInTurn α ((paths.zip (meshes.zip tables)).map Prod.fst)
      (writeTables paths meshes tables : Storing σ Unit) :=
    .forM fun job _ => writesInTurn_writeTransport job.1 job.2.1 job.2.2
  rwa [hpaths] at hforM

/-- The files of some meshes come after that of the lighting. -/
theorem exists_written_writeFiles {paths : String × List String} (light : LightCoeffs α)
    {meshes : List (Mesh α)} {tables : List (TransportTable α)}
    (hmeshes : paths.2.length = meshes.length) (htables : paths.2.length = tables.length) (s : σ) :
    ∃ files, FileStore.Written α files s ((writeFiles paths light meshes tables).run.run s).2 ∧
      (files = [] ∨ ∃ rest, files = (paths.1, renderLight light) :: rest ∧
        rest.map Prod.fst <+: paths.2) ∧
      ∀ out, ((writeFiles paths light meshes tables).run.run s).1 = .ok out →
        out = paths.1 :: paths.2 ∧ files.map Prod.fst = out := by
  rw [writeFiles, writeLight]
  have hlight := Storing.run_writeText α paths.1 (renderLight light) s
  cases hwrite : FileStore.write α s paths.1 (renderLight light).toUTF8 with
  | error e =>
    rw [hwrite] at hlight
    rw [Storing.run_bind_error hlight]
    exact ⟨[], .nil s, .inl rfl, fun _ h => by cases h⟩
  | ok s₁ =>
    rw [hwrite] at hlight
    rw [Storing.run_bind hlight]
    obtain ⟨rest, hwritten, hprefix, hall⟩ := writesInTurn_writeTables hmeshes htables s₁
    rcases hrun : (writeTables paths.2 meshes tables : Storing σ Unit).run.run s₁ with ⟨e | _, s₂⟩
    · rw [hrun] at hwritten
      rw [Storing.run_bind_error hrun]
      exact ⟨_, .cons hwrite hwritten, .inr ⟨rest, rfl, hprefix⟩, fun _ h => by cases h⟩
    · rw [hrun] at hwritten hall
      rw [Storing.run_bind hrun]
      refine ⟨_, .cons hwrite hwritten, .inr ⟨rest, rfl, hprefix⟩, ?_⟩
      rintro _ ⟨⟩
      exact ⟨rfl, congrArg (paths.1 :: ·) (hall rfl)⟩

/-- Writing the coefficients of some meshes makes the folder, and then writes the given lighting and
a file for each mesh, in this order. It can stop before any of these. -/
def WritesLightFirst [Scalar α] (σ : Type) [FileStore σ α] (prt : Integrator α)
    (light : LightCoeffs α) : Prop :=
  ∀ (meshes : List (Mesh α)) (store : σ), ∃ files made,
    (made = store ∨ made = (FileStore.makeFolders α store prt.settings.outputFolder).2) ∧
    FileStore.Written α files made ((prt.writeOutputs meshes).run.run store).2 ∧
    (files = [] ∨ ∃ tables, files =
        ((outputPaths prt.settings.outputFolder meshes.length).1, renderLight light) :: tables ∧
      tables.map Prod.fst <+: (outputPaths prt.settings.outputFolder meshes.length).2) ∧
    ∀ paths, ((prt.writeOutputs meshes).run.run store).1 = .ok paths →
      paths = (outputPaths prt.settings.outputFolder meshes.length).1 ::
          (outputPaths prt.settings.outputFolder meshes.length).2 ∧
        files.map Prod.fst = paths

theorem writesLightFirst [Scalar α] {prt : Integrator α} {light : LightCoeffs α}
    (hlight : prt.light = some light) : prt.WritesLightFirst σ light := by
  intro meshes store
  rw [run_writeOutputs_eq hlight]
  split_ifs with hlength
  · rcases FileStore.makeFolders α store prt.settings.outputFolder with ⟨e | _, made⟩
    · exact ⟨[], made, .inr rfl, .nil made, .inl rfl, fun _ h => by cases h⟩
    · have hcount := length_outputPaths prt.settings.outputFolder meshes.length
      obtain ⟨files, hwritten⟩ :=
        exists_written_writeFiles light hcount (hcount.trans hlength.symm) made
      exact ⟨files, made, .inr rfl, hwritten⟩
  · exact ⟨[], store, .inl rfl, .nil store, .inl rfl, fun _ h => by cases h⟩

end Integrator

end Coefficients

end RadianceTransfer
