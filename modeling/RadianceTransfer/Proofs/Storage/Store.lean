import Mathlib
import RadianceTransfer.Storage.Store

/-!
# Stores that never fail

A lawful store maps paths to contents: what is read of a path is what was written to it last, and
nothing fails. Work on such a store is described by what it leaves at one path, with the promise
that reading any other path gives what it gave before. Such work at different paths, one after the
other, leaves all its texts.

## Main statements

* `FileStore.Lawful`: the laws.
* `Storing.writes_writeText`: writing a text leaves it at its path.
* `Storing.exists_forM`: work at different paths.
-/

namespace RadianceTransfer

variable {σ : Type}

/-- A store that maps paths to contents and never fails. -/
class FileStore.Lawful (σ α : Type) [FileStore σ α] : Prop where
  /-- Folders can be made. -/
  makeFolders_ok (s : σ) (path : String) : (FileStore.makeFolders α s path).1 = .ok ()
  /-- Files can be written. -/
  write_ok (s : σ) (path : String) (contents : ByteArray) :
    ∃ s', FileStore.write α s path contents = .ok s'
  /-- A file has the contents that were written. -/
  read_write {s s' : σ} {path : String} {contents : ByteArray} :
    FileStore.write α s path contents = .ok s' → FileStore.read α s' path = .ok contents
  /-- Writing a file changes no other one. -/
  read_write_of_ne {s s' : σ} {path other : String} {contents : ByteArray} :
    FileStore.write α s path contents = .ok s' → other ≠ path →
      FileStore.read α s' other = FileStore.read α s other

theorem fromUTF8?_toUTF8 (text : String) : String.fromUTF8? text.toUTF8 = some text :=
  dif_pos text.isValidUTF8

theorem FileStore.readText_eq_ok {α : Type} [FileStore σ α] {s : σ} {path text : String}
    (h : FileStore.read α s path = .ok text.toUTF8) : FileStore.readText α s path = .ok text := by
  rw [readText, h]
  simp only [bind, Except.bind, fromUTF8?_toUTF8]

namespace Storing

/-- What comes after work that succeeds goes on from the state that it leaves. -/
theorem run_bind {β γ : Type} {work : Storing σ β} {next : β → Storing σ γ} {s s' : σ} {x : β}
    (h : work.run.run s = (.ok x, s')) : (work >>= next).run.run s = (next x).run.run s' := by
  rw [ExceptT.run_bind, StateT.run_bind, h]
  rfl

/-- The work succeeds, leaves a text at a path and changes nothing else. -/
def Writes (α : Type) [FileStore σ α] (path text : String) (work : Storing σ Unit) : Prop :=
  ∀ s, ∃ s', work.run.run s = (.ok (), s') ∧ FileStore.readText α s' path = .ok text ∧
    ∀ other, other ≠ path → FileStore.readText α s' other = FileStore.readText α s other

variable {α : Type} [FileStore σ α]

theorem writes_writeText [FileStore.Lawful σ α] (path text : String) :
    Writes α path text (FileStore.writeText α path text : Storing σ Unit) := by
  intro s
  obtain ⟨s', hs'⟩ := FileStore.Lawful.write_ok (α := α) s path text.toUTF8
  refine ⟨s', ?_, ?_, fun other hne => ?_⟩
  · have hget : (get : Storing σ σ).run.run s = (.ok s, s) := rfl
    rw [FileStore.writeText, run_bind hget, hs']
    rfl
  · exact FileStore.readText_eq_ok (FileStore.Lawful.read_write hs')
  · rw [FileStore.readText, FileStore.readText, FileStore.Lawful.read_write_of_ne hs' hne]

/-- Pieces of work at different paths leave all their texts, and change nothing at other paths. -/
theorem exists_forM {ι : Type} {jobs : List ι} {path : ι → String} {work : ι → Storing σ Unit}
    {P : ι → String → Prop} (hpaths : (jobs.map path).Nodup)
    (h : ∀ j ∈ jobs, ∃ text, Writes α (path j) text (work j) ∧ P j text) (s : σ) :
    ∃ s', (jobs.forM work).run.run s = (.ok (), s') ∧
      (∀ j ∈ jobs, ∃ text, FileStore.readText α s' (path j) = .ok text ∧ P j text) ∧
      ∀ other, other ∉ jobs.map path →
        FileStore.readText α s' other = FileStore.readText α s other := by
  induction jobs generalizing s with
  | nil => exact ⟨s, rfl, by simp, fun _ _ => rfl⟩
  | cons j jobs ih =>
    rw [List.map_cons, List.nodup_cons] at hpaths
    obtain ⟨hnew, hpaths⟩ := hpaths
    obtain ⟨text, hwrites, hP⟩ := h j List.mem_cons_self
    obtain ⟨s₁, hrun₁, hread₁, hframe₁⟩ := hwrites s
    obtain ⟨s₂, hrun₂, hread₂, hframe₂⟩ :=
      ih hpaths (fun i hi => h i (List.mem_cons_of_mem _ hi)) s₁
    refine ⟨s₂, ?_, ?_, ?_⟩
    · exact (run_bind hrun₁).trans hrun₂
    · intro i hi
      rcases List.mem_cons.1 hi with rfl | hi
      · exact ⟨text, (hframe₂ _ hnew).trans hread₁, hP⟩
      · exact hread₂ i hi
    · intro other hother
      rw [List.map_cons, List.mem_cons, not_or] at hother
      rw [hframe₂ other hother.2, hframe₁ other hother.1]

end Storing

/-! ### Files by their paths -/

/-- The contents of each path that there is a file at. -/
structure PathMap where
  /-- The contents of a path. -/
  contents : String → Option ByteArray

/-- No files. -/
def PathMap.empty : PathMap :=
  ⟨fun _ => none⟩

instance : FileStore PathMap Float where
  read s path := match s.contents path with
    | some contents => .ok contents
    | none => .error .notFound
  write s path contents := .ok ⟨Function.update s.contents path (some contents)⟩
  makeFolders s _ := (.ok (), s)
  face _ _ := .missing

instance : FileStore.Lawful PathMap Float where
  makeFolders_ok _ _ := rfl
  write_ok _ _ _ := ⟨_, rfl⟩
  read_write := by
    rintro s _ path contents ⟨⟩
    simp [FileStore.read]
  read_write_of_ne := by
    rintro s _ path other contents ⟨⟩ hne
    simp [FileStore.read, hne]

end RadianceTransfer
