import RadianceTransfer.Cubemap.Image

/-!
# Stores of files

What the program asks of a store of files: to read and write a file by its path, to make folders,
and to decode the image of a cubemap face. Any type of states that answers these serves as a store.

Work on a store keeps what was written before it failed.

## Main definitions

* `FileStore`: the operations.
* `Storing`: work on a store that can fail.
-/

namespace RadianceTransfer

/-- States of a store of files. -/
class FileStore (σ : Type) (α : Type) where
  /-- The bytes of a file. -/
  read : σ → String → Except StorageError ByteArray
  /-- Replaces or makes a file. -/
  write : σ → String → ByteArray → Except StorageError σ
  /-- Makes a folder and those it lies in, as far as they are missing. -/
  makeFolders : σ → String → Except StorageError Unit × σ
  /-- The image of a cubemap face. -/
  face : σ → String → FaceFile α

/-- Work on a store that can fail. -/
abbrev Storing (σ : Type) : Type → Type := ExceptT Failure (StateM σ)

namespace Storing

variable {σ β : Type}

/-- Fails with a reported error. -/
def fail (e : Error) : Storing σ β :=
  throw (.reported e)

/-- Work that does not touch the store. -/
def ofOutcome (o : Outcome β) : Storing σ β :=
  match o with
  | .ok x => pure x
  | .error e => throw e

end Storing

/-- The text of a file. -/
def FileStore.readText {σ : Type} (α : Type) [FileStore σ α] (s : σ) (path : String) :
    Except StorageError String := do
  let bytes ← FileStore.read α s path
  match String.fromUTF8? bytes with
  | some text => .ok text
  | none => .error .notText

/-- Replaces or makes a file with a text. -/
def FileStore.writeText {σ : Type} (α : Type) [FileStore σ α] (path text : String) :
    Storing σ Unit := do
  match FileStore.write α (← get) path text.toUTF8 with
  | .ok s => set s
  | .error e => Storing.fail (.createFile path e)

end RadianceTransfer
