import RadianceTransfer.Picture.Decode
import RadianceTransfer.Storage.Path
import RadianceTransfer.Storage.Store

/-!
# Snapshots

A snapshot stands in for a store that is only reached from outside. It holds what reading some paths
has given, and notes what is to be changed instead of changing it. Whoever took the snapshot makes
the changes afterwards, in order.

## Main definitions

* `Snapshot`: what was read, and what is to be changed.
* `Change`: one thing to be changed.
-/

namespace RadianceTransfer

/-- One thing to be changed. -/
inductive Change where
  /-- Make a folder and those it lies in. -/
  | makeFolders (path : String)
  /-- Replace or make a file. -/
  | write (path : String) (contents : ByteArray)

/-- The error of a change that could not be made. -/
def Change.error (e : StorageError) : Change → Error
  | .makeFolders path => .makeFolder path e
  | .write path _ => .createFile path e

/-- What was read, and what is to be changed. -/
structure Snapshot where
  /-- What reading a path has given. -/
  files : List (String × Except StorageError ByteArray)
  /-- What is to be changed, the last change first. -/
  changes : List Change

namespace Snapshot

/-- A snapshot of nothing. -/
def empty : Snapshot :=
  ⟨[], []⟩

/-- Adds what reading a path has given. -/
def add (s : Snapshot) (path : String) (found : Except StorageError ByteArray) : Snapshot :=
  { s with files := (path, found) :: s.files }

/-- What reading a path has given. Paths that were not read are taken as missing. -/
def read (s : Snapshot) (path : String) : Except StorageError ByteArray :=
  match s.files.find? fun (p, _) => p == path with
  | some (_, found) => found
  | none => .error .notFound

/-- The image of a cubemap face. -/
def face (s : Snapshot) (path : String) : FaceFile Float :=
  match s.read path with
  | .ok contents => Picture.faceOfBytes (Path.extension path) contents
  | .error _ => .missing

/-- Notes a change. -/
def note (s : Snapshot) (c : Change) : Snapshot :=
  { s with changes := c :: s.changes }

end Snapshot

instance : FileStore Snapshot Float where
  read := Snapshot.read
  write s path contents := .ok (s.note (.write path contents))
  makeFolders s path := (.ok (), s.note (.makeFolders path))
  face := Snapshot.face

end RadianceTransfer
