import RadianceTransfer.Picture.Decode
import RadianceTransfer.Storage.Path
import RadianceTransfer.Storage.Store

/-!
# A tree of files

A store whose files lie in folders below a working folder. Paths are resolved part by part: every
part but the last has to be a folder, a point stays where it is, and two points go back. A path has
less than 4096 bytes and no zero character, and a name that is looked up has 255 bytes at most.

## Main definitions

* `Directory`: files and folders by the names on their way from the working folder.
* `Directory.walk`: where a path leads.
* `Directory.makeFolder`, `Directory.makeFolders`: new folders.
* `Directory.list`: the names in a folder.
-/

namespace RadianceTransfer

/-- What lies at a place. -/
inductive Entry where
  /-- A folder. -/
  | folder
  /-- A file of bytes. -/
  | bytes (contents : ByteArray)
  /-- An image file. -/
  | picture (image : ImageFile Float32)

/-- The names on the way to a place. -/
abbrev Place : Type := List String

/-- Files and folders below a working folder, which is always there. -/
structure Directory where
  /-- What lies at which place. -/
  entries : List (Place × Entry)

namespace Directory

/-- A working folder with nothing in it. -/
def empty : Directory :=
  ⟨[]⟩

/-- What lies at a place. -/
def lookup (d : Directory) : Place → Option Entry
  | [] => some .folder
  | p => (d.entries.find? fun (q, _) => q == p).map Prod.snd

/-- Puts something at a place. -/
def put (d : Directory) (p : Place) (e : Entry) : Directory :=
  ⟨(p, e) :: d.entries.filter fun (q, _) => q != p⟩

/-- Puts something at a place and makes the folders on the way. -/
def putDeep (d : Directory) (p : Place) (e : Entry) : Directory :=
  let folders := (List.range p.length).map p.take
  (folders.foldl (fun d q => if (d.lookup q).isNone then d.put q .folder else d) d).put p e

/-- A name that is not too long to be looked up. -/
def checkName (name : String) : Except StorageError Unit :=
  if 255 < name.utf8ByteSize then .error .nameTooLong else .ok ()

/-- Follows the parts of a path from a place. A part can only be followed from a folder. -/
def follow (d : Directory) : Place → List String → Except StorageError Place
  | p, [] => .ok p
  | p, part :: parts =>
    match d.lookup p with
    | some .folder =>
      if part.isEmpty || part == "." then d.follow p parts
      else if part == ".." then
        if p.isEmpty then .error .notFound else d.follow p.dropLast parts
      else do
        checkName part
        d.follow (p ++ [part]) parts
    | some _ => .error .notFolder
    | none => .error .notFound

/-- The parts of a path. Only paths that start in the working folder lead anywhere. -/
def parts (path : String) : Except StorageError (List String) :=
  if path.toList.contains '\x00' then .error .zeroInName
  else if 4096 ≤ path.utf8ByteSize then .error .nameTooLong
  else if path.isEmpty || Path.isAbsolute path then .error .notFound
  else .ok (Path.segments path)

/-- Where a path leads. -/
def walk (d : Directory) (path : String) : Except StorageError Place := do
  d.follow [] (← parts path)

/-- Whether a path leads to a folder. -/
def isFolder (d : Directory) (path : String) : Bool :=
  match d.walk path with
  | .ok p => match d.lookup p with
    | some .folder => true
    | _ => false
  | .error _ => false

/-- The bytes of a file. The bytes of an image are not kept; what is read of one is no text. -/
def read (d : Directory) (path : String) : Except StorageError ByteArray := do
  match d.lookup (← d.walk path) with
  | some (.bytes contents) => .ok contents
  | some (.picture _) => .ok ⟨#[0x89]⟩
  | some .folder => .error .isFolder
  | none => .error .notFound

/-- The place of a new entry: the folder that its path leads to and its name there. Slashes that end
the path are left out. No name is left of a path that leads to a folder in any case. -/
def place (d : Directory) (path : String) : Except StorageError (Place × Option String) := do
  let parts := ((← parts path).reverse.dropWhile String.isEmpty).reverse
  let name := parts.getLast?.getD ""
  if name == "." || name == ".." then
    let p ← d.follow [] parts
    match d.lookup p with
    | some _ => .ok (p, none)
    | none => .error .notFound
  else
    let p ← d.follow [] parts.dropLast
    match d.lookup p with
    | some .folder => .ok (p, some name)
    | some _ => .error .notFolder
    | none => .error .notFound

/-- Replaces or makes a file. A slash at the end of the path asks for a folder, whatever is there.
-/
def write (d : Directory) (path : String) (contents : ByteArray) :
    Except StorageError Directory := do
  match ← d.place path with
  | (_, none) => .error .isFolder
  | (p, some name) =>
    if path.toList.getLast? == some '/' then .error .isFolder
    else
      checkName name
      let p := p ++ [name]
      match d.lookup p with
      | some .folder => .error .isFolder
      | _ => .ok (d.put p (.bytes contents))

/-- Makes a folder in one that is there. -/
def makeFolder (d : Directory) (path : String) : Except StorageError Directory := do
  match ← d.place path with
  | (_, none) => .error .exists
  | (p, some name) =>
    checkName name
    let p := p ++ [name]
    if (d.lookup p).isSome then .error .exists else .ok (d.put p .folder)

/-- Makes a folder and those it lies in. A folder that is there already is as good as a new
one. -/
def makeFolders (d : Directory) (path : String) : Except StorageError Unit × Directory :=
  go (path.length + 1) d path
where
  /-- Makes a folder, after those it lies in if that fails for want of one. -/
  go : Nat → Directory → String → Except StorageError Unit × Directory
    | 0, d, _ => (.error .notFound, d)
    | steps + 1, d, path =>
      if path.isEmpty then (.ok (), d)
      else
        match d.makeFolder path with
        | .ok d => (.ok (), d)
        | .error .notFound =>
          match Path.parent? path with
          | none => (.error .notFound, d)
          | some parent =>
            match go steps d parent with
            | (.error e, d) => (.error e, d)
            | (.ok (), d) => attempt d path
        | .error e => if d.isFolder path then (.ok (), d) else (.error e, d)
  /-- Makes a folder unless it is there. -/
  attempt (d : Directory) (path : String) : Except StorageError Unit × Directory :=
    match d.makeFolder path with
    | .ok d => (.ok (), d)
    | .error e => if d.isFolder path then (.ok (), d) else (.error e, d)

/-- The kind of image that an extension stands for is the kind that a file holds. -/
def matchesExtension (extension : String) : ImageFile Float32 → Bool
  | .samples .. => extension == "png"
  | .radiance .. => extension == "hdr"

/-- The image of a cubemap face. Only a file is one, and only if it holds the kind of image that its
extension says. -/
def face (d : Directory) (path : String) : FaceFile Float :=
  match d.walk path with
  | .error _ => .missing
  | .ok p =>
    match d.lookup p with
    | some (.picture image) =>
      if matchesExtension (Path.extension path) image then
        .image (image.decode Float32.toFloat)
      else .undecodable
    | some (.bytes contents) => Picture.faceOfBytes (Path.extension path) contents
    | _ => .missing

/-- The names in a folder in ascending order, none if there is no folder. -/
def list (d : Directory) (path : String) : List String :=
  match d.walk path with
  | .error _ => []
  | .ok p =>
    let names := d.entries.filterMap fun (q, _) =>
      if q.length == p.length + 1 && q.take p.length == p then q.getLast? else none
    names.mergeSort fun a b => !decide (b < a)

end Directory

instance : FileStore Directory Float where
  read := Directory.read
  write := Directory.write
  makeFolders := Directory.makeFolders
  face := Directory.face

end RadianceTransfer
