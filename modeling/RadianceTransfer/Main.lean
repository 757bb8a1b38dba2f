import RadianceTransfer.Program
import RadianceTransfer.Storage.Snapshot

/-!
# The command line

Reads the files that a scene needs from the disk, lets the program work on a snapshot of them, and
makes its changes. What is read depends on what was read before: the script names the meshes and the
folder of the cubemap.
-/

namespace RadianceTransfer.CommandLine

/-- How many workers stand for all cores. Workers take turns, so one does as well as many. -/
def cores : Nat := 1

/-- The refusal that an error of the system stands for. -/
def storageError : IO.Error → StorageError
  | .alreadyExists .. => .exists
  | .inappropriateType .. => .notFolder
  | .illegalOperation .. => .isFolder
  | .invalidArgument _ code _ => if code = 36 then .nameTooLong else .zeroInName
  | _ => .notFound

/-- Adds the file at a path to a snapshot. -/
def addFile (s : Snapshot) (path : String) : BaseIO Snapshot := do
  match ← (IO.FS.readBinFile path).toBaseIO with
  | .ok contents => pure (s.add path (.ok contents))
  | .error e => pure (s.add path (.error (storageError e)))

/-- The paths of the faces that a scene needs. -/
def facePaths (description : SceneDescription Float) : List String :=
  match Integrator.ofProperties cores description.integrator with
  | .ok prt =>
    CubeFace.all.map (CubeMap.facePath Path.join prt.settings.cubemapFolder prt.settings.extension)
  | .error _ => []

/-- The files that a scene needs. -/
def gather (script : String) : BaseIO Snapshot := do
  let s ← addFile Snapshot.empty script
  match (SceneDescription.load s script : Outcome (SceneDescription Float)) with
  | .ok description => (description.meshPaths ++ facePaths description).foldlM addFile s
  | .error _ => pure s

/-- Makes a change. -/
def perform : Change → IO Unit
  | .makeFolders path => IO.FS.createDirAll path
  | .write path contents => IO.FS.writeBinFile path contents

/-- Makes changes until one of them cannot be made. -/
def performAll : List Change → BaseIO Exit
  | [] => pure .success
  | c :: cs => do
    match ← (perform c).toBaseIO with
    | .ok () => performAll cs
    | .error e => pure (.ofFailure (.reported (c.error (storageError e))))

/-- The work that the arguments of a call ask for, on the files of the disk. Changes come before the
error that the work ends in, so one that cannot be made is what is reported. -/
def run (args : List String) : BaseIO Exit := do
  let s ← match args with
    | [] => pure Snapshot.empty
    | script :: _ => gather script
  let (exit, s) := (runProgram cores args).run s
  let made ← performAll s.changes.reverse
  pure (if made = .success then exit else made)

end RadianceTransfer.CommandLine

/-- Runs the program and prints what it says. -/
def main (args : List String) : IO UInt32 := do
  let exit ← RadianceTransfer.CommandLine.run args
  if !exit.message.isEmpty then IO.eprintln exit.message
  pure exit.code
