import RadianceTransfer.Integrator.Compute
import RadianceTransfer.Storage.Coefficients

/-!
# Files of the integrator

The integrator reads the faces of its cubemap from one folder and leaves its coefficients in
another: a lighting file, and a transport file for each mesh. The transport file of the first mesh
has no number in its name, the others have the number of their mesh.

## Main definitions

* `outputPaths`: the paths of the coefficient files.
* `Integrator.writeOutputs`: writes them.
* `Integrator.preprocess`: reads the cubemap, computes and writes.
-/

namespace RadianceTransfer

/-- The name of the transport file of a mesh. -/
def transportName (mesh : Nat) : String :=
  if mesh = 0 then "transport.txt" else s!"transport_{mesh}.txt"

/-- The paths of the lighting file and of the transport files of a number of meshes. -/
def outputPaths (folder : String) (meshes : Nat) : String × List String :=
  (Path.join folder "light.txt",
    (List.range meshes).map fun i => Path.join folder (transportName i))

namespace Integrator

variable {α σ : Type} [Scalar α] [NumberText α] [FileStore σ α]

/-- Writes the transport files of some meshes. -/
def writeTables (paths : List String) (meshes : List (Mesh α)) (tables : List (TransportTable α)) :
    Storing σ Unit :=
  (paths.zip (meshes.zip tables)).forM fun (path, mesh, table) => writeTransport path mesh table

/-- Writes the coefficient files of a scene, and makes their folder if there is none. What is
written already stays if a later file cannot be. Returns the paths. -/
def writeOutputs (prt : Integrator α) (meshes : List (Mesh α)) : Storing σ (List String) := do
  match prt.light with
  | none => Storing.fail .nothingToWrite
  | some light =>
    if prt.transport.length ≠ meshes.length then
      Storing.fail (.tableCount prt.transport.length meshes.length)
    else
      let folder := prt.settings.outputFolder
      let (made, store) := FileStore.makeFolders α (← get) folder
      set store
      match made with
      | .error e => Storing.fail (.makeFolder folder e)
      | .ok () =>
        let (lightPath, tablePaths) := outputPaths folder meshes.length
        writeLight lightPath light
        writeTables tablePaths meshes prt.transport
        pure (lightPath :: tablePaths)

/-- Loads the cubemap of the settings. -/
def loadCubemap (prt : Integrator α) (store : σ) : Outcome (CubeMap α) :=
  CubeMap.load (CubeMap.facePath Path.join prt.settings.cubemapFolder prt.settings.extension)
    (FileStore.face store)

/-- Loads the cubemap, computes the coefficients of a scene and writes them. Coefficients that are
computed stay even if they cannot be written. -/
def preprocess (scene : Scene α) : Storing (Integrator α × σ) Unit := do
  let (prt, store) ← get
  let map ← Storing.ofOutcome (prt.loadCubemap store)
  let prt ← Storing.ofOutcome (prt.compute scene map)
  let (written, store) := (prt.writeOutputs scene.meshes.toList).run.run store
  set (prt, store)
  discard (Storing.ofOutcome written)

end Integrator

end RadianceTransfer
