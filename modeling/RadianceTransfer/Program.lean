import RadianceTransfer.Description.Scene
import RadianceTransfer.Integrator.Output
import RadianceTransfer.Ply.Reader

/-!
# The program

Called with the path of a scene script, the program loads what the scene lists, computes the
coefficients and writes them. It says nothing if it succeeds. An error ends it with its message.

## Main definitions

* `precompute`: the work on a scene.
* `Exit`: how the program ends.
* `runProgram`: the work that the arguments of a call ask for.
-/

namespace RadianceTransfer

variable {σ : Type} [FileStore σ Float]

/-- Loads a scene, computes its coefficients and writes them. -/
def precompute (cores : Nat) (path : String) : Storing σ Unit := do
  let store ← get
  let description ← Storing.ofOutcome (SceneDescription.load store path)
  let meshes ← Storing.ofOutcome (description.meshPaths.mapM (Ply.loadMesh store))
  let scene ← Storing.ofOutcome (Scene.build .stable meshes.toArray)
  let prt ← Storing.ofOutcome (Integrator.ofProperties cores description.integrator)
  let (done, _, store) := (Integrator.preprocess scene).run.run (prt, store)
  set store
  Storing.ofOutcome done

/-- How the program ends. -/
structure Exit where
  /-- The code for its caller, zero after a success. -/
  code : UInt32
  /-- What is said about an error. -/
  message : String
  deriving DecidableEq

namespace Exit

/-- The end of a program that did its work. -/
def success : Exit :=
  ⟨0, ""⟩

/-- The end after a failure. A broken requirement has no message. -/
def ofFailure : Failure → Exit
  | .reported e => ⟨1, e.message⟩
  | .violation _ => ⟨101, ""⟩

end Exit

/-- The work that the arguments of a call ask for. The first one is the path of a scene script, and
others are ignored. -/
def runProgram (cores : Nat) (args : List String) : StateM σ Exit := do
  let done : Except Failure Unit ← match args with
    | [] => pure (report .usage)
    | path :: _ => (precompute cores path).run
  match done with
  | .ok () => pure .success
  | .error f => pure (.ofFailure f)

end RadianceTransfer
