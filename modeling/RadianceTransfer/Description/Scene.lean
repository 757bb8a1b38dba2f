import RadianceTransfer.Description.Properties
import RadianceTransfer.Storage.Store

/-!
# Scene descriptions

A scene script evaluates to a map that lists the files of the meshes and holds a map of settings for
the integrator. Paths in the script of a file are relative to the folder of that file.

## Main definitions

* `SceneDescription`: what a script says.
* `SceneDescription.ofScript`: what the text of a script says.
* `SceneDescription.load`: what the script in a file says.
-/

namespace RadianceTransfer

/-- What a scene script says. -/
structure SceneDescription (α : Type) where
  /-- The files of the meshes. -/
  meshPaths : List String
  /-- The settings of the integrator. -/
  integrator : PropertyList α

namespace SceneDescription

variable {α : Type}

/-- What the entries of a map say. There has to be at least one mesh. -/
def ofProperties (p : PropertyList α) : Outcome (SceneDescription α) := do
  let meshPaths ← p.paths "meshes"
  if meshPaths.isEmpty then report .noMeshes
  else
    match ← p.child? "integrator" with
    | some integrator => pure ⟨meshPaths, integrator⟩
    | none => report .noIntegrator

variable [Scalar α] [NumberText α]

/-- What a script says that has to evaluate to a map, given the folder that its paths are relative
to and the error if it does not. -/
def evaluate (script base : String) (otherwise : Error) : Outcome (SceneDescription α) :=
  match Script.run script with
  | .ok (.map fields) => ofProperties ⟨fields, base⟩
  | .error .stackTooShort => violate .indexOutOfRange
  | _ => report otherwise

/-- What a script says, given the folder that its paths are relative to. -/
def ofScript (script base : String) : Outcome (SceneDescription α) :=
  evaluate script base .script

/-- The script in the text of a file. A first line that starts with `#!` says which program the
script is meant for, and does not belong to it. -/
def scriptOf (content : String) : String :=
  let cs := content.toList
  if ['#', '!'].isPrefixOf cs then String.ofList (cs.dropWhile (· != '\n')) else content

/-- What the script in a file says. -/
def load {σ : Type} [FileStore σ α] (s : σ) (path : String) : Outcome (SceneDescription α) :=
  match FileStore.readText α s path with
  | .ok content =>
    evaluate (scriptOf content) ((Path.parent? path).getD "") (.scriptFile path)
  | .error _ => report (.scriptFile path)

end SceneDescription

end RadianceTransfer
