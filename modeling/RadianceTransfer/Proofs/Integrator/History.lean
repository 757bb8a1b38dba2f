import Mathlib
import RadianceTransfer.Proofs.Integrator.Settings
import RadianceTransfer.Proofs.Storage.Written

/-!
# The history of an integrator

An integrator is asked again and again for other coefficients, and any of these calls may fail. A
call first finds out the lighting and the transport that it brings. If it cannot, nothing changes;
if it can, both are taken over together, and what is seen of the lighting follows from it alone. So
after any number of calls an integrator is as if it had only ever taken over the coefficients of the
last call that brought any.

The files may change between the calls as well, so every call of a history comes with the files that
it finds.

## Main definitions

* `Integrator.Call`: the calls that bring coefficients, with `Integrator.Call.perform`.
* `Integrator.Call.coefficients`: what a call brings.
* `Integrator.after`, `Integrator.newest`: a history, and what the last call of it brought.

## Main statements

* `Integrator.run_perform`: one call.
* `Integrator.after_eq`: a history.
* `Integrator.after_newest`: what an integrator holds after a history, and what it writes.
-/

namespace RadianceTransfer

namespace Integrator

variable {α σ : Type}

/-- A call that brings coefficients. -/
inductive Call (α : Type) where
  /-- Takes over given ones. -/
  | setCoeffs (light : LightCoeffs α) (transport : List (TransportTable α))
  /-- Computes those of a scene in an environment. -/
  | compute (scene : Scene α) (map : CubeMap α)
  /-- Loads the environment, computes and writes. -/
  | preprocess (scene : Scene α)

variable [Scalar α]

/-- The lighting and the transport of a scene in an environment. -/
def project (prt : Integrator α) (scene : Scene α) (map : CubeMap α) :
    Outcome (LightCoeffs α × List (TransportTable α)) := do
  let light ← projectEnvironment map prt.settings.order.toNat prt.settings.skipFirstFace
    (prt.threads 1)
  let transport ← prt.projectTransport scene
  pure (light, transport)

theorem compute_eq (prt : Integrator α) (scene : Scene α) (map : CubeMap α) :
    prt.compute scene map =
      (prt.project scene map).map fun (light, transport) => prt.setCoeffs light transport := by
  rw [compute, project]
  cases projectEnvironment map prt.settings.order.toNat prt.settings.skipFirstFace
    (prt.threads 1) with
  | error e => rfl
  | ok light => cases prt.projectTransport scene <;> rfl

/-! ### What calls bring -/

section Coefficients

variable [FileStore σ α]

/-- The lighting and the transport that a call brings to an integrator, with the files of a
store. -/
def Call.coefficients (prt : Integrator α) (store : σ) :
    Call α → Outcome (LightCoeffs α × List (TransportTable α))
  | .setCoeffs light transport => .ok (light, transport)
  | .compute scene map => prt.project scene map
  | .preprocess scene => do
    let map ← prt.loadCubemap store
    prt.project scene map

/-- The coefficients that the last call brought that brought any. -/
def newest (prt : Integrator α) (history : List (Call α × σ)) :
    Option (LightCoeffs α × List (TransportTable α)) :=
  (history.filterMap fun (call, store) => (call.coefficients prt store).toOption).getLast?

theorem newest_concat (prt : Integrator α) (history : List (Call α × σ)) (call : Call α)
    (store : σ) :
    prt.newest (history ++ [(call, store)]) =
      match call.coefficients prt store with
      | .ok found => some found
      | .error _ => prt.newest history := by
  rw [newest, List.filterMap_append]
  cases hfound : call.coefficients prt store <;> simp [newest, hfound, Except.toOption]

/-- The integrator with some coefficients taken over, if there are any. -/
def holding (prt : Integrator α) :
    Option (LightCoeffs α × List (TransportTable α)) → Integrator α
  | none => prt
  | some (light, transport) => prt.setCoeffs light transport

variable (prt : Integrator α) (found : Option (LightCoeffs α × List (TransportTable α)))

/-- What a call brings depends on the settings only. -/
theorem coefficients_holding (call : Call α) (store : σ) :
    call.coefficients (prt.holding found) store = call.coefficients prt store := by
  cases found <;> cases call <;> rfl

omit [FileStore σ α] in
theorem setCoeffs_holding (light : LightCoeffs α) (transport : List (TransportTable α)) :
    (prt.holding found).setCoeffs light transport = prt.setCoeffs light transport := by
  cases found <;> rfl

end Coefficients

/-! ### Performing calls -/

section Performing

variable [NumberText α] [FileStore σ α]

namespace Call

/-- Performs a call on an integrator and a store. -/
def perform : Call α → Storing (Integrator α × σ) Unit
  | .setCoeffs light transport => modify fun (prt, store) => (prt.setCoeffs light transport, store)
  | .compute scene map => do
    let (prt, store) ← get
    let prt ← Storing.ofOutcome (prt.compute scene map)
    set (prt, store)
  | .preprocess scene => Integrator.preprocess scene

/-- What a call does with an integrator that has taken over its coefficients. -/
def finish (prt : Integrator α) (store : σ) : Call α → Outcome Unit × Integrator α × σ
  | .preprocess scene =>
    let (written, store) := (prt.writeOutputs scene.meshes.toList).run.run store
    (discard written, prt, store)
  | _ => (.ok (), prt, store)

omit [Scalar α] in
theorem finish_integrator (call : Call α) (prt : Integrator α) (store : σ) :
    (call.finish prt store).2.1 = prt := by
  cases call <;> rfl

/-- A call that finds no coefficients changes nothing. Any other one takes them over first. -/
theorem run_perform (call : Call α) (prt : Integrator α) (store : σ) :
    (call.perform.run.run (prt, store) : Outcome Unit × Integrator α × σ) =
      match call.coefficients prt store with
      | .error e => (.error e, prt, store)
      | .ok (light, transport) => call.finish (prt.setCoeffs light transport) store := by
  have hget : (get : Storing (Integrator α × σ) (Integrator α × σ)).run.run (prt, store) =
      (.ok (prt, store), prt, store) := rfl
  cases call with
  | setCoeffs light transport => rfl
  | compute scene map =>
    rw [perform, coefficients, Storing.run_bind hget]
    dsimp only
    rw [compute_eq]
    cases prt.project scene map <;> rfl
  | preprocess scene =>
    rw [perform, Integrator.preprocess, coefficients, Storing.run_bind hget]
    dsimp only
    cases prt.loadCubemap store with
    | error e => rfl
    | ok map =>
      rw [Storing.run_ofOutcome_ok_bind, compute_eq, Outcome.bind_ok]
      cases prt.project scene map with
      | error e => rfl
      | ok found =>
        refine (Storing.run_ofOutcome_ok_bind (prt.setCoeffs found.1 found.2) _ _).trans ?_
        show _ = finish (prt.setCoeffs found.1 found.2) store (preprocess scene)
        rw [finish]
        rcases ((prt.setCoeffs found.1 found.2).writeOutputs scene.meshes.toList).run.run store with
          ⟨e | paths, s⟩ <;> rfl

end Call

/-- The integrator after some calls, each of which finds the files of a store. -/
def after (prt : Integrator α) (history : List (Call α × σ)) : Integrator α :=
  history.foldl (fun prt (call, store) => (call.perform.run.run (prt, store)).2.1) prt

theorem after_concat (prt : Integrator α) (history : List (Call α × σ)) (call : Call α)
    (store : σ) :
    prt.after (history ++ [(call, store)]) =
      (call.perform.run.run (prt.after history, store)).2.1 := by
  rw [after, List.foldl_concat]
  rfl

/-- Only the last coefficients count: an integrator is as if it had taken them over at once. -/
theorem after_eq (prt : Integrator α) (history : List (Call α × σ)) :
    prt.after history = prt.holding (prt.newest history) := by
  induction history using List.reverseRecOn with
  | nil => rfl
  | append_singleton history last ih =>
    obtain ⟨call, store⟩ := last
    rw [after_concat, call.run_perform, ih, coefficients_holding, newest_concat]
    cases call.coefficients prt store with
    | error e => rfl
    | ok found => exact (call.finish_integrator _ store).trans (setCoeffs_holding prt _ _ _)

end Performing

/-! ### The rotation of the lighting -/

/-- The lighting that surfaces are seen in is the other one, turned once by the rotation that some
properties ask for. If they ask for none it is the same. -/
def SeenAs (p : PropertyList α) (order : UInt32) (light seen : LightCoeffs α) : Prop :=
  (p.rotation? "light_rotation" = .ok none ∧ seen = light) ∨
    ∃ m r, p.rotation? "light_rotation" = .ok (some m) ∧
      Harmonics.BandRotation.build order.toNat m = .ok r ∧ seen = light.rotate r

section Properties

variable {cores : Nat} {p : PropertyList α} {prt : Integrator α}

theorem seenAs_rotated (h : ofProperties cores p = .ok prt) (light : LightCoeffs α) :
    SeenAs p prt.settings.order light (prt.rotated light) := by
  obtain ⟨-, -, -, -, hread⟩ := Settings.reads_of_ofProperties (ofProperties_eq_ok_iff.1 h).1
  rw [Settings.readRotation] at hread
  obtain ⟨_ | m, hm, hread⟩ := Outcome.bind_eq_ok_iff.1 hread
  · rw [rotated, ← Except.ok.inj hread]
    exact .inl ⟨hm, rfl⟩
  · dsimp only at hread
    cases hbuild : Harmonics.BandRotation.build prt.settings.order.toNat m with
    | error e =>
      rw [hbuild] at hread
      cases hread
    | ok r =>
      rw [hbuild] at hread
      rw [rotated, ← Except.ok.inj hread]
      exact .inr ⟨m, r, hm, hbuild, rfl⟩

end Properties

/-! ### Whole histories -/

section Whole

variable [NumberText α] [FileStore σ α]

omit [Scalar α] in
theorem run_writeOutputs_none {prt : Integrator α} (h : prt.light = none) (meshes : List (Mesh α))
    (store : σ) :
    (prt.writeOutputs meshes).run.run store = (.error (.reported .nothingToWrite), store) := by
  rw [writeOutputs, h]
  rfl

/-- Computing does not touch the store, and changes the integrator only if it succeeds. -/
theorem run_perform_compute (prt : Integrator α) (scene : Scene α) (map : CubeMap α) (store : σ) :
    ((Call.compute scene map).perform.run.run (prt, store)).2.2 = store ∧
      ∀ e, ((Call.compute scene map).perform.run.run (prt, store)).1 = .error e →
        ((Call.compute scene map).perform.run.run (prt, store)).2.1 = prt := by
  rw [Call.run_perform]
  cases (Call.compute scene map).coefficients prt store with
  | error e => exact ⟨rfl, fun _ _ => rfl⟩
  | ok found => exact ⟨rfl, fun _ h => by cases h⟩

omit [NumberText α] in
theorem load_compute_eq (prt : Integrator α) (scene : Scene α) (store : σ) :
    (prt.loadCubemap store >>= prt.compute scene) =
      ((Call.preprocess scene).coefficients prt store).map
        fun (light, transport) => prt.setCoeffs light transport := by
  rw [Call.coefficients]
  cases prt.loadCubemap store with
  | error e => rfl
  | ok map => rw [Outcome.bind_ok, Outcome.bind_ok, compute_eq]

/-- A failure before the files are written changes nothing. -/
theorem run_perform_preprocess {prt : Integrator α} {scene : Scene α} {store : σ} {e : Failure}
    (h : (prt.loadCubemap store >>= prt.compute scene) = .error e) :
    (Call.preprocess scene).perform.run.run (prt, store) = (.error e, prt, store) := by
  rw [load_compute_eq] at h
  rw [Call.run_perform]
  cases hfound : (Call.preprocess scene).coefficients prt store with
  | error e' =>
    rw [hfound] at h
    cases h
    rfl
  | ok found =>
    rw [hfound] at h
    cases h

/-- **An integrator holds the coefficients of one call.** After any calls, it holds either nothing,
and then there is nothing to write, or the lighting and the transport of the last call that brought
any. Then surfaces are seen in that lighting turned once, and it is written as it was projected. A
call that fails to compute leaves the integrator and the store as they were. -/
theorem after_newest {cores : Nat} {p : PropertyList α} {prt₀ : Integrator α}
    (h : ofProperties cores p = .ok prt₀) (history : List (Call α × σ)) :
    let prt := prt₀.after history
    prt.settings = prt₀.settings ∧
    (match prt₀.newest history with
      | none =>
        prt.light = none ∧ prt.shadingLight = none ∧ prt.transport = [] ∧
          ∀ (meshes : List (Mesh α)) (store : σ),
            (prt.writeOutputs meshes).run.run store = (.error (.reported .nothingToWrite), store)
      | some (light, transport) =>
        prt.light = some light ∧
          (∃ seen, prt.shadingLight = some seen ∧ SeenAs p prt.settings.order light seen) ∧
          prt.transport = transport ∧ prt.WritesLightFirst σ light) ∧
    (∀ (scene : Scene α) (map : CubeMap α) (store : σ),
      ((Call.compute scene map).perform.run.run (prt, store)).2.2 = store ∧
        ∀ e, ((Call.compute scene map).perform.run.run (prt, store)).1 = .error e →
          ((Call.compute scene map).perform.run.run (prt, store)).2.1 = prt) ∧
    ∀ (scene : Scene α) (store : σ) (e : Failure),
      (prt.loadCubemap store >>= prt.compute scene) = .error e →
        (Call.preprocess scene).perform.run.run (prt, store) = (.error e, prt, store) := by
  intro prt
  have hprt : prt = prt₀.holding (prt₀.newest history) := after_eq prt₀ history
  refine ⟨?_, ?_, run_perform_compute prt, fun scene store e => run_perform_preprocess⟩
  · rw [hprt]
    cases prt₀.newest history <;> rfl
  · rw [hprt]
    rcases prt₀.newest history with _ | ⟨light, transport⟩
    · obtain ⟨-, hempty⟩ := ofProperties_eq_ok_iff.1 h
      have hlight : prt₀.light = none := by rw [hempty]; rfl
      refine ⟨hlight, ?_, ?_, run_writeOutputs_none hlight⟩
      · show prt₀.shadingLight = none
        rw [hempty]
        rfl
      · show prt₀.transport = []
        rw [hempty]
        rfl
    · exact ⟨rfl, ⟨_, rfl, seenAs_rotated h light⟩, rfl, writesLightFirst rfl⟩

end Whole

/-! ### A turned light -/

namespace Turned

/-- Properties that ask for a rotation. -/
def properties : PropertyList Float :=
  ⟨[("cubemap", .text "faces"), ("order", .int 0), ("light_rotation", .rotation .identity)], ""⟩

/-- Lighting of a single coefficient. -/
def light : LightCoeffs Float :=
  ⟨[⟨1, 2, 3⟩]⟩

/-- Coefficients are replaced, and then an environment is asked for that is not there. -/
def history : List (Call Float × PathMap) :=
  [(.setCoeffs Square.light Square.tables, .empty), (.setCoeffs light [], .empty),
    (.preprocess ⟨#[], ⟨#[], #[]⟩, 0⟩, .empty)]

end Turned

/-- Of the two lightings the second one stays, and it is seen turned once. -/
theorem after_newest_turned : ∃ prt₀, ofProperties 1 Turned.properties = .ok prt₀ ∧
    (prt₀.after Turned.history).light = some Turned.light ∧
    (∃ seen, (prt₀.after Turned.history).shadingLight = some seen ∧
      SeenAs Turned.properties (prt₀.after Turned.history).settings.order Turned.light seen) ∧
    (prt₀.after Turned.history).transport = [] ∧
    (prt₀.after Turned.history).WritesLightFirst PathMap Turned.light := by
  refine ⟨_, rfl, ?_⟩
  obtain ⟨-, hnewest, -⟩ := after_newest (p := Turned.properties) rfl Turned.history
  exact hnewest

end Integrator

end RadianceTransfer
