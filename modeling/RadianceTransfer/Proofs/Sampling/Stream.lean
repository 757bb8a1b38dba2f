import Mathlib
import RadianceTransfer.Transport.Interreflection

/-!
# Streams of different tasks

A task is a vertex of a mesh in a pass, and the number of its stream is a word with a field for each
of the three. The field of the vertex is as wide as a vertex number. That of the mesh has sixteen
bits, and so has that of the pass, of which the generator drops the highest one. So two tasks share
a generator if their vertices are equal and their meshes and passes agree as far as the fields go.

## Main definitions

* `Pass.index`: passes counted from zero.
* `runPasses`: the passes of a run.

## Main statements

* `toNat_streamId`, `Pcg.toNat_streamIncrement`: the fields of a stream, and what the generator
  keeps of them.
* `streams_shared_iff`: when two tasks share a stream, and that the tasks of a run do not.
-/

namespace RadianceTransfer

/-! ### Passes -/

/-- Passes counted from zero: the direct transport, then a level of interreflection for each
depth. -/
def Pass.index : Pass → Nat
  | .direct => 0
  | .bounce depth => depth.toNat + 1

theorem Pass.toNat_number (p : Pass) : p.number.toNat = p.index := by
  cases p with
  | direct => rfl
  | bounce depth =>
    have hdepth := depth.toNat_lt
    rw [number, UInt64.toNat_add, UInt32.toNat_toUInt64, index]
    show (1 + depth.toNat) % 2 ^ 64 = depth.toNat + 1
    omega

theorem Pass.index_injective : Function.Injective Pass.index := by
  intro p p' h
  cases p with
  | direct =>
    cases p' with
    | direct => rfl
    | bounce depth' => exact absurd h (Nat.succ_ne_zero _).symm
  | bounce depth =>
    cases p' with
    | direct => exact absurd h (Nat.succ_ne_zero _)
    | bounce depth' => rw [UInt32.toNat_inj.1 (Nat.succ.inj h)]

/-- The passes of a run with a number of levels of interreflection, the first of which is one
deep. -/
def runPasses (levels : UInt32) : List Pass :=
  .direct :: (List.range levels.toNat).map fun k => .bounce (k + 1).toUInt32

theorem length_runPasses (levels : UInt32) : (runPasses levels).length = levels.toNat + 1 := by
  rw [runPasses, List.length_cons, List.length_map, List.length_range]

/-- No level has depth zero, so the index of the last pass is the number of passes. -/
theorem index_le_length_runPasses {levels : UInt32} {p : Pass} (h : p ∈ runPasses levels) :
    p.index ≤ (runPasses levels).length := by
  rw [length_runPasses]
  rw [runPasses, List.mem_cons, List.mem_map] at h
  rcases h with rfl | ⟨k, hk, rfl⟩
  · exact Nat.zero_le _
  · rw [List.mem_range] at hk
    have hword : (k + 1).toUInt32.toNat = (k + 1) % 2 ^ 32 := rfl
    rw [Pass.index, hword]
    omega

/-! ### The fields of a stream -/

theorem toNat_streamId (pass : Pass) (mesh vertex : UInt32) :
    (streamId pass mesh vertex).toNat =
      pass.index % 2 ^ 16 * 2 ^ 48 + mesh.toNat % 2 ^ 16 * 2 ^ 32 + vertex.toNat := by
  have hpass : (pass.number <<< 48).toNat = (pass.index % 2 ^ 16) <<< 48 := by
    rw [UInt64.toNat_shiftLeft, Pass.toNat_number, Nat.shiftLeft_eq, Nat.shiftLeft_eq]
    show pass.index * 2 ^ 48 % 2 ^ 64 = _
    omega
  have hmesh : ((mesh.toUInt64 &&& 0xffff) <<< 32).toNat = (mesh.toNat % 2 ^ 16) <<< 32 := by
    rw [UInt64.toNat_shiftLeft, UInt64.toNat_and, UInt32.toNat_toUInt64]
    show (mesh.toNat &&& (2 ^ 16 - 1)) <<< 32 % 2 ^ 64 = _
    rw [Nat.and_two_pow_sub_one_eq_mod, Nat.shiftLeft_eq]
    omega
  -- A field that ends where the other one begins is added by the bitwise or.
  have hlow : (mesh.toNat % 2 ^ 16) <<< 32 < 2 ^ 48 := by
    rw [Nat.shiftLeft_eq]
    omega
  have hupper : (pass.index % 2 ^ 16) <<< 48 ||| (mesh.toNat % 2 ^ 16) <<< 32 =
      (pass.index % 2 ^ 16 * 2 ^ 16 + mesh.toNat % 2 ^ 16) <<< 32 := by
    rw [← Nat.shiftLeft_add_eq_or_of_lt hlow]
    simp only [Nat.shiftLeft_eq]
    omega
  rw [streamId, UInt64.toNat_or, UInt64.toNat_or, hpass, hmesh, UInt32.toNat_toUInt64, hupper,
    ← Nat.shiftLeft_add_eq_or_of_lt vertex.toNat_lt, Nat.shiftLeft_eq]
  omega

namespace Pcg

theorem toNat_streamIncrement (stream : UInt64) :
    (streamIncrement stream).toNat = stream.toNat % 2 ^ 63 * 2 + 1 := by
  have hshift : (stream <<< 1).toNat = (stream.toNat % 2 ^ 63) <<< 1 := by
    rw [UInt64.toNat_shiftLeft, Nat.shiftLeft_eq, Nat.shiftLeft_eq]
    show stream.toNat * 2 % 2 ^ 64 = _
    omega
  rw [streamIncrement, UInt64.toNat_or, hshift, UInt64.toNat_one,
    ← Nat.shiftLeft_add_eq_or_of_lt (by decide), Nat.shiftLeft_eq, pow_one]

/-- The highest bit of a stream does not reach the generator. -/
theorem streamIncrement_eq_iff {stream stream' : UInt64} :
    streamIncrement stream = streamIncrement stream' ↔
      stream.toNat ≡ stream'.toNat [MOD 2 ^ 63] := by
  rw [← UInt64.toNat_inj, toNat_streamIncrement, toNat_streamIncrement, Nat.ModEq]
  omega

end Pcg

section

variable {pass pass' : Pass} {mesh mesh' vertex vertex' : UInt32}

theorem streamId_eq_iff :
    streamId pass mesh vertex = streamId pass' mesh' vertex' ↔
      vertex = vertex' ∧ mesh.toNat ≡ mesh'.toNat [MOD 2 ^ 16] ∧
        pass.index ≡ pass'.index [MOD 2 ^ 16] := by
  have h := vertex.toNat_lt
  have h' := vertex'.toNat_lt
  rw [← UInt64.toNat_inj, toNat_streamId, toNat_streamId, ← UInt32.toNat_inj, Nat.ModEq, Nat.ModEq]
  omega

theorem streamIncrement_streamId_eq_iff :
    Pcg.streamIncrement (streamId pass mesh vertex) =
        Pcg.streamIncrement (streamId pass' mesh' vertex') ↔
      vertex = vertex' ∧ mesh.toNat ≡ mesh'.toNat [MOD 2 ^ 16] ∧
        pass.index ≡ pass'.index [MOD 2 ^ 15] := by
  have h := vertex.toNat_lt
  have h' := vertex'.toNat_lt
  rw [Pcg.streamIncrement_eq_iff, toNat_streamId, toNat_streamId, ← UInt32.toNat_inj, Nat.ModEq,
    Nat.ModEq, Nat.ModEq]
  omega

end

/-- The direct transport of a vertex and the level that is `2 ^ 15` passes later draw the same
numbers, though their streams have different numbers. -/
example : streamId .direct 3 7 ≠ streamId (.bounce 32767) 3 7 ∧
    Pcg.ofSeed 42 (streamId .direct 3 7) = Pcg.ofSeed 42 (streamId (.bounce 32767) 3 7) := by
  decide

/-! ### The tasks of a run -/

/-- As many meshes as their field can tell apart, and fewer passes than the generator can, have a
stream for each task. -/
theorem injOn_increment {α : Type} [Scalar α] (param : TransportParam α) {meshes : Nat}
    {levels : UInt32} (hmeshes : meshes ≤ 2 ^ 16) (hpasses : (runPasses levels).length < 2 ^ 15) :
    {task : Pass × Nat × UInt32 | task.1 ∈ runPasses levels ∧ task.2.1 < meshes}.InjOn
      fun task => (param.sampler task.1 task.2.1.toUInt32 task.2.2).generator.increment := by
  rintro ⟨pass, i, vertex⟩ ⟨hpass, hi⟩ ⟨pass', i', vertex'⟩ ⟨hpass', hi'⟩ h
  obtain ⟨rfl, hmesh, hindex⟩ := streamIncrement_streamId_eq_iff.1 h
  have hle := index_le_length_runPasses hpass
  have hle' := index_le_length_runPasses hpass'
  have hword (n : Nat) : n.toUInt32.toNat = n % 2 ^ 32 := rfl
  rw [Nat.ModEq, hword, hword] at hmesh
  rw [Nat.ModEq] at hindex
  dsimp only at hi hi' hle hle' hmesh hindex
  have hi_eq : i = i' := by omega
  have hpass_eq : pass = pass' := Pass.index_injective (by omega)
  rw [hi_eq, hpass_eq]

/-- **When two tasks share a stream.** Streams have the same number if the vertices are equal and
the meshes and the passes are congruent modulo `2 ^ 16`. Their generators have the same increment if
the passes are congruent modulo `2 ^ 15` only. So the tasks of a run with at most `2 ^ 16` meshes
and fewer than `2 ^ 15` passes have different increments. -/
theorem streams_shared_iff :
    (∀ (pass pass' : Pass) (mesh mesh' vertex vertex' : UInt32),
      (streamId pass mesh vertex = streamId pass' mesh' vertex' ↔
        vertex = vertex' ∧ mesh.toNat ≡ mesh'.toNat [MOD 2 ^ 16] ∧
          pass.index ≡ pass'.index [MOD 2 ^ 16]) ∧
      ∀ seed : UInt64,
        ((Pcg.ofSeed seed (streamId pass mesh vertex)).increment =
            (Pcg.ofSeed seed (streamId pass' mesh' vertex')).increment ↔
          vertex = vertex' ∧ mesh.toNat ≡ mesh'.toNat [MOD 2 ^ 16] ∧
            pass.index ≡ pass'.index [MOD 2 ^ 15])) ∧
    ∀ (α : Type) [Scalar α] (param : TransportParam α) (meshes : Nat) (levels : UInt32),
      meshes ≤ 2 ^ 16 → (runPasses levels).length < 2 ^ 15 →
        {task : Pass × Nat × UInt32 | task.1 ∈ runPasses levels ∧ task.2.1 < meshes}.InjOn
          fun task => (param.sampler task.1 task.2.1.toUInt32 task.2.2).generator.increment :=
  ⟨fun _ _ _ _ _ _ => ⟨streamId_eq_iff, fun _ => streamIncrement_streamId_eq_iff⟩,
    fun _ _ param _ _ => injOn_increment param⟩

/-- The last mesh and the last pass of the largest run, and the first ones. -/
theorem streams_shared_largest_run :
    2 ^ 16 ≤ 2 ^ 16 ∧ (runPasses 32766).length < 2 ^ 15 ∧
      (Pass.bounce 32766, 65535, 7) ∈
        {task : Pass × Nat × UInt32 | task.1 ∈ runPasses 32766 ∧ task.2.1 < 2 ^ 16} ∧
      (Pass.direct, 0, 7) ∈
        {task : Pass × Nat × UInt32 | task.1 ∈ runPasses 32766 ∧ task.2.1 < 2 ^ 16} ∧
      ∀ param : TransportParam Float,
        (param.sampler (.bounce 32766) 65535 7).generator.increment ≠
          (param.sampler .direct 0 7).generator.increment := by
  have hpasses : (runPasses 32766).length < 2 ^ 15 := by
    rw [length_runPasses]
    decide
  have hlast : Pass.bounce 32766 ∈ runPasses 32766 :=
    List.mem_cons_of_mem _ (List.mem_map.2 ⟨32765, List.mem_range.2 (by decide), rfl⟩)
  have htask : (Pass.bounce 32766, 65535, (7 : UInt32)) ∈
      {task : Pass × Nat × UInt32 | task.1 ∈ runPasses 32766 ∧ task.2.1 < 2 ^ 16} :=
    ⟨hlast, by decide⟩
  have htask' : (Pass.direct, 0, (7 : UInt32)) ∈
      {task : Pass × Nat × UInt32 | task.1 ∈ runPasses 32766 ∧ task.2.1 < 2 ^ 16} :=
    ⟨List.mem_cons_self, by decide⟩
  refine ⟨le_rfl, hpasses, htask, htask', fun param h => ?_⟩
  have hequal := streams_shared_iff.2 Float param (2 ^ 16) 32766 le_rfl hpasses htask htask' h
  exact absurd (congrArg Prod.fst hequal) (by decide)

end RadianceTransfer
