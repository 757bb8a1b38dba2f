import RadianceTransfer.Proofs.Field
import RadianceTransfer.Proofs.Mesh.Hit
import RadianceTransfer.Proofs.Transport.Levels

/-!
# Interreflection never takes light away

The first coefficient of a column is the light that arrives from a uniform environment. In exact
arithmetic it stays at least zero through all levels: a sample adds to it only from above the
surface, what is added is a blend with the weights of a hit, and the weight of a sample is the
area it stands for. So each further level can only add to it.

## Main statements

* `inherited_dcNonneg`: a level inherits the sign of the first coefficients.
* `interreflection_accumulates`: the sum of the levels, and that it grows.
-/

namespace RadianceTransfer

section

variable {K : Type} [Field K] [LinearOrder K] [FloorSemiring K] [FieldFunctions K]

/-- The first coefficient, if there is one, is not negative. -/
def DcNonneg (col : List K) : Prop :=
  ∀ x, col[0]? = some x → 0 ≤ x

/-- No hit has a negative weight. -/
def RayCaster.WeightsNonneg (caster : RayCaster K) : Prop :=
  ∀ ray hit, caster.closest ray = .ok (some hit) →
    0 ≤ hit.weights.x ∧ 0 ≤ hit.weights.y ∧ 0 ≤ hit.weights.z

variable [IsStrictOrderedRing K] {caster : RayCaster K}

theorem dcNonneg_addWeighted {w : K} (hw : 0 ≤ w) {out ts : List K} (hout : DcNonneg out)
    (hts : DcNonneg ts) : DcNonneg (TransportTable.addWeighted w out ts) := by
  cases out with
  | nil => cases ts <;> exact hout
  | cons o out =>
    cases ts with
    | nil => exact hout
    | cons t ts =>
      rintro _ ⟨⟩
      exact add_nonneg (hout o rfl) (mul_nonneg hw (hts t rfl))

theorem sampleWeight_nonneg (sampler : StratifiedSphere Pcg) : 0 ≤ (sampler.weight : K) := by
  rw [StratifiedSphere.weight]
  split
  · exact FieldFunctions.zero_eq.ge
  · exact div_nonneg FieldFunctions.fourPi_pos.le (Nat.cast_nonneg _)

omit [IsStrictOrderedRing K] in
theorem dcNonneg_replicate (n : Nat) : DcNonneg (List.replicate n (0 : K)) := by
  intro x hx
  rw [List.getElem?_replicate] at hx
  split at hx
  · cases hx
    exact le_rfl
  · cases hx

theorem dcNonneg_weight (sampler : StratifiedSphere Pcg) {col : List K} (hcol : DcNonneg col) :
    DcNonneg (col.map (· * sampler.weight)) := by
  intro x hx
  rw [List.getElem?_map, Option.map_eq_some_iff] at hx
  obtain ⟨y, hy, rfl⟩ := hx
  exact mul_nonneg (hcol y hy) (sampleWeight_nonneg sampler)

/-- A level inherits the sign of the first coefficients. -/
theorem inherited_dcNonneg (hweights : caster.WeightsNonneg) (shLen : Nat) :
    Inherited caster shLen DcNonneg where
  zero := by
    rw [FieldFunctions.zero_eq]
    exact dcNonneg_replicate shLen
  blend := by
    intro ray hit h c0 c1 c2 sum hhit hh h0 h1 h2 hsum
    obtain ⟨hx, hy, hz⟩ := hweights ray hit hhit
    rw [FieldFunctions.zero_eq, not_le] at hh
    rw [FieldFunctions.one_eq, TransportTable.blend]
    have hscale : 0 ≤ h * (1 / Scalar.twoPi) :=
      mul_nonneg hh.le (one_div_nonneg.2 FieldFunctions.twoPi_pos.le)
    exact dcNonneg_addWeighted (mul_nonneg hz hscale)
      (dcNonneg_addWeighted (mul_nonneg hy hscale)
        (dcNonneg_addWeighted (mul_nonneg hx hscale) hsum h0) h1) h2
  weight := dcNonneg_weight _

/-- The direct transport has the sign as well: the first basis function is positive. -/
theorem projected_dcNonneg (order : Nat) : Projected order (DcNonneg (K := K)) where
  zero := by
    rw [FieldFunctions.zero_eq]
    exact dcNonneg_replicate _
  add := by
    intro dir col value hvalue hcol
    rw [FieldFunctions.zero_eq] at hvalue
    have hpos : 0 ≤ value := hvalue.elim (fun h => h.ge) fun h => (not_le.1 h).le
    rw [Harmonics.addProjected]
    split
    · exact hcol
    · intro x hx
      rw [List.getElem?_zipWith, Harmonics.basis_head] at hx
      cases hc : col[0]? with
      | none =>
        rw [hc] at hx
        cases hx
      | some y =>
        rw [hc] at hx
        cases hx
        exact add_nonneg (hcol y hc) (mul_nonneg hpos (FieldFunctions.sqrt_nonneg _))
  weight := dcNonneg_weight _

omit [IsStrictOrderedRing K] in
theorem coefficient?_nonneg {tables : List (TransportTable K)} (h : EachColumn DcNonneg tables)
    {i v : Nat} {x : K} (hx : TransportTable.coefficient? tables i v 0 = some x) : 0 ≤ x := by
  rw [TransportTable.coefficient?, Option.bind_eq_some_iff] at hx
  obtain ⟨t, ht, hx⟩ := hx
  rw [Option.bind_eq_some_iff] at hx
  obtain ⟨col, hcol, hx⟩ := hx
  refine h t (List.mem_of_getElem? ht) v col ?_ x hx
  cases hc : t.column v with
  | error e =>
    rw [hc] at hcol
    cases hcol
  | ok c =>
    rw [hc] at hcol
    cases hcol
    rfl

end

/-- The weights of a hit of a triangle are not negative. -/
theorem RayFrame.weights_nonneg {K : Type} [Field K] [LinearOrder K] [IsStrictOrderedRing K]
    [FloorSemiring K] [FieldFunctions K] {f : RayFrame K} {ray : Ray K} {tFar : K}
    {c0 c1 c2 : Vec3 K} {hit : TriangleHit K} (hhit : f.hit? ray tFar c0 c1 c2 = some hit) :
    0 ≤ hit.weights.x ∧ 0 ≤ hit.weights.y ∧ 0 ≤ hit.weights.z := by
  rw [hit?_eq_judge, judge, FieldFunctions.zero_eq, FieldFunctions.one_eq] at hhit
  split at hhit
  · cases hhit
  · rename_i hmixed
    split at hhit
    · cases hhit
    · split at hhit
      · cases hhit
      · dsimp only at hhit
        split at hhit
        · cases hhit
        · cases hhit
          exact weight_nonneg hmixed

open TransportTable in
/-- **Interreflection is the sum of its levels and never takes light away.** Let the scene answer
every ray, its hits naming vertices that exist, and let the direct transport have one table for each
mesh, with one column of a common positive length for each vertex. Without a bounce the result is
the direct transport. With one more bounce it is the result before plus, entry by entry, the next
level: the bounce pass applied to the level before. All of these exist and have the same shapes.

In exact arithmetic, if no hit has a negative weight and the first coefficient of no direct column
is negative, the first coefficient of no vertex becomes smaller with one more bounce. Hits of
triangles and the direct pass are of this kind. -/
theorem interreflection_accumulates :
    (∀ (α : Type) [Scalar α] (caster : RayCaster α) (meshes : Array (Mesh α))
        (direct : List (TransportTable α)) (param : TransportParam α) (shLen : Nat),
      0 < shLen → caster.NamesVertices meshes → ShapedTables shLen meshes direct →
        addInterreflection caster meshes direct 0 param = .ok direct ∧
        ∀ d : Nat, d + 1 < 2 ^ 32 → ∃ total next,
          ShapedTables shLen meshes total ∧ ShapedTables shLen meshes next ∧
          addInterreflection caster meshes direct d.toUInt32 param = .ok total ∧
          level caster meshes direct param (d + 1) = .ok next ∧
          addInterreflection caster meshes direct (d + 1).toUInt32 param =
            .ok (List.zipWith TransportTable.sum total next)) ∧
    (∀ (K : Type) [Field K] [LinearOrder K] [IsStrictOrderedRing K] [FloorSemiring K]
        [FieldFunctions K],
      (∀ (caster : RayCaster K) (meshes : Array (Mesh K)) (direct : List (TransportTable K))
          (param : TransportParam K) (shLen : Nat),
        0 < shLen → caster.NamesVertices meshes → ShapedTables shLen meshes direct →
        caster.WeightsNonneg → EachColumn DcNonneg direct →
          ∀ d : Nat, d + 1 < 2 ^ 32 → ∃ total total',
            addInterreflection caster meshes direct d.toUInt32 param = .ok total ∧
            addInterreflection caster meshes direct (d + 1).toUInt32 param = .ok total' ∧
            ∀ i mesh v, meshes[i]? = some mesh → v < mesh.vertexCount →
              ∃ x x', coefficient? total i v 0 = some x ∧ coefficient? total' i v 0 = some x' ∧
                x ≤ x') ∧
      (∀ (f : RayFrame K) (ray : Ray K) (tFar : K) (c0 c1 c2 : Vec3 K) (hit : TriangleHit K),
        f.hit? ray tFar c0 c1 c2 = some hit →
          0 ≤ hit.weights.x ∧ 0 ≤ hit.weights.y ∧ 0 ≤ hit.weights.z) ∧
      (∀ (caster : RayCaster K) (meshes : Array (Mesh K)) (param : TransportParam K),
        (∀ ray, ∃ b, caster.blocked ray = .ok b) →
        HasRoom (Harmonics.coefficientCount param.order.toNat) →
        (∀ mesh ∈ meshes,
          HasRoom (Harmonics.coefficientCount param.order.toNat * mesh.vertexCount)) →
          ∃ direct, projectAllDirect caster meshes param = .ok direct ∧
            ShapedTables (Harmonics.coefficientCount param.order.toNat) meshes direct ∧
            EachColumn DcNonneg direct)) := by
  have hword (d : Nat) (hd : d < 2 ^ 32) : d.toUInt32.toNat = d := Nat.mod_eq_of_lt hd
  refine ⟨?_, fun K _ _ _ _ _ => ⟨?_, fun _ _ _ _ _ _ _ hhit => RayFrame.weights_nonneg hhit,
    fun _ _ _ hblocked hcount hroom =>
      returns_projectAllDirect (projected_dcNonneg _) hblocked hcount hroom⟩⟩
  · intro α _ caster meshes direct param shLen hpos hnames hshape
    refine ⟨rfl, fun d hd => ?_⟩
    obtain ⟨total, htotal, htotalShape⟩ : Outcome.Returns (ShapedTables shLen meshes)
      (partialSum caster meshes direct param d) := returns_partialSum hpos hnames hshape d
    obtain ⟨next, hnext, hnextShape⟩ : Outcome.Returns (ShapedTables shLen meshes)
      (level caster meshes direct param (d + 1)) := exists_level hpos hnames hshape (d + 1)
    refine ⟨total, next, htotalShape, hnextShape, ?_, hnext, ?_⟩
    · rw [addInterreflection_eq_partialSum hpos hnames hshape, hword d (by omega), htotal]
    · rw [addInterreflection_eq_partialSum hpos hnames hshape, hword (d + 1) hd,
        partialSum_succ htotal hnext]
  · intro caster meshes direct param shLen hpos hnames hshape hweights hdc d hd
    obtain ⟨total, htotal, htotalShape⟩ : Outcome.Returns (ShapedTables shLen meshes)
      (partialSum caster meshes direct param d) := returns_partialSum hpos hnames hshape d
    obtain ⟨next, hnext, hnextShape, hnextDc⟩ : Outcome.Returns
      (fun l => ShapedTables shLen meshes l ∧ EachColumn DcNonneg l)
      (level caster meshes direct param (d + 1)) :=
        returns_level hpos (inherited_dcNonneg hweights shLen) hnames hshape hdc (d + 1)
    refine ⟨total, List.zipWith TransportTable.sum total next, ?_, ?_, ?_⟩
    · rw [addInterreflection_eq_partialSum hpos hnames hshape, hword d (by omega), htotal]
    · rw [addInterreflection_eq_partialSum hpos hnames hshape, hword (d + 1) hd,
        partialSum_succ htotal hnext]
    · intro i mesh v hmesh hv
      obtain ⟨x, y, hx, hy, hsum⟩ := coefficient?_sum htotalShape hnextShape hmesh hv hpos
      exact ⟨x, x + y, hx, hsum, le_add_of_nonneg_right (coefficient?_nonneg hnextDc hy)⟩

open TransportTable in
/-- Between a floor and a lid the fourth bounce adds to the third. -/
theorem interreflection_accumulates_facing :
    let param : TransportParam ℝ := Facing.param 2 ⟨4, 1⟩
    ∃ direct total next,
      projectAllDirect Facing.caster Facing.meshes param = .ok direct ∧
      addInterreflection Facing.caster Facing.meshes direct 3 param = .ok total ∧
      level Facing.caster Facing.meshes direct param 4 = .ok next ∧
      addInterreflection Facing.caster Facing.meshes direct 4 param =
        .ok (List.zipWith TransportTable.sum total next) ∧
      ∃ x x', coefficient? total 1 2 0 = some x ∧
        coefficient? (List.zipWith TransportTable.sum total next) 1 2 0 = some x' ∧ x ≤ x' := by
  intro param
  have hweights : (Facing.caster : RayCaster ℝ).WeightsNonneg := by
    rintro ray _ ⟨⟩
    exact ⟨by norm_num, by norm_num, by norm_num⟩
  obtain ⟨direct, hdirect, hshape, hdc⟩ := (interreflection_accumulates.2 ℝ).2.2 Facing.caster
    Facing.meshes param (fun _ => ⟨false, rfl⟩) (by decide)
    fun mesh hmesh => by rw [Facing.vertexCount_of_mem hmesh]; decide
  have hpos : 0 < Harmonics.coefficientCount param.order.toNat := by decide
  obtain ⟨total, next, -, -, htotal, hnext, hsum⟩ := (interreflection_accumulates.1 ℝ Facing.caster
    Facing.meshes direct param _ hpos Facing.namesVertices hshape).2 3 (by decide)
  obtain ⟨total₁, total₂, htotal₁, htotal₂, hle⟩ := (interreflection_accumulates.2 ℝ).1
    Facing.caster Facing.meshes direct param _ hpos Facing.namesVertices hshape hweights hdc 3
    (by decide)
  cases htotal.symm.trans htotal₁
  cases hsum.symm.trans htotal₂
  obtain ⟨lid, hlid, hv⟩ := Facing.exists_lid (α := ℝ)
  exact ⟨direct, total, next, hdirect, htotal, hnext, hsum, hle 1 lid 2 hlid hv⟩

end RadianceTransfer
