import RadianceTransfer.Proofs.Transport.Energy

/-!
# More shadow means less light

Two passes over the same mesh with different casters draw the same samples, for a vertex is given
its random numbers by its own number, and whether a ray is blocked decides about no draw. So the
passes can be compared sample by sample. Where the first caster lets light through, so does the
second one, and the light is the same. What a sample adds to the first coefficient is its light
times a square root, and this is never negative.

A pass without shadows is one whose caster is never in the way, so it needs no argument of its own:
it is compared by way of `RayCaster.clear`.

## Main definitions

* `RayCaster.HidesMore`, `RayCaster.NeverBlocks`: what casters have in common.
* `FirstLe`: how the first coefficients of two columns lie.

## Main statements

* `exists_directTable`: a table has the columns of its vertices.
* `projectDirect_of_neverBlocks`: without anything in the way, shadows change nothing.
* `matches_directColumn`: two passes in lockstep.
* `visibility_monotone`: the first coefficients of a vertex, with more, fewer and no shadows.
-/

namespace RadianceTransfer

open Outcome
open Harmonics (coefficientCount coefficientCount_pos)

/-! ### Casters -/

section

variable {α : Type}

/-- Both casters answer every ray, and what hides a ray from the second one hides it from the first
one. -/
def RayCaster.HidesMore (a b : RayCaster α) : Prop :=
  ∀ ray, ∃ hidden hidden', a.blocked ray = .ok hidden ∧ b.blocked ray = .ok hidden' ∧
    (hidden' = true → hidden = true)

/-- A caster that never reports a hit. -/
def RayCaster.NeverBlocks (caster : RayCaster α) : Prop :=
  ∀ ray, caster.blocked ray = .ok false

/-- The caster of an empty scene. -/
def RayCaster.clear : RayCaster α :=
  ⟨fun _ => .ok false, fun _ => .ok none⟩

theorem RayCaster.HidesMore.answers_left {a b : RayCaster α} (h : a.HidesMore b)
    (ray : Ray α) : ∃ hidden, a.blocked ray = .ok hidden :=
  let ⟨hidden, _, ha, _, _⟩ := h ray
  ⟨hidden, ha⟩

theorem RayCaster.HidesMore.answers_right {a b : RayCaster α} (h : a.HidesMore b)
    (ray : Ray α) : ∃ hidden, b.blocked ray = .ok hidden :=
  let ⟨_, hidden, _, hb, _⟩ := h ray
  ⟨hidden, hb⟩

/-- The same pass with or without shadows. -/
def TransportParam.withShadows (param : TransportParam α) (shadowed : Bool) :
    TransportParam α :=
  { param with shadowed }

/-- There can be a table for a mesh. -/
def TransportParam.FitsMesh (param : TransportParam α) (mesh : Mesh α) : Prop :=
  FitsUnsigned 64 (coefficientCount param.order.toNat) ∧
    HasRoom (coefficientCount param.order.toNat * mesh.vertexCount)

/-- A coefficient of a vertex, if there is one. -/
def TransportTable.valueAt? (t : TransportTable α) (vertex k : Nat) : Option α :=
  (t.column vertex).toOption.bind (·[k]?)

theorem TransportTable.valueAt?_eq (t : TransportTable α) {vertex : Nat} {col : List α}
    (h : t.column vertex = .ok col) (k : Nat) : t.valueAt? vertex k = col[k]? := by
  rw [valueAt?, h]
  rfl

variable [Scalar α] {caster : RayCaster α} {mesh : Mesh α} {param : TransportParam α}

/-- The table of a mesh consists of the columns of its vertices. -/
theorem exists_directTable (hblocked : ∀ ray, ∃ b, caster.blocked ray = .ok b) (meshId : UInt32)
    (hfits : param.FitsMesh mesh) :
    ∃ t, projectDirect caster meshId mesh param = .ok t ∧ ∀ v < mesh.vertexCount,
      ∃ c, directColumn caster meshId mesh param v.toUInt32 = .ok c ∧ t.column v = .ok c := by
  obtain ⟨hcount, hroom⟩ := hfits
  have hcolumns (v : Nat) (hv : v < mesh.vertexCount) :
      Returns (fun c => c.length = coefficientCount param.order.toNat ∧ True)
        (directColumn caster meshId mesh param v.toUInt32) :=
    returns_directColumn (projected_true _) hblocked meshId
      (hroom.of_le (Nat.le_mul_of_pos_right _ (Nat.zero_lt_of_lt hv))) (toUInt32_toNat_lt hv)
  obtain ⟨t, ht, -, hcolumn, -⟩ := TransportTable.exists_fill param.threads
    (coefficientCount_pos param.order.toNat) hroom hcolumns
  refine ⟨t, ?_, fun v hv => ?_⟩
  · rw [projectDirect_eq, Harmonics.coefficientCount?_eq_ok_iff.2 ⟨hcount, rfl⟩, bind_ok, ht]
  · obtain ⟨c, hc, -⟩ := hcolumns v hv
    exact ⟨c, hc, (hcolumn v hv).trans hc⟩

/-- Without room for the table no pass returns, whatever the scene. -/
theorem projectDirect_eq_error (hfits : ¬ param.FitsMesh mesh) :
    ∃ e, ∀ (caster : RayCaster α) (meshId : UInt32) (shadowed : Bool),
      projectDirect caster meshId mesh (param.withShadows shadowed) = .error e := by
  by_cases hcount : FitsUnsigned 64 (coefficientCount param.order.toNat)
  · have hroom : ¬ HasRoom (coefficientCount param.order.toNat * mesh.vertexCount) :=
      fun hroom => hfits ⟨hcount, hroom⟩
    refine ⟨.violation .capacity, fun caster meshId shadowed => ?_⟩
    rw [projectDirect_eq, TransportParam.withShadows,
      Harmonics.coefficientCount?_eq_ok_iff.2 ⟨hcount, rfl⟩, bind_ok, TransportTable.fill,
      TransportTable.zero?, requireRoom, if_neg hroom]
    rfl
  · refine ⟨.violation .overflow, fun caster meshId shadowed => ?_⟩
    rw [projectDirect_eq, TransportParam.withShadows, Harmonics.coefficientCount?]
    dsimp only
    rw [if_neg hcount]
    rfl

/-! ### Nothing in the way -/

theorem incoming_shadowed {point normal : Vec3 α} {sample : SphereSample α} {hidden : Bool}
    (h : caster.blocked (Ray.offset point sample.dir param.rayBias) = .ok hidden) :
    incoming caster (param.withShadows true) point normal sample =
      .ok (if normal.dot sample.dir ≤ 0 then 0 else if hidden then 0
        else normal.dot sample.dir) := by
  unfold incoming
  by_cases hh : normal.dot sample.dir ≤ 0
  · rw [if_pos hh, if_pos hh]
    rfl
  · have hshadowed : (param.withShadows true).shadowed = true := rfl
    have hray : caster.blocked
        (Ray.offset point sample.dir (param.withShadows true).rayBias) = .ok hidden := h
    rw [if_neg hh, if_neg hh, if_pos hshadowed, hray, bind_ok]
    cases hidden <;> rfl

theorem incoming_unshadowed (caster : RayCaster α) (point normal : Vec3 α)
    (sample : SphereSample α) :
    incoming caster (param.withShadows false) point normal sample =
      .ok (if normal.dot sample.dir ≤ 0 then 0 else normal.dot sample.dir) := by
  unfold incoming
  by_cases hh : normal.dot sample.dir ≤ 0
  · rw [if_pos hh, if_pos hh]
    rfl
  · have hunshadowed : ¬ (param.withShadows false).shadowed = true := nofun
    rw [if_neg hh, if_neg hh, if_neg hunshadowed]
    rfl

/-- If the scene is never in the way, shadows change nothing. -/
theorem projectDirect_of_neverBlocks (h : caster.NeverBlocks) (other : RayCaster α)
    (meshId : UInt32) :
    projectDirect caster meshId mesh (param.withShadows true) =
      projectDirect other meshId mesh (param.withShadows false) := by
  have hcolumn (v : UInt32) : directColumn caster meshId mesh (param.withShadows true) v =
      directColumn other meshId mesh (param.withShadows false) v := by
    refine bind_congr fun point _ => bind_congr fun normal _ => ?_
    congr 1
    funext sample
    rw [incoming_shadowed (h _), incoming_unshadowed]
    rfl
  rw [projectDirect_eq, projectDirect_eq]
  simp only [hcolumn]
  rfl

end

/-! ### Sample by sample -/

section

variable {K : Type} [Field K] [LinearOrder K] [FloorSemiring K] [FieldFunctions K]
  [IsStrictOrderedRing K] {a b : RayCaster K} {mesh : Mesh K} {param : TransportParam K}

/-- The first coefficient of a column is not negative and not above that of another column. -/
def FirstLe (col col' : List K) : Prop :=
  ∃ x y, col[0]? = some x ∧ col'[0]? = some y ∧ 0 ≤ x ∧ x ≤ y

omit [IsStrictOrderedRing K] in
theorem addProjected_head (order : Nat) (dir : Vec3 K) {col : List K} {x : K}
    (hx : col[0]? = some x) (value : K) :
    (Harmonics.addProjected order dir col value)[0]? = some (x + value * Harmonics.k00) := by
  rw [Harmonics.addProjected, FieldFunctions.zero_eq]
  by_cases hzero : value = 0
  · rw [if_pos (beq_iff_eq.2 hzero), hx, hzero, zero_mul, add_zero]
  · rw [if_neg (by simpa using hzero), List.getElem?_zipWith, hx, Harmonics.basis_head]

theorem FirstLe.addProjected {col col' : List K} (h : FirstLe col col') (order : Nat)
    (dir : Vec3 K) {value value' : K} (h0 : 0 ≤ value) (hle : value ≤ value') :
    FirstLe (Harmonics.addProjected order dir col value)
      (Harmonics.addProjected order dir col' value') := by
  obtain ⟨x, y, hx, hy, hx0, hxy⟩ := h
  have hk : (0 : K) ≤ Harmonics.k00 := FieldFunctions.sqrt_nonneg _
  exact ⟨_, _, addProjected_head order dir hx value, addProjected_head order dir hy value',
    add_nonneg hx0 (mul_nonneg h0 hk), add_le_add hxy (mul_le_mul_of_nonneg_right hle hk)⟩

theorem FirstLe.weight {col col' : List K} (h : FirstLe col col')
    (sampler : StratifiedSphere Pcg) :
    FirstLe (col.map (· * sampler.weight)) (col'.map (· * sampler.weight)) := by
  obtain ⟨x, y, hx, hy, hx0, hxy⟩ := h
  have hw : (0 : K) ≤ sampler.weight := sampleWeight_nonneg sampler
  exact ⟨_, _, by rw [List.getElem?_map, hx]; rfl, by rw [List.getElem?_map, hy]; rfl,
    mul_nonneg hx0 hw, mul_le_mul_of_nonneg_right hxy hw⟩

omit [IsStrictOrderedRing K] in
/-- The light from a direction. -/
theorem matches_incoming (h : a.HidesMore b) (point normal : Vec3 K) (sample : SphereSample K) :
    Matches (fun value value' => 0 ≤ value ∧ value ≤ value')
      (incoming a (param.withShadows true) point normal sample)
      (incoming b (param.withShadows true) point normal sample) := by
  obtain ⟨hidden, hidden', ha, hb, himp⟩ := h (Ray.offset point sample.dir param.rayBias)
  rw [incoming_shadowed ha, incoming_shadowed hb, FieldFunctions.zero_eq]
  refine .ok ?_
  by_cases hh : normal.dot sample.dir ≤ 0
  · rw [if_pos hh, if_pos hh]
    exact ⟨le_rfl, le_rfl⟩
  have hpos : 0 ≤ normal.dot sample.dir := (not_le.1 hh).le
  rw [if_neg hh, if_neg hh]
  by_cases hhidden : hidden = true
  · rw [if_pos hhidden]
    split
    exacts [⟨le_rfl, le_rfl⟩, ⟨le_rfl, hpos⟩]
  · rw [if_neg hhidden, if_neg fun h => hhidden (himp h)]
    exact ⟨hpos, le_rfl⟩

theorem matches_firstLe_projectFunction {f g : SphereSample K → Outcome K}
    (h : ∀ sample, Matches (fun value value' => 0 ≤ value ∧ value ≤ value') (f sample) (g sample))
    (order : Nat) (sampler : StratifiedSphere Pcg) :
    Matches FirstLe (Harmonics.projectFunction order sampler f)
      (Harmonics.projectFunction order sampler g) := by
  unfold Harmonics.projectFunction
  refine Matches.bind_self fun _ _ => ?_
  have hzero : FirstLe (List.replicate (coefficientCount order) (0 : K))
      (List.replicate (coefficientCount order) 0) := by
    have hget : (List.replicate (coefficientCount order) (0 : K))[0]? = some 0 := by
      rw [List.getElem?_replicate, if_pos (coefficientCount_pos order)]
    exact ⟨0, 0, hget, hget, le_rfl, le_rfl⟩
  rw [FieldFunctions.zero_eq]
  refine Matches.bind (R := FirstLe) (.foldlM hzero fun sample _ col col' hcol => ?_)
    fun col col' hcol => .ok (hcol.weight sampler)
  exact (h sample).bind fun value value' hvalue =>
    .ok (hcol.addProjected order sample.dir hvalue.1 hvalue.2)

theorem matches_directColumn (h : a.HidesMore b) (meshId v : UInt32) :
    Matches FirstLe (directColumn a meshId mesh (param.withShadows true) v)
      (directColumn b meshId mesh (param.withShadows true) v) := by
  rw [directColumn, directColumn]
  exact Matches.bind_self fun point _ => Matches.bind_self fun normal _ =>
    matches_firstLe_projectFunction (matches_incoming h point normal) _ _

theorem firstLe_directColumns (h : a.HidesMore b) {meshId v : UInt32} {colA colB : List K}
    (ha : directColumn a meshId mesh (param.withShadows true) v = .ok colA)
    (hb : directColumn b meshId mesh (param.withShadows true) v = .ok colB) :
    FirstLe colA colB := by
  obtain ⟨_, hb', hle⟩ := matches_directColumn h meshId v colA ha
  cases hb.symm.trans hb'
  exact hle

/-- **More shadow means less light.** If all that is hidden by one caster is hidden by another one,
the first coefficient of every vertex is not negative with the one that hides more, not smaller with
the one that hides less, and not smaller again without shadows. If there is no room for the table,
all three passes fail alike. A caster that is never in the way gives the table without shadows, with
all of its coefficients. -/
theorem visibility_monotone (mesh : Mesh K) (meshId : UInt32) (param : TransportParam K) :
    (∀ a b : RayCaster K, a.HidesMore b → ∀ c : RayCaster K,
      (¬ param.FitsMesh mesh → ∃ e,
        projectDirect a meshId mesh (param.withShadows true) = .error e ∧
        projectDirect b meshId mesh (param.withShadows true) = .error e ∧
        projectDirect c meshId mesh (param.withShadows false) = .error e) ∧
      (param.FitsMesh mesh → ∃ ta tb tc,
        projectDirect a meshId mesh (param.withShadows true) = .ok ta ∧
        projectDirect b meshId mesh (param.withShadows true) = .ok tb ∧
        projectDirect c meshId mesh (param.withShadows false) = .ok tc ∧
        ∀ v < mesh.vertexCount, ∃ x y z, ta.valueAt? v 0 = some x ∧ tb.valueAt? v 0 = some y ∧
          tc.valueAt? v 0 = some z ∧ 0 ≤ x ∧ x ≤ y ∧ y ≤ z)) ∧
    ∀ caster other : RayCaster K, caster.NeverBlocks →
      projectDirect caster meshId mesh (param.withShadows true) =
        projectDirect other meshId mesh (param.withShadows false) := by
  refine ⟨fun a b h c => ⟨fun hfits => ?_, fun hfits => ?_⟩,
    fun caster other h => projectDirect_of_neverBlocks h other meshId⟩
  · obtain ⟨e, he⟩ := projectDirect_eq_error hfits
    exact ⟨e, he a meshId true, he b meshId true, he c meshId false⟩
  · have hclear : b.HidesMore .clear := fun ray =>
      let ⟨_, hidden, _, hb, _⟩ := h ray
      ⟨hidden, false, hb, rfl, nofun⟩
    have hfits' : (param.withShadows true).FitsMesh mesh := hfits
    obtain ⟨ta, hta, hca⟩ := exists_directTable h.answers_left meshId hfits'
    obtain ⟨tb, htb, hcb⟩ := exists_directTable hclear.answers_left meshId hfits'
    obtain ⟨tc, htc, hcc⟩ := exists_directTable hclear.answers_right meshId hfits'
    refine ⟨ta, tb, tc, hta, htb, ?_, fun v hv => ?_⟩
    · have hnever : (RayCaster.clear : RayCaster K).NeverBlocks := fun _ => rfl
      rw [← projectDirect_of_neverBlocks hnever c, htc]
    · obtain ⟨colA, hcolA, hA⟩ := hca v hv
      obtain ⟨colB, hcolB, hB⟩ := hcb v hv
      obtain ⟨colC, hcolC, hC⟩ := hcc v hv
      obtain ⟨x, y, hx, hy, h0, hxy⟩ := firstLe_directColumns h hcolA hcolB
      obtain ⟨y', z, hy', hz, -, hyz⟩ := firstLe_directColumns hclear hcolB hcolC
      cases hy.symm.trans hy'
      exact ⟨x, y, z, (ta.valueAt?_eq hA 0).trans hx, (tb.valueAt?_eq hB 0).trans hy,
        (tc.valueAt?_eq hC 0).trans hz, h0, hxy, hyz⟩

end

/-- Over the floor of the facing triangles: everything is hidden, what goes along the first axis is
hidden, nothing is hidden. -/
theorem visibility_monotone_floor :
    let floor : Mesh ℝ := Facing.triangle 0 ⟨0, 0, 1⟩
    let wall : RayCaster ℝ := ⟨fun _ => .ok true, fun _ => .ok none⟩
    let half : RayCaster ℝ := ⟨fun ray => .ok (decide (0 < ray.dir.x)), fun _ => .ok none⟩
    let param : TransportParam ℝ := Facing.param 2 ⟨4, 1⟩
    wall.HidesMore half ∧ param.FitsMesh floor ∧
      ∃ ta tb tc, projectDirect wall 0 floor (param.withShadows true) = .ok ta ∧
        projectDirect half 0 floor (param.withShadows true) = .ok tb ∧
        projectDirect .clear 0 floor (param.withShadows false) = .ok tc ∧
        projectDirect .clear 0 floor (param.withShadows true) = .ok tc ∧
        ∃ x y z, ta.valueAt? 2 0 = some x ∧ tb.valueAt? 2 0 = some y ∧ tc.valueAt? 2 0 = some z ∧
          0 ≤ x ∧ x ≤ y ∧ y ≤ z := by
  intro floor wall half param
  have h : wall.HidesMore half := fun ray => ⟨true, _, rfl, rfl, fun _ => rfl⟩
  have hfits : param.FitsMesh floor := ⟨by decide, by decide⟩
  obtain ⟨hmonotone, hnever⟩ := visibility_monotone floor 0 param
  obtain ⟨ta, tb, tc, hta, htb, htc, hentries⟩ := (hmonotone wall half h .clear).2 hfits
  exact ⟨h, hfits, ta, tb, tc, hta, htb, htc, (hnever .clear .clear fun _ => rfl).trans htc,
    hentries 2 (Nat.lt_succ_self 2)⟩

end RadianceTransfer
