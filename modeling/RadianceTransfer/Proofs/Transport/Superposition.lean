import Mathlib
import RadianceTransfer.Proofs.Field
import RadianceTransfer.Proofs.Transport.Fields
import RadianceTransfer.Proofs.Transport.Levels

/-!
# Superposition

What a ray meets does not depend on how much light there is. So a level of interreflection takes the
field of each coefficient to the next one by itself, in the same way for all of them: it adds up
what a list of reflections brings to a vertex, and the list is the same for all tables. A run of
interreflection is therefore one run for each coefficient, operation by operation. In exact
arithmetic what a reflection adds is linear in the field, and so is everything that is made of it.

## Main definitions

* `Reflection.add`: what a reflection adds to a sum.
* `nextField`, `addNextFields`: a level of a field, and all levels.

## Main statements

* `gather_map`, `foldlM_gather_map`: the samples of a vertex, one coefficient at a time.
* `returns_nextFields`, `returns_addNextFields`: a level and a run.
* `nextField_combine`, `addNextFields_combine`: both are linear.
* `interreflection_superposes`: superposition, and that coefficients are independent.
-/

namespace RadianceTransfer

open TransportTable

section

variable {α : Type} [Scalar α] {caster : RayCaster α} {meshes : Array (Mesh α)} {shLen : Nat}

/-! ### A sample -/

/-- Adds what is reflected of a field, which has a value at each vertex of each mesh. -/
def Reflection.add (F : Nat → Nat → α) (sum : α) (r : Reflection α) : α :=
  sum + r.hit.weights.x * r.scale * F r.hit.mesh r.hit.corners.i0.toNat +
    r.hit.weights.y * r.scale * F r.hit.mesh r.hit.corners.i1.toNat +
    r.hit.weights.z * r.scale * F r.hit.mesh r.hit.corners.i2.toNat

theorem addWeighted_map {ι : Type} (w : α) (l : List ι) (f g : ι → α) :
    addWeighted w (l.map f) (l.map g) = l.map fun k => f k + w * g k := by
  induction l with
  | nil => rfl
  | cons k l ih => rw [List.map_cons, List.map_cons, addWeighted, ih, List.map_cons]

/-- A blend adds a reflection of each field. -/
theorem blend_map {ι : Type} (l : List ι) (F : ι → Nat → Nat → α) (r : Reflection α) (s : ι → α) :
    blend (l.map fun k => F k r.hit.mesh r.hit.corners.i0.toNat)
        (l.map fun k => F k r.hit.mesh r.hit.corners.i1.toNat)
        (l.map fun k => F k r.hit.mesh r.hit.corners.i2.toNat) r.hit.weights r.scale (l.map s) =
      l.map fun k => r.add (F k) (s k) := by
  rw [blend, addWeighted_map, addWeighted_map, addWeighted_map]
  rfl

variable {prev : List (TransportTable α)} {F : Nat → Nat → Nat → α}

/-- A sample works on each coefficient by itself. -/
theorem gather_map (hnames : caster.NamesVertices meshes) (h : HoldFields shLen meshes prev F)
    (param : TransportParam α) (point normal : Vec3 α) (sample : SphereSample α) (s : Nat → α) :
    gather caster meshes prev.toArray param point normal sample ((List.range shLen).map s) =
      .ok ((List.range shLen).map fun k =>
        (reflection? caster meshes param point normal sample).elim (s k)
          (Reflection.add (F k) (s k))) := by
  rcases gather_cases hnames param point normal sample with
    ⟨hnone, hgather⟩ | ⟨r, mesh, hsome, -, -, hmesh, hin, hgather⟩
  · rw [hgather, hnone]
    rfl
  · obtain ⟨t, hget, ht, -⟩ := h.shaped.exists_get hmesh
    rw [hgather, hsome, hget, Outcome.bind_ok,
      addBlend_eq (h.column_eq hmesh ht hin.1) (h.column_eq hmesh ht hin.2.1)
        (h.column_eq hmesh ht hin.2.2), blend_map]
    rfl

/-- A loop over samples is a loop for each coefficient, over what the samples reflect. -/
theorem foldlM_gather_map (hnames : caster.NamesVertices meshes)
    (h : HoldFields shLen meshes prev F) (param : TransportParam α) (point normal : Vec3 α)
    (samples : List (SphereSample α)) (s : Nat → α) :
    samples.foldlM (fun sum sample =>
        gather caster meshes prev.toArray param point normal sample sum)
        ((List.range shLen).map s) =
      .ok ((List.range shLen).map fun k =>
        (samples.filterMap (reflection? caster meshes param point normal)).foldl
          (Reflection.add (F k)) (s k)) := by
  induction samples generalizing s with
  | nil => rfl
  | cons sample samples ih =>
    rw [List.foldlM_cons, gather_map hnames h, Outcome.bind_ok, ih, List.filterMap_cons]
    cases reflection? caster meshes param point normal sample <;> rfl

/-! ### A level of a field -/

/-- What is reflected to a vertex at a depth. -/
def reflections (caster : RayCaster α) (meshes : Array (Mesh α)) (param : TransportParam α)
    (depth : UInt32) (i v : Nat) : List (Reflection α) :=
  (do
    let mesh ← meshes[i]?
    let point ← (mesh.position v.toUInt32.toNat).toOption
    let normal ← (mesh.normal v.toUInt32.toNat).toOption
    let samples := (param.sampler (.bounce depth) i.toUInt32 v.toUInt32).pass.1
    pure (samples.filterMap (reflection? caster meshes param point normal))).getD []

/-- The next level of a field. -/
def nextField (caster : RayCaster α) (meshes : Array (Mesh α)) (param : TransportParam α)
    (depth : UInt32) (F : Nat → Nat → α) (i v : Nat) : α :=
  (reflections caster meshes param depth i v).foldl (Reflection.add F) 0 *
    (param.sampler (.bounce depth) i.toUInt32 v.toUInt32).weight

theorem bounceColumn_eq_map (hnames : caster.NamesVertices meshes)
    (h : HoldFields shLen meshes prev F) (param : TransportParam α) (depth : UInt32) {i v : Nat}
    {mesh : Mesh α} (hmesh : meshes[i]? = some mesh) (hv : v < mesh.vertexCount) :
    bounceColumn caster meshes prev.toArray depth param shLen i.toUInt32 mesh v.toUInt32 =
      .ok ((List.range shLen).map fun k => nextField caster meshes param depth (F k) i v) := by
  obtain ⟨point, hpoint⟩ := Mesh.exists_position (toUInt32_toNat_lt hv)
  obtain ⟨normal, hnormal⟩ := Mesh.exists_normal (toUInt32_toNat_lt hv)
  have hzero : List.replicate shLen (0 : α) = (List.range shLen).map fun _ => 0 := by
    rw [List.map_const', List.length_range]
  rw [bounceColumn, hpoint, Outcome.bind_ok, hnormal, Outcome.bind_ok, Harmonics.projectVector,
    hzero]
  simp only [foldlM_gather_map hnames h, Outcome.bind_ok, List.map_map]
  simp only [nextField, reflections, hmesh, hpoint, hnormal, Except.toOption, Option.bind_eq_bind,
    Option.bind_some]
  rfl

/-- A level of one mesh. -/
theorem returns_nextTable (hnames : caster.NamesVertices meshes)
    (h : HoldFields shLen meshes prev F) (param : TransportParam α) (depth : UInt32) {i : Nat}
    {mesh : Mesh α} (hmesh : meshes[i]? = some mesh) :
    Outcome.Returns (fun t => t.Shaped shLen mesh.vertexCount ∧ ∀ v < mesh.vertexCount,
        t.column v =
          .ok ((List.range shLen).map fun k => nextField caster meshes param depth (F k) i v))
      (bounceTable caster meshes prev.toArray depth param mesh i) := by
  obtain ⟨hroom, heq⟩ := h.shaped.bounceTable_eq_fill caster depth param hmesh
  have hcolumn (v : Nat) (hv : v < mesh.vertexCount) :=
    bounceColumn_eq_map hnames h param depth hmesh hv
  obtain ⟨next, hfill, hshape, hcols⟩ := exists_fill_of_length param.threads hroom fun v hv =>
    ⟨_, hcolumn v hv, by simp⟩
  rw [heq]
  exact ⟨next, hfill, hshape, fun v hv => (hcols v hv).trans (hcolumn v hv)⟩

/-- A level of interreflection takes each field to its next level. -/
theorem returns_nextFields (hnames : caster.NamesVertices meshes)
    (h : HoldFields shLen meshes prev F) (param : TransportParam α) (depth : UInt32) :
    Outcome.Returns (fun level => HoldFields shLen meshes level fun k =>
        nextField caster meshes param depth (F k))
      (projectBounce caster meshes prev depth param) := by
  have hlevel := Outcome.Returns.mapM_positions (l := meshes.toList)
    (R := fun i mesh (t : TransportTable α) => t.Shaped shLen mesh.vertexCount ∧
      ∀ v < mesh.vertexCount, t.column v =
        .ok ((List.range shLen).map fun k => nextField caster meshes param depth (F k) i v))
    (f := fun p => bounceTable caster meshes prev.toArray depth param p.1 p.2)
    fun i mesh hmesh => returns_nextTable hnames h param depth
      (by rwa [Array.getElem?_toList] at hmesh)
  refine hlevel.mono fun level hall => ?_
  simp only [Array.getElem?_toList, Array.length_toList] at hall
  obtain ⟨hlen, hget⟩ := hall
  exact ⟨shapedTables_iff.2 ⟨hlen, fun i mesh t hmesh ht => (hget i mesh t hmesh ht).1⟩,
    fun {i v mesh t} hmesh ht hv => (hget i mesh t hmesh ht).2 v hv⟩

/-! ### All levels of a field -/

/-- Adds a number of levels to a sum of fields, given the last level in it and its depth. -/
def addNextFields (caster : RayCaster α) (meshes : Array (Mesh α)) (param : TransportParam α) :
    (levels : Nat) → (depth : UInt32) → (total prev : Nat → Nat → α) → Nat → Nat → α
  | 0, _, total, _ => total
  | levels + 1, depth, total, prev =>
    let next := nextField caster meshes param (depth + 1) prev
    addNextFields caster meshes param levels (depth + 1) (fun i v => total i v + next i v) next

variable {total : List (TransportTable α)} {T : Nat → Nat → Nat → α}

/-- The loop over the levels is one loop for each coefficient. -/
theorem returns_addNextFields (hnames : caster.NamesVertices meshes) (param : TransportParam α)
    (levels : Nat) (depth : UInt32) (htotal : HoldFields shLen meshes total T)
    (hprev : HoldFields shLen meshes prev F) :
    Outcome.Returns (fun tables => HoldFields shLen meshes tables fun k =>
        addNextFields caster meshes param levels depth (T k) (F k))
      (addLevels caster meshes param levels depth total prev) := by
  -- From round to round the sum holds some fields and the last level others, whichever they are.
  induction levels generalizing depth total prev T F with
  | zero => exact .ok htotal
  | succ levels ih =>
    refine (returns_nextFields hnames hprev param (depth + 1)).bind fun next hnext => ?_
    rw [addTables_eq_ok htotal.shaped hnext.shaped, Outcome.bind_ok]
    exact ih (depth + 1) (htotal.zipWith hnext (· + ·)) hnext

theorem returns_addInterreflection_fields (hnames : caster.NamesVertices meshes)
    (h : HoldFields shLen meshes prev F) (param : TransportParam α) (bounce : UInt32) :
    Outcome.Returns (fun tables => HoldFields shLen meshes tables fun k =>
        addNextFields caster meshes param bounce.toNat 0 (F k) (F k))
      (addInterreflection caster meshes prev bounce param) :=
  returns_addNextFields hnames param bounce.toNat 0 h h

end

/-! ### Linearity -/

section

variable {K : Type} [Field K] [LinearOrder K] [FloorSemiring K] [FieldFunctions K]

theorem Reflection.add_combine (a b : K) (F G : Nat → Nat → K) (x y : K) (r : Reflection K) :
    r.add (fun i v => a * F i v + b * G i v) (a * x + b * y) = a * r.add F x + b * r.add G y := by
  unfold Reflection.add
  ring

theorem nextField_combine (caster : RayCaster K) (meshes : Array (Mesh K))
    (param : TransportParam K) (depth : UInt32) (a b : K) (F G : Nat → Nat → K) :
    nextField caster meshes param depth (fun i v => a * F i v + b * G i v) = fun i v =>
      a * nextField caster meshes param depth F i v +
        b * nextField caster meshes param depth G i v := by
  funext i v
  have hfold := List.foldl_hom₂ (reflections caster meshes param depth i v)
    (fun x y => a * x + b * y) (Reflection.add F) (Reflection.add G)
    (Reflection.add fun i v => a * F i v + b * G i v) 0 0
    fun x y r => (Reflection.add_combine a b F G x y r).symm
  rw [mul_zero, mul_zero, add_zero] at hfold
  unfold nextField
  rw [FieldFunctions.zero_eq, hfold]
  ring

theorem addNextFields_combine (caster : RayCaster K) (meshes : Array (Mesh K))
    (param : TransportParam K) (levels : Nat) (depth : UInt32) (a b : K)
    (T U F G : Nat → Nat → K) :
    addNextFields caster meshes param levels depth (fun i v => a * T i v + b * U i v)
        (fun i v => a * F i v + b * G i v) = fun i v =>
      a * addNextFields caster meshes param levels depth T F i v +
        b * addNextFields caster meshes param levels depth U G i v := by
  induction levels generalizing depth T U F G with
  | zero => rfl
  | succ levels ih =>
    simp only [addNextFields, nextField_combine]
    rw [← ih]
    congr 1
    funext i v
    ring

variable {caster : RayCaster K} {meshes : Array (Mesh K)} {shLen : Nat}
  {P Q : List (TransportTable K)}

/-- The levels on a combination of tables are the combination of the levels on each. -/
theorem exists_combined (hnames : caster.NamesVertices meshes) (hP : ShapedTables shLen meshes P)
    (hQ : ShapedTables shLen meshes Q) (param : TransportParam K) (bounce : UInt32) (a b : K) :
    ∃ totalP totalQ, addInterreflection caster meshes P bounce param = .ok totalP ∧
      addInterreflection caster meshes Q bounce param = .ok totalQ ∧
      ShapedTables shLen meshes totalP ∧ ShapedTables shLen meshes totalQ ∧
      addInterreflection caster meshes (combineTables a b P Q) bounce param =
        .ok (combineTables a b totalP totalQ) := by
  obtain ⟨F, hF⟩ := hP.exists_fields
  obtain ⟨G, hG⟩ := hQ.exists_fields
  obtain ⟨totalP, hrunP, htotalP⟩ := returns_addInterreflection_fields hnames hF param bounce
  obtain ⟨totalQ, hrunQ, htotalQ⟩ := returns_addInterreflection_fields hnames hG param bounce
  obtain ⟨total, hrun, htotal⟩ := returns_addInterreflection_fields hnames
    (hF.zipWith hG fun x y => a * x + b * y) param bounce
  have hcombined := htotalP.zipWith htotalQ fun x y => a * x + b * y
  simp only [addNextFields_combine] at htotal
  cases htotal.unique hcombined
  exact ⟨totalP, totalQ, hrunP, hrunQ, htotalP.shaped, htotalQ.shaped, hrun⟩

end

/-! ### Independence -/

/-- Two lists of tables have the same value of a coefficient at every vertex. -/
def AgreeAt {α : Type} (meshes : Array (Mesh α)) (k : Nat) (ts ts' : List (TransportTable α)) :
    Prop :=
  ∀ (i : Nat) mesh v, meshes[i]? = some mesh → v < mesh.vertexCount →
    ∃ x, coefficient? ts i v k = some x ∧ coefficient? ts' i v k = some x

/-- The levels on one coefficient depend on nothing but this coefficient. -/
theorem exists_agreeAt {α : Type} [Scalar α] {caster : RayCaster α} {meshes : Array (Mesh α)}
    {n n' k : Nat} {P Q : List (TransportTable α)} (hnames : caster.NamesVertices meshes)
    (hP : ShapedTables n meshes P) (hQ : ShapedTables n' meshes Q) (hk : k < n) (hk' : k < n')
    (hagree : AgreeAt meshes k P Q) (param : TransportParam α) (bounce : UInt32) :
    ∃ totalP totalQ, addInterreflection caster meshes P bounce param = .ok totalP ∧
      addInterreflection caster meshes Q bounce param = .ok totalQ ∧
      AgreeAt meshes k totalP totalQ := by
  obtain ⟨F, hF⟩ := hP.exists_fields
  obtain ⟨G, hG⟩ := hQ.exists_fields
  -- At vertices the two fields of the coefficient are one, so the second tables hold the first one.
  have hG' : HoldFields n' meshes Q fun j => if j = k then F k else G j := by
    refine hG.congr fun j hj i mesh v hmesh hv => ?_
    split
    · rename_i hjk
      obtain ⟨x, hx, hx'⟩ := hagree i mesh v hmesh hv
      rw [hF.coefficient?_eq hmesh hv hk] at hx
      rw [hG.coefficient?_eq hmesh hv hk'] at hx'
      rw [hjk, Option.some.inj (hx.trans hx'.symm)]
    · rfl
  obtain ⟨totalP, hrunP, htotalP⟩ := returns_addInterreflection_fields hnames hF param bounce
  obtain ⟨totalQ, hrunQ, htotalQ⟩ := returns_addInterreflection_fields hnames hG' param bounce
  refine ⟨totalP, totalQ, hrunP, hrunQ, fun i mesh v hmesh hv => ?_⟩
  refine ⟨_, htotalP.coefficient?_eq hmesh hv hk, ?_⟩
  rw [htotalQ.coefficient?_eq hmesh hv hk', if_pos rfl]

/-- **Superposition.** In exact arithmetic interreflection on a combination of tables, of one length
of columns, is the combination of the interreflection on each, in every coefficient of every vertex.
In any arithmetic a coefficient of the result depends on nothing but this coefficient of the direct
transport, not even on how many coefficients there are. -/
theorem interreflection_superposes :
    (∀ (K : Type) [Field K] [LinearOrder K] [FloorSemiring K] [FieldFunctions K]
        (caster : RayCaster K) (meshes : Array (Mesh K)) (param : TransportParam K)
        (bounce : UInt32) (shLen : Nat) (P Q : List (TransportTable K)) (a b : K),
      caster.NamesVertices meshes → ShapedTables shLen meshes P → ShapedTables shLen meshes Q →
        ∃ totalP totalQ, addInterreflection caster meshes P bounce param = .ok totalP ∧
          addInterreflection caster meshes Q bounce param = .ok totalQ ∧
          addInterreflection caster meshes (combineTables a b P Q) bounce param =
            .ok (combineTables a b totalP totalQ) ∧
          ∀ (i : Nat) mesh v k, meshes[i]? = some mesh → v < mesh.vertexCount → k < shLen →
            ∃ x y, coefficient? totalP i v k = some x ∧ coefficient? totalQ i v k = some y ∧
              coefficient? (combineTables a b totalP totalQ) i v k = some (a * x + b * y)) ∧
    ∀ (α : Type) [Scalar α] (caster : RayCaster α) (meshes : Array (Mesh α))
        (param : TransportParam α) (bounce : UInt32) (n n' k : Nat)
        (P Q : List (TransportTable α)),
      caster.NamesVertices meshes → ShapedTables n meshes P → ShapedTables n' meshes Q →
        k < n → k < n' → AgreeAt meshes k P Q →
          ∃ totalP totalQ, addInterreflection caster meshes P bounce param = .ok totalP ∧
            addInterreflection caster meshes Q bounce param = .ok totalQ ∧
            AgreeAt meshes k totalP totalQ := by
  refine ⟨?_, ?_⟩
  · intro K _ _ _ _ caster meshes param bounce shLen P Q a b hnames hP hQ
    obtain ⟨totalP, totalQ, hrunP, hrunQ, hshapeP, hshapeQ, hrun⟩ :=
      exists_combined hnames hP hQ param bounce a b
    refine ⟨totalP, totalQ, hrunP, hrunQ, hrun, fun i mesh v k hmesh hv hk => ?_⟩
    obtain ⟨x, hx⟩ := hshapeP.exists_coefficient hmesh hv hk
    obtain ⟨y, hy⟩ := hshapeQ.exists_coefficient hmesh hv hk
    have hxy := coefficient?_zipWith (f := fun x y => a * x + b * y)
      (hshapeP.sameShape hshapeQ) i v k
    rw [hx, hy] at hxy
    exact ⟨x, y, hx, hy, hxy⟩
  · intro α _ caster meshes param bounce n n' k P Q hnames hP hQ hk hk' hagree
    exact exists_agreeAt hnames hP hQ hk hk' hagree param bounce

/-! ### Tables of two triangles -/

namespace Facing

/-- Light at one vertex of each triangle. -/
def spots : List (TransportTable ℝ) :=
  [⟨1, #[1, 0, 0]⟩, ⟨1, #[0, 1, 0]⟩]

/-- Light at the lid alone. -/
noncomputable def glow : List (TransportTable ℝ) :=
  [⟨1, #[0, 0, 0]⟩, ⟨1, #[1, 2, 3]⟩]

/-- The first tables with a second coefficient. -/
noncomputable def widened : List (TransportTable ℝ) :=
  [⟨2, #[1, 5, 0, 6, 0, 7]⟩, ⟨2, #[0, 5, 1, 6, 0, 7]⟩]

theorem shaped {shLen : Nat} (hroom : HasRoom (shLen * 3)) {t t' : TransportTable ℝ}
    (h : t.shLen = shLen ∧ t.data.size = shLen * 3)
    (h' : t'.shLen = shLen ∧ t'.data.size = shLen * 3) : ShapedTables shLen meshes [t, t'] :=
  .cons ⟨h.1, h.2, h.2 ▸ hroom⟩ (.cons ⟨h'.1, h'.2, h'.2 ▸ hroom⟩ .nil)

theorem agreeAt_widened : AgreeAt meshes 0 spots widened := by
  intro i mesh v hmesh hv
  rw [vertexCount_of_mem (Array.mem_of_getElem? hmesh)] at hv
  have hi : i < 2 := (Array.getElem?_eq_some_iff.1 hmesh).1
  interval_cases i <;> interval_cases v <;> exact ⟨_, rfl, rfl⟩

end Facing

open Facing in
/-- Two rounds of reflections between the triangles. -/
theorem interreflection_superposes_facing : ∃ totalP totalQ totalR,
    addInterreflection caster meshes spots 2 (param 0 ⟨2, 1⟩) = .ok totalP ∧
    addInterreflection caster meshes glow 2 (param 0 ⟨2, 1⟩) = .ok totalQ ∧
    addInterreflection caster meshes (combineTables 2 3 spots glow) 2 (param 0 ⟨2, 1⟩) =
      .ok (combineTables 2 3 totalP totalQ) ∧
    (∃ x y, coefficient? totalP 1 2 0 = some x ∧ coefficient? totalQ 1 2 0 = some y ∧
      coefficient? (combineTables 2 3 totalP totalQ) 1 2 0 = some (2 * x + 3 * y)) ∧
    addInterreflection caster meshes widened 2 (param 0 ⟨2, 1⟩) = .ok totalR ∧
    AgreeAt meshes 0 totalP totalR := by
  have hspots : ShapedTables 1 meshes spots :=
    shaped (hasRoom_iff_lt.2 (by norm_num)) ⟨rfl, rfl⟩ ⟨rfl, rfl⟩
  have hglow : ShapedTables 1 meshes glow :=
    shaped (hasRoom_iff_lt.2 (by norm_num)) ⟨rfl, rfl⟩ ⟨rfl, rfl⟩
  have hwidened : ShapedTables 2 meshes widened :=
    shaped (hasRoom_iff_lt.2 (by norm_num)) ⟨rfl, rfl⟩ ⟨rfl, rfl⟩
  obtain ⟨totalP, totalQ, hP, hQ, hcombined, hcoefficient⟩ := interreflection_superposes.1 ℝ caster
    meshes (param 0 ⟨2, 1⟩) 2 1 spots glow 2 3 namesVertices hspots hglow
  obtain ⟨total, totalR, hP', hR, hagree⟩ := interreflection_superposes.2 ℝ caster meshes
    (param 0 ⟨2, 1⟩) 2 1 2 0 spots widened namesVertices hspots hwidened (by decide) (by decide)
    agreeAt_widened
  cases hP.symm.trans hP'
  obtain ⟨mesh, hmesh, hv⟩ := exists_lid (α := ℝ)
  exact ⟨totalP, totalQ, totalR, hP, hQ, hcombined,
    hcoefficient 1 mesh 2 0 hmesh hv (by decide), hR, hagree⟩

end RadianceTransfer
