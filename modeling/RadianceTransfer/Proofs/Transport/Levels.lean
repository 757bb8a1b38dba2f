import RadianceTransfer.Proofs.Transport.Combination

/-!
# The levels of interreflection

Interreflection carries a sum and the last level in it. After any number of rounds these are the
sum of the levels so far and the last of them, so the loop computes nothing but the partial sums of
the sequence of levels.

## Main definitions

* `level`: the direct transport, then each level from the one before it.
* `partialSum`: the sum of the levels up to one of them.

## Main statements

* `returns_level`, `returns_partialSum`: all levels and all their sums exist.
* `addInterreflection_eq_partialSum`: the loop computes the sums.
-/

namespace RadianceTransfer

variable {α : Type} [Scalar α]

/-- The levels one by one. The direct transport comes first. -/
def level (caster : RayCaster α) (meshes : Array (Mesh α)) (direct : List (TransportTable α))
    (param : TransportParam α) : Nat → Outcome (List (TransportTable α))
  | 0 => .ok direct
  | k + 1 => do
    let prev ← level caster meshes direct param k
    projectBounce caster meshes prev (k + 1).toUInt32 param

/-- The sum of the levels up to one of them, entry by entry. -/
def partialSum (caster : RayCaster α) (meshes : Array (Mesh α)) (direct : List (TransportTable α))
    (param : TransportParam α) : Nat → Outcome (List (TransportTable α))
  | 0 => .ok direct
  | k + 1 => do
    let total ← partialSum caster meshes direct param k
    let next ← level caster meshes direct param (k + 1)
    pure (List.zipWith TransportTable.sum total next)

variable {P : List α → Prop} {caster : RayCaster α} {meshes : Array (Mesh α)} {shLen : Nat}
  {direct : List (TransportTable α)} {param : TransportParam α}

theorem partialSum_succ {k : Nat} {total next : List (TransportTable α)}
    (htotal : partialSum caster meshes direct param k = .ok total)
    (hnext : level caster meshes direct param (k + 1) = .ok next) :
    partialSum caster meshes direct param (k + 1) =
      .ok (List.zipWith TransportTable.sum total next) := by
  rw [partialSum, htotal, Outcome.bind_ok, hnext]
  rfl

/-! ### Sums of tables -/

theorem ShapedTables.sum {total next : List (TransportTable α)}
    (h : ShapedTables shLen meshes total) (h' : ShapedTables shLen meshes next) :
    ShapedTables shLen meshes (List.zipWith TransportTable.sum total next) :=
  h.zipWith h'

/-- Tables of the same shapes are added entry by entry. -/
theorem addTables_eq_ok {total next : List (TransportTable α)} (h : ShapedTables shLen meshes total)
    (h' : ShapedTables shLen meshes next) :
    addTables total next = .ok (List.zipWith TransportTable.sum total next) := by
  unfold ShapedTables at *
  generalize meshes.toList = ms at h h'
  induction h generalizing next with
  | nil =>
    cases h'
    rfl
  | cons ht _ ih =>
    cases h' with
    | cons ht' h' =>
      rw [addTables, TransportTable.add_eq_ok (ht.size_eq.trans ht'.size_eq.symm), Outcome.bind_ok,
        ih h']
      rfl

open TransportTable in
/-- Coefficients are added one by one. -/
theorem coefficient?_sum {total next : List (TransportTable α)}
    (h : ShapedTables shLen meshes total) (h' : ShapedTables shLen meshes next) {i v k : Nat}
    {mesh : Mesh α} (hmesh : meshes[i]? = some mesh) (hv : v < mesh.vertexCount) (hk : k < shLen) :
    ∃ x y, coefficient? total i v k = some x ∧ coefficient? next i v k = some y ∧
      coefficient? (List.zipWith TransportTable.sum total next) i v k = some (x + y) := by
  obtain ⟨x, hx⟩ := h.exists_coefficient hmesh hv hk
  obtain ⟨y, hy⟩ := h'.exists_coefficient hmesh hv hk
  have hsum := coefficient?_zipWith (f := (· + ·)) (h.sameShape h') i v k
  rw [hx, hy] at hsum
  exact ⟨x, y, hx, hy, hsum⟩

/-! ### All levels exist -/

theorem returns_level (hpos : 0 < shLen) (hP : Inherited caster shLen P)
    (hnames : caster.NamesVertices meshes) (hshape : ShapedTables shLen meshes direct)
    (hcols : EachColumn P direct) (k : Nat) :
    Outcome.Returns (fun l => ShapedTables shLen meshes l ∧ EachColumn P l)
      (level caster meshes direct param k) := by
  induction k with
  | zero => exact .ok ⟨hshape, hcols⟩
  | succ k ih => exact ih.bind fun l hl => returns_projectBounce hpos hP hnames hl.1 hl.2 _

theorem exists_level (hpos : 0 < shLen) (hnames : caster.NamesVertices meshes)
    (hshape : ShapedTables shLen meshes direct) (k : Nat) :
    Outcome.Returns (ShapedTables shLen meshes) (level caster meshes direct param k) :=
  (returns_level hpos (inherited_true caster shLen) hnames hshape (fun _ _ _ _ _ => trivial) k).mono
    fun _ hl => hl.1

theorem returns_partialSum (hpos : 0 < shLen) (hnames : caster.NamesVertices meshes)
    (hshape : ShapedTables shLen meshes direct) (k : Nat) :
    Outcome.Returns (ShapedTables shLen meshes) (partialSum caster meshes direct param k) := by
  induction k with
  | zero => exact .ok hshape
  | succ k ih =>
    refine ih.bind fun total htotal => ?_
    exact (exists_level hpos hnames hshape (k + 1)).bind fun next hnext => .ok (htotal.sum hnext)

/-! ### The loop -/

theorem toUInt32_succ (d : Nat) : d.toUInt32 + 1 = (d + 1).toUInt32 := by
  simp

/-- Further rounds go on from the sum and the level that were reached. -/
theorem addLevels_eq_partialSum (hpos : 0 < shLen) (hnames : caster.NamesVertices meshes)
    (hshape : ShapedTables shLen meshes direct) (rounds : Nat) {d : Nat}
    {total prev : List (TransportTable α)}
    (htotal : partialSum caster meshes direct param d = .ok total)
    (hprev : level caster meshes direct param d = .ok prev) :
    addLevels caster meshes param rounds d.toUInt32 total prev =
      partialSum caster meshes direct param (d + rounds) := by
  induction rounds generalizing d total prev with
  | zero => exact htotal.symm
  | succ rounds ih =>
    obtain ⟨next, hnext, hnextShape⟩ : Outcome.Returns (ShapedTables shLen meshes)
      (level caster meshes direct param (d + 1)) := exists_level hpos hnames hshape (d + 1)
    have htotalShape : ShapedTables shLen meshes total := by
      obtain ⟨_, htotal', hshape'⟩ : Outcome.Returns (ShapedTables shLen meshes)
        (partialSum caster meshes direct param d) := returns_partialSum hpos hnames hshape d
      cases htotal.symm.trans htotal'
      exact hshape'
    have hbounce : projectBounce caster meshes prev (d + 1).toUInt32 param = .ok next := by
      rw [level, hprev, Outcome.bind_ok] at hnext
      exact hnext
    rw [addLevels, toUInt32_succ, hbounce, Outcome.bind_ok, addTables_eq_ok htotalShape hnextShape,
      Outcome.bind_ok, ih (partialSum_succ htotal hnext) hnext, Nat.add_right_comm, Nat.add_assoc]

theorem addInterreflection_eq_partialSum (hpos : 0 < shLen) (hnames : caster.NamesVertices meshes)
    (hshape : ShapedTables shLen meshes direct) (bounce : UInt32) :
    addInterreflection caster meshes direct bounce param =
      partialSum caster meshes direct param bounce.toNat := by
  rw [addInterreflection]
  exact (addLevels_eq_partialSum (d := 0) hpos hnames hshape bounce.toNat rfl rfl).trans
    (by rw [Nat.zero_add])

theorem returns_addInterreflection (hpos : 0 < shLen) (hnames : caster.NamesVertices meshes)
    (hshape : ShapedTables shLen meshes direct) (bounce : UInt32) :
    Outcome.Returns (ShapedTables shLen meshes)
      (addInterreflection caster meshes direct bounce param) := by
  rw [addInterreflection_eq_partialSum hpos hnames hshape]
  exact returns_partialSum hpos hnames hshape bounce.toNat

end RadianceTransfer
