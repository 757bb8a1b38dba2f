import RadianceTransfer.Proofs.Transport.Environment
import RadianceTransfer.Proofs.Transport.Levels

/-!
# Raising the highest degree

Two runs of the precomputation with different highest degrees draw the same samples, cast the same
rays and skip the same directions: nothing that decides about these looks at a coefficient or at how
many there are. So they do the same operations in lockstep, on columns of different lengths, and the
columns of the one are always the first coefficients of the columns of the other (`Truncates`). No
law of arithmetic is used.

Each function of the precomputation has one lemma, which says that it keeps the relation.

## Main statements

* `matches_projectEnvironment`: the lighting.
* `matches_projectAllDirect`, `matches_addInterreflection`: the transport.
* `lower_coefficients_agree`: raising the highest degree changes no coefficient of a lower degree.
-/

namespace RadianceTransfer

open Outcome

/-- The second list is the first `k` of the `n` entries of the first one. -/
def Truncates {β : Type} (n k : Nat) (l l' : List β) : Prop :=
  l.length = n ∧ l' = l.take k

/-- The second table has the first `k` of the `n` coefficients of each of the columns of the first
one, of which there is a given number. -/
def TruncatesTable {α : Type} (n k vertices : Nat) (t t' : TransportTable α) : Prop :=
  ∃ columns : List (List α), columns.length = vertices ∧ t.Holds n columns ∧
    t'.Holds k (columns.map (List.take k))

/-- There is one such table for each mesh. -/
abbrev TruncatesTables {α : Type} (n k : Nat) (meshes : List (Mesh α)) :
    List (TransportTable α) → List (TransportTable α) → Prop :=
  Forall₃ (fun mesh => TruncatesTable n k mesh.vertexCount) meshes

variable {α : Type} [Scalar α] {m n k : Nat}

theorem Truncates.replicate {β : Type} (h : k ≤ n) (x : β) :
    Truncates n k (List.replicate n x) (List.replicate k x) :=
  ⟨List.length_replicate, by rw [List.take_replicate, Nat.min_eq_left h]⟩

theorem Truncates.map {β : Type} {l l' : List β} (h : Truncates n k l l') (f : β → β) :
    Truncates n k (l.map f) (l'.map f) :=
  ⟨by rw [List.length_map, h.1], by rw [h.2, List.map_take]⟩

theorem matches_requireRoom (h : m ≤ n) :
    Matches (fun _ _ => True) (requireRoom n) (requireRoom m) := by
  intro _ hn
  exact ⟨(), requireRoom_eq_ok_iff.2 ((requireRoom_eq_ok_iff.1 hn).of_le h), trivial⟩

/-! ### Lighting -/

theorem Truncates.addColors {row row' cs cs' : List (Color α)} (h : Truncates n k row row')
    (hcs : cs' = cs.take k) :
    Truncates n k (addColors row cs) (RadianceTransfer.addColors row' cs') :=
  ⟨by rw [length_addColors, h.1], by rw [take_addColors, h.2, hcs]⟩

open Harmonics (coefficientCount coefficientCount_le)

theorem matches_addTexel (h : m ≤ n) (map : CubeMap α) (face : CubeFace) (faceIndex y x : Nat)
    {row row' : List (Color α)}
    (hrow : Truncates (coefficientCount n) (coefficientCount m) row row') :
    Matches (Truncates (coefficientCount n) (coefficientCount m))
      (addTexel map n face faceIndex y row x) (addTexel map m face faceIndex y row' x) := by
  rw [addTexel, addTexel]
  refine Matches.bind_self fun texel _ => .ok (hrow.addColors ?_)
  rw [← List.map_take, Harmonics.take_basis h]

theorem matches_projectRow (h : m ≤ n) (map : CubeMap α) (skipFirst : Bool) (slot : Nat)
    {row row' : List (Color α)}
    (hrow : Truncates (coefficientCount n) (coefficientCount m) row row') :
    Matches (Truncates (coefficientCount n) (coefficientCount m))
      (projectRow map n skipFirst slot row) (projectRow map m skipFirst slot row') := by
  rw [projectRow, projectRow]
  split
  · exact .ok hrow
  · split
    · exact .foldlM hrow fun x _ row row' hrow => matches_addTexel h map _ _ _ x hrow
    · rintro _ ⟨⟩

theorem truncates_foldl_addColors {rows rows' : List (List (Color α))} {sum sum' : List (Color α)}
    (hrows : List.Forall₂ (Truncates n k) rows rows') (hsum : Truncates n k sum sum') :
    Truncates n k (rows.foldl addColors sum) (rows'.foldl addColors sum') := by
  induction hrows generalizing sum sum' with
  | nil => exact hsum
  | cons hrow _ ih => exact ih (hsum.addColors hrow.2)

/-- The lighting coefficients of a lower degree. -/
theorem matches_projectEnvironment (h : m ≤ n) (map : CubeMap α) (skipFirst : Bool)
    (threads threads' : ThreadParam) :
    Matches (fun light light' =>
        Truncates (coefficientCount n) (coefficientCount m) light.coeffs light'.coeffs)
      (projectEnvironment map n skipFirst threads)
      (projectEnvironment map m skipFirst threads') := by
  intro light hlight
  obtain ⟨hroom, rows, hrows, rfl⟩ := projectEnvironment_eq_ok_iff.1 hlight
  have hzero : Truncates (coefficientCount n) (coefficientCount m)
      (LightCoeffs.zero n : LightCoeffs α).coeffs (LightCoeffs.zero m).coeffs :=
    .replicate (coefficientCount_le h) Color.black
  obtain ⟨rows', hrows', htrunc⟩ := Matches.mapM
    (fun slot _ => matches_projectRow h map skipFirst slot hzero) rows hrows
  replace htrunc := htrunc.forall₂
  have hroom' : HasRoom (3 * coefficientCount m) :=
    hroom.of_le (Nat.mul_le_mul_left 3 (coefficientCount_le h))
  exact ⟨_, projectEnvironment_eq_ok_iff.2 ⟨hroom', rows', hrows', rfl⟩,
    truncates_foldl_addColors htrunc hzero⟩

/-! ### Direct transport -/

/-- The same pass up to another degree, with other workers. -/
def TransportParam.withOrder (param : TransportParam α) (order : UInt32) (threads : ThreadParam) :
    TransportParam α :=
  { param with order, threads }

theorem matches_fill (hk : 0 < k) (hkn : k ≤ n) {vertices : Nat} {threads threads' : ThreadParam}
    {column column' : Nat → Outcome (List α)}
    (h : ∀ v, Matches (Truncates n k) (column v) (column' v)) :
    Matches (TruncatesTable n k vertices) (TransportTable.fill n vertices threads column)
      (TransportTable.fill k vertices threads' column') := by
  intro t ht
  obtain ⟨hroom, columns, hcolumns, rfl⟩ :=
    (TransportTable.fill_eq_ok_iff (hk.trans_le hkn)).1 ht
  obtain ⟨columns', hcolumns', htrunc⟩ := Matches.mapM (fun v _ => h v) columns hcolumns
  replace htrunc := htrunc.forall₂
  have hlen : columns.length = vertices := by
    rw [← (mapM_eq_ok_iff.1 hcolumns).length_eq, List.length_range]
  have hn (col : List α) (hcol : col ∈ columns) : col.length = n := by
    obtain ⟨i, hi, rfl⟩ := List.getElem_of_mem hcol
    exact ((List.forall₂_iff_get.1 htrunc).2 i hi (htrunc.length_eq ▸ hi)).1
  have hmap : columns' = columns.map (List.take k) := by
    refine List.ext_getElem (by rw [List.length_map, htrunc.length_eq]) fun i hi' hi => ?_
    rw [List.getElem_map]
    exact ((List.forall₂_iff_get.1 htrunc).2 i (htrunc.length_eq ▸ hi') hi').2
  have hroom' : HasRoom (k * vertices) := hroom.of_le (Nat.mul_le_mul_right vertices hkn)
  refine ⟨_, (TransportTable.fill_eq_ok_iff hk).2 ⟨hroom', columns', hcolumns', rfl⟩,
    columns, hlen, TransportTable.holds_ofChunks hn, ?_⟩
  rw [hmap]
  refine TransportTable.holds_ofChunks fun col' hcol' => ?_
  obtain ⟨col, hcol, rfl⟩ := List.mem_map.1 hcol'
  rw [List.length_take, hn col hcol, Nat.min_eq_left hkn]

theorem matches_projectFunction (h : m ≤ n) (sampler : StratifiedSphere Pcg)
    (f : SphereSample α → Outcome α) :
    Matches (Truncates (coefficientCount n) (coefficientCount m))
      (Harmonics.projectFunction n sampler f) (Harmonics.projectFunction m sampler f) := by
  unfold Harmonics.projectFunction
  refine (matches_requireRoom (coefficientCount_le h)).bind fun _ _ _ => ?_
  refine Matches.bind (R := Truncates (coefficientCount n) (coefficientCount m))
    (.foldlM (.replicate (coefficientCount_le h) 0) fun sample _ col col' hcol => ?_)
    fun col col' hcol => .ok (hcol.map _)
  refine Matches.bind_self fun value _ => .ok ⟨Harmonics.length_addProjected hcol.1 _ _, ?_⟩
  rw [hcol.2, Harmonics.take_addProjected h]

theorem matches_coefficientCount? {m n : UInt32} (h : m ≤ n) :
    Matches (fun a b => a = coefficientCount n.toNat ∧ b = coefficientCount m.toNat)
      (Harmonics.coefficientCount? n) (Harmonics.coefficientCount? m) := by
  intro a ha
  obtain ⟨hfits, rfl⟩ := Harmonics.coefficientCount?_eq_ok_iff.1 ha
  exact ⟨_, Harmonics.coefficientCount?_eq_ok_iff.2
    ⟨(coefficientCount_le (UInt32.le_iff_toNat_le.1 h)).trans_lt hfits, rfl⟩, rfl, rfl⟩

variable {m n : UInt32} (caster : RayCaster α) (param : TransportParam α)
  (threads threads' : ThreadParam)

/-- The direct transport of a mesh. -/
theorem matches_projectDirect (h : m ≤ n) (meshId : UInt32) (mesh : Mesh α) :
    Matches (TruncatesTable (coefficientCount n.toNat) (coefficientCount m.toNat) mesh.vertexCount)
      (projectDirect caster meshId mesh (param.withOrder n threads))
      (projectDirect caster meshId mesh (param.withOrder m threads')) := by
  rw [projectDirect_eq, projectDirect_eq]
  refine (matches_coefficientCount? h).bind ?_
  rintro _ _ ⟨rfl, rfl⟩
  have hle : m.toNat ≤ n.toNat := UInt32.le_iff_toNat_le.1 h
  refine matches_fill (Harmonics.coefficientCount_pos _) (coefficientCount_le hle) fun v => ?_
  rw [directColumn, directColumn]
  exact Matches.bind_self fun point _ => Matches.bind_self fun normal _ =>
    matches_projectFunction hle _ _

/-- The direct transport of all meshes. -/
theorem matches_projectAllDirect (h : m ≤ n) (meshes : Array (Mesh α)) :
    Matches
      (TruncatesTables (coefficientCount n.toNat) (coefficientCount m.toNat) meshes.toList)
      (projectAllDirect caster meshes (param.withOrder n threads))
      (projectAllDirect caster meshes (param.withOrder m threads')) :=
  .mapM_zipIdx fun i mesh _ => matches_projectDirect caster param threads threads' h i.toUInt32 mesh

/-! ### Interreflection -/

section

variable {n k vertices : Nat} {meshes : Array (Mesh α)} {caster : RayCaster α}
  {prev prev' : List (TransportTable α)} {param param' : TransportParam α}

omit [Scalar α] in
theorem TruncatesTable.matches_column (hk : 0 < k) (hkn : k ≤ n) {t t' : TransportTable α}
    (h : TruncatesTable n k vertices t t') (v : Nat) :
    Matches (Truncates n k) (t.column v) (t'.column v) := by
  obtain ⟨columns, -, hholds, hholds'⟩ := h
  intro col hcol
  rw [hholds.column_eq_ok_iff (hk.trans_le hkn)] at hcol
  refine ⟨col.take k, hholds'.column_eq ?_, hholds.length_eq _ (List.mem_of_getElem? hcol), rfl⟩
  rw [List.getElem?_map, hcol, Option.map_some]

theorem TruncatesTable.matches_addBlend (hk : 0 < k) (hkn : k ≤ n) {t t' : TransportTable α}
    (h : TruncatesTable n k vertices t t') (corners : Triangle) (weights : Vec3 α) (scale : α)
    {sum sum' : List α} (hsum : Truncates n k sum sum') :
    Matches (Truncates n k) (t.addBlend corners weights scale sum)
      (t'.addBlend corners weights scale sum') := by
  have hadd {w : α} {out out' col col' : List α} (hout : Truncates n k out out')
      (hcol : Truncates n k col col') : Truncates n k (TransportTable.addWeighted w out col)
        (TransportTable.addWeighted w out' col') :=
    ⟨by rw [TransportTable.length_addWeighted, hout.1],
      by rw [TransportTable.take_addWeighted, hout.2, hcol.2]⟩
  refine (h.matches_column hk hkn corners.i0.toNat).bind fun c0 c0' h0 => ?_
  refine (h.matches_column hk hkn corners.i1.toNat).bind fun c1 c1' h1 => ?_
  refine (h.matches_column hk hkn corners.i2.toNat).bind fun c2 c2' h2 => ?_
  exact .ok (hadd (hadd (hadd hsum h0) h1) h2)

omit [Scalar α] in
theorem TruncatesTables.matches_get (h : TruncatesTables n k meshes.toList prev prev') {i : Nat}
    {mesh : Mesh α} (hmesh : Outcome.get meshes i = .ok mesh) :
    Matches (TruncatesTable n k mesh.vertexCount) (Outcome.get prev.toArray i)
      (Outcome.get prev'.toArray i) := by
  rw [Outcome.get_eq_ok_iff, ← Array.getElem?_toList] at hmesh
  obtain ⟨t, t', ht, ht', htrunc⟩ := h.exists_getElem? hmesh
  have hget (ts : List (TransportTable α)) (s : TransportTable α) (hs : ts[i]? = some s) :
      Outcome.get ts.toArray i = .ok s :=
    Outcome.get_eq_ok_iff.2 (by rw [List.getElem?_toArray, hs])
  rw [hget prev t ht, hget prev' t' ht']
  exact .ok htrunc

/-- What a sample adds. Which surface it hits, and from which side, depends on no coefficient. -/
theorem matches_gather (hk : 0 < k) (hkn : k ≤ n) (hbias : param'.rayBias = param.rayBias)
    (h : TruncatesTables n k meshes.toList prev prev') (point normal : Vec3 α)
    (sample : SphereSample α) {sum sum' : List α} (hsum : Truncates n k sum sum') :
    Matches (Truncates n k) (gather caster meshes prev.toArray param point normal sample sum)
      (gather caster meshes prev'.toArray param' point normal sample sum') := by
  unfold gather
  rw [hbias]
  by_cases hh : normal.dot sample.dir ≤ 0
  · rw [if_pos hh, if_pos hh]
    exact .ok hsum
  rw [if_neg hh, if_neg hh]
  refine Matches.bind_self fun answer _ => ?_
  cases answer with
  | none => exact .ok hsum
  | some hit =>
    refine Matches.bind_self fun mesh hmesh => Matches.bind_self fun hitNormal _ => ?_
    by_cases hback : hitNormal.dot (-sample.dir) ≤ 0
    · rw [if_pos hback, if_pos hback]
      exact .ok hsum
    · rw [if_neg hback, if_neg hback]
      exact (h.matches_get hmesh).bind fun t t' ht =>
        ht.matches_addBlend hk hkn hit.corners hit.weights _ hsum

theorem matches_bounceColumn (hk : 0 < k) (hkn : k ≤ n) (order order' : UInt32)
    (threads threads' : ThreadParam) (h : TruncatesTables n k meshes.toList prev prev')
    (depth meshId vertex : UInt32) (mesh : Mesh α) :
    Matches (Truncates n k)
      (bounceColumn caster meshes prev.toArray depth (param.withOrder order threads) n meshId
        mesh vertex)
      (bounceColumn caster meshes prev'.toArray depth (param.withOrder order' threads') k meshId
        mesh vertex) := by
  rw [bounceColumn, bounceColumn]
  refine Matches.bind_self fun point _ => Matches.bind_self fun normal _ => ?_
  rw [Harmonics.projectVector, Harmonics.projectVector]
  refine Matches.bind (R := Truncates n k) (.foldlM (.replicate hkn 0) fun sample _ sum sum' hsum =>
    matches_gather hk hkn rfl h point normal sample hsum) fun col col' hcol => .ok (hcol.map _)

theorem matches_bounceTable (hk : 0 < k) (hkn : k ≤ n) (order order' : UInt32)
    (threads threads' : ThreadParam) (h : TruncatesTables n k meshes.toList prev prev')
    (depth : UInt32) (i : Nat) {mesh : Mesh α} (hmesh : meshes[i]? = some mesh) :
    Matches (TruncatesTable n k mesh.vertexCount)
      (bounceTable caster meshes prev.toArray depth (param.withOrder order threads) mesh i)
      (bounceTable caster meshes prev'.toArray depth (param.withOrder order' threads') mesh i) := by
  rw [bounceTable_eq, bounceTable_eq]
  refine (h.matches_get (Outcome.get_eq_ok_iff.2 hmesh)).bind ?_
  rintro t t' ⟨columns, -, hholds, hholds'⟩
  rw [hholds.shLen_eq, hholds'.shLen_eq]
  exact matches_fill hk hkn fun v =>
    matches_bounceColumn hk hkn order order' threads threads' h depth _ _ mesh

/-- A level of interreflection. -/
theorem matches_projectBounce (hk : 0 < k) (hkn : k ≤ n) (order order' : UInt32)
    (threads threads' : ThreadParam) (h : TruncatesTables n k meshes.toList prev prev')
    (depth : UInt32) :
    Matches (TruncatesTables n k meshes.toList)
      (projectBounce caster meshes prev depth (param.withOrder order threads))
      (projectBounce caster meshes prev' depth (param.withOrder order' threads')) :=
  .mapM_zipIdx fun i mesh hmesh =>
    matches_bounceTable hk hkn order order' threads threads' h depth i
      (by rwa [Array.getElem?_toList] at hmesh)

theorem TruncatesTable.sum {t t' s s' : TransportTable α} (h : TruncatesTable n k vertices t t')
    (hs : TruncatesTable n k vertices s s') :
    t.add s = .ok (t.sum s) ∧ t'.add s' = .ok (t'.sum s') ∧
      TruncatesTable n k vertices (t.sum s) (t'.sum s') := by
  obtain ⟨columns, hlen, hholds, hholds'⟩ := h
  obtain ⟨columns₁, hlen₁, hholds₁, hholds₁'⟩ := hs
  refine ⟨TransportTable.add_eq_ok ?_, TransportTable.add_eq_ok ?_,
    List.zipWith (List.zipWith (· + ·)) columns columns₁, ?_, hholds.sum hholds₁, ?_⟩
  · rw [hholds.size_data, hholds₁.size_data, hlen, hlen₁]
  · rw [hholds'.size_data, hholds₁'.size_data, List.length_map, List.length_map, hlen, hlen₁]
  · rw [List.length_zipWith, hlen, hlen₁, Nat.min_self]
  · have hmap : (List.zipWith (List.zipWith (· + ·)) columns columns₁).map (List.take k) =
        List.zipWith (List.zipWith (· + ·)) (columns.map (List.take k))
          (columns₁.map (List.take k)) := by
      rw [List.map_zipWith, List.zipWith_map]
      simp only [List.take_zipWith]
    rw [hmap]
    exact hholds'.sum hholds₁'

theorem matches_addTables {ms : List (Mesh α)} {total total' next next' : List (TransportTable α)}
    (h : TruncatesTables n k ms total total') (hnext : TruncatesTables n k ms next next') :
    Matches (TruncatesTables n k ms) (addTables total next) (addTables total' next') := by
  induction h generalizing next next' with
  | nil =>
    cases hnext
    exact .ok .nil
  | cons ht _ ih =>
    cases hnext with
    | cons hl hnext =>
      obtain ⟨hadd, hadd', htrunc⟩ := ht.sum hl
      rw [addTables, addTables, hadd, hadd', bind_ok, bind_ok]
      exact (ih hnext).bind fun rest rest' hrest => .ok (.cons htrunc hrest)

theorem matches_addLevels (hk : 0 < k) (hkn : k ≤ n) (order order' : UInt32)
    (threads threads' : ThreadParam) (rounds : Nat) (depth : UInt32)
    {total total' : List (TransportTable α)}
    (htotal : TruncatesTables n k meshes.toList total total')
    (h : TruncatesTables n k meshes.toList prev prev') :
    Matches (TruncatesTables n k meshes.toList)
      (addLevels caster meshes (param.withOrder order threads) rounds depth total prev)
      (addLevels caster meshes (param.withOrder order' threads') rounds depth total' prev') := by
  induction rounds generalizing depth total total' prev prev' with
  | zero => exact .ok htotal
  | succ rounds ih =>
    rw [addLevels, addLevels]
    refine (matches_projectBounce hk hkn order order' threads threads' h _).bind
      fun next next' hnext => ?_
    exact (matches_addTables htotal hnext).bind fun total total' htotal => ih _ htotal hnext

/-- Any number of levels of interreflection. -/
theorem matches_addInterreflection (hk : 0 < k) (hkn : k ≤ n) (order order' : UInt32)
    (threads threads' : ThreadParam) (bounce : UInt32)
    (h : TruncatesTables n k meshes.toList prev prev') :
    Matches (TruncatesTables n k meshes.toList)
      (addInterreflection caster meshes prev bounce (param.withOrder order threads))
      (addInterreflection caster meshes prev' bounce (param.withOrder order' threads')) :=
  matches_addLevels hk hkn order order' threads threads' bounce.toNat 0 h h

omit [Scalar α] in
theorem TruncatesTables.exists_column (h : TruncatesTables n k meshes.toList prev prev') {i v : Nat}
    {mesh : Mesh α} (hmesh : meshes[i]? = some mesh) (hv : v < mesh.vertexCount) :
    ∃ t t' col, prev[i]? = some t ∧ prev'[i]? = some t' ∧ t.column v = .ok col ∧
      col.length = n ∧ t'.column v = .ok (col.take k) := by
  rw [← Array.getElem?_toList] at hmesh
  obtain ⟨t, t', ht, ht', columns, hlen, hholds, hholds'⟩ := h.exists_getElem? hmesh
  obtain ⟨col, hcol, hcollen⟩ := hholds.exists_getElem? (hlen ▸ hv)
  refine ⟨t, t', col, ht, ht', hholds.column_eq hcol, hcollen, hholds'.column_eq ?_⟩
  rw [List.getElem?_map, hcol, Option.map_some]

end

/-- **Raising the highest degree changes no lower coefficient.** Let `m ≤ n`, and let all other
inputs be equal, but for the workers of the loops. If the lighting is projected up to degree `n`, it
is projected up to degree `m` as well, and the result is the first `(m + 1)²` of its `(n + 1)²`
coefficients. Likewise for the transport with any number of bounces, in the column of every vertex
of every mesh. These are the same values, computed by the same operations: no law of arithmetic is
assumed. -/
theorem lower_coefficients_agree {m n : UInt32} (h : m ≤ n) (threads threads' : ThreadParam) :
    (∀ (map : CubeMap α) (skipFirst : Bool) (light : LightCoeffs α),
      projectEnvironment map n.toNat skipFirst threads = .ok light →
        ∃ light', projectEnvironment map m.toNat skipFirst threads' = .ok light' ∧
          light.coeffs.length = (n.toNat + 1) ^ 2 ∧
          light'.coeffs = light.coeffs.take ((m.toNat + 1) ^ 2)) ∧
    (∀ (caster : RayCaster α) (meshes : Array (Mesh α)) (param : TransportParam α)
        (bounce : UInt32) (direct total : List (TransportTable α)),
      projectAllDirect caster meshes (param.withOrder n threads) = .ok direct →
      addInterreflection caster meshes direct bounce (param.withOrder n threads) = .ok total →
        ∃ direct' total' : List (TransportTable α),
          projectAllDirect caster meshes (param.withOrder m threads') = .ok direct' ∧
          addInterreflection caster meshes direct' bounce (param.withOrder m threads') =
            .ok total' ∧
          ∀ (i v : Nat) (mesh : Mesh α), meshes[i]? = some mesh → v < mesh.vertexCount →
            ∃ t t' col, total[i]? = some t ∧ total'[i]? = some t' ∧ t.column v = .ok col ∧
              col.length = (n.toNat + 1) ^ 2 ∧
              t'.column v = .ok (col.take ((m.toNat + 1) ^ 2))) := by
  have hle : m.toNat ≤ n.toNat := UInt32.le_iff_toNat_le.1 h
  have hcount (l : Nat) : (l + 1) ^ 2 = coefficientCount l := Nat.pow_two _
  simp only [hcount]
  constructor
  · intro map skipFirst light hlight
    exact matches_projectEnvironment hle map skipFirst threads threads' light hlight
  · intro caster meshes param bounce direct total hdirect htotal
    obtain ⟨direct', hdirect', hdirects⟩ :=
      matches_projectAllDirect caster param threads threads' h meshes direct hdirect
    obtain ⟨total', htotal', htotals⟩ :=
      matches_addInterreflection (Harmonics.coefficientCount_pos _) (coefficientCount_le hle) n m
        threads threads' bounce hdirects total htotal
    exact ⟨direct', total', hdirect', htotal', fun i v mesh hmesh hv =>
      htotals.exists_column hmesh hv⟩

/-- A cubemap of one gray texel per face. -/
def grayMap : CubeMap Float where
  width := 1
  height := 1
  faces := List.replicate 6 #[⟨1, 0.5, 0.25⟩]
  length_faces := rfl
  width_pos := Nat.one_pos
  height_pos := Nat.one_pos
  size_face f hf := by
    rw [List.eq_of_mem_replicate hf]
    rfl

/-- The degrees up to one are the same when degree three is computed as well: in the light of a
uniform environment, and between a floor and a lid after two bounces. -/
theorem lower_coefficients_agree_facing :
    let param : TransportParam Float := Facing.param 0 ⟨1, 1⟩
    let high := param.withOrder 3 ⟨4, 1⟩
    let low := param.withOrder 1 ⟨1, 2⟩
    (∃ light light', projectEnvironment grayMap 3 false ⟨4, 1⟩ = .ok light ∧
      projectEnvironment grayMap 1 false ⟨1, 2⟩ = .ok light' ∧
      light'.coeffs = light.coeffs.take 4) ∧
    ∃ direct direct' total total' : List (TransportTable Float),
      projectAllDirect Facing.caster Facing.meshes high = .ok direct ∧
      addInterreflection Facing.caster Facing.meshes direct 2 high = .ok total ∧
      projectAllDirect Facing.caster Facing.meshes low = .ok direct' ∧
      addInterreflection Facing.caster Facing.meshes direct' 2 low = .ok total' ∧
      ∃ t t' col, total[1]? = some t ∧ total'[1]? = some t' ∧ t.column 2 = .ok col ∧
        col.length = 16 ∧ t'.column 2 = .ok (col.take 4) := by
  intro param high low
  have h : (1 : UInt32) ≤ 3 := by decide
  have hagree := lower_coefficients_agree (α := Float) h ⟨4, 1⟩ ⟨1, 2⟩
  constructor
  · obtain ⟨light, hlight⟩ := returns_projectEnvironment grayMap false ⟨4, 1⟩
      (by decide : HasRoom (3 * coefficientCount 3))
    obtain ⟨light', hlight', -, htake⟩ := hagree.1 grayMap false light hlight
    exact ⟨light, light', hlight, hlight', htake⟩
  · obtain ⟨direct, hdirect, hshape, -⟩ : Returns (fun direct =>
        ShapedTables (coefficientCount 3) Facing.meshes direct ∧ EachColumn (fun _ => True) direct)
        (projectAllDirect Facing.caster Facing.meshes high) :=
      returns_projectAllDirect (projected_true _) (fun _ => ⟨false, rfl⟩) (by decide)
        fun mesh hmesh => by rw [Facing.vertexCount_of_mem hmesh]; decide
    obtain ⟨total, htotal, -⟩ : Returns (ShapedTables (coefficientCount 3) Facing.meshes)
        (addInterreflection Facing.caster Facing.meshes direct 2 high) :=
      returns_addInterreflection (by decide) Facing.namesVertices hshape 2
    obtain ⟨direct', total', hdirect', htotal', hcolumns⟩ :=
      hagree.2 Facing.caster Facing.meshes param 2 direct total hdirect htotal
    obtain ⟨lid, hlid, hv⟩ := Facing.exists_lid (α := Float)
    exact ⟨direct, direct', total, total', hdirect, htotal, hdirect', htotal',
      hcolumns 1 2 lid hlid hv⟩

end RadianceTransfer
