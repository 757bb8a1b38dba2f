import Mathlib
import RadianceTransfer.Integrator.Compute
import RadianceTransfer.Proofs.Color
import RadianceTransfer.Proofs.Transport.Combination

/-!
# Shading

The light along a ray is blended from the colors of three corners, each the product of the lighting
with the column of the corner. Interreflection blends the columns themselves. In exact arithmetic
the product is linear in both of its factors, so it makes no difference whether columns or colors
are blended, however long the lighting and the columns are.

## Main definitions

* `LightCoeffs.combine`: a combination of expansions with two factors.
* `combineColors`: the same for computed colors.

## Main statements

* `LightCoeffs.dot_combine_left`, `LightCoeffs.dot_combine_right`: the product is linear.
* `LightCoeffs.dot_blend`: the product with a blend is the blend of the products.
* `Integrator.radiance_blends`: what the light along a ray is.
-/

namespace RadianceTransfer

variable {K : Type}

/-- Two expansions, each times a factor. -/
def LightCoeffs.combine [Add K] [Mul K] (a b : K) (l l' : LightCoeffs K) : LightCoeffs K :=
  ⟨List.zipWith (fun c c' => c.scale a + c'.scale b) l.coeffs l'.coeffs⟩

/-- Two colors, each times a factor, once both are computed. -/
def combineColors [Add K] [Mul K] (a b : K) (o o' : Outcome (Color K)) : Outcome (Color K) := do
  let c ← o
  let c' ← o'
  pure (c.scale a + c'.scale b)

section

variable [Field K]

/-- What both computations start with is computed once. -/
theorem combineColors_bind (a b : K) {β : Type} (o : Outcome β) (f g : β → Outcome (Color K)) :
    combineColors a b (o >>= f) (o >>= g) = o >>= fun x => combineColors a b (f x) (g x) := by
  cases o with
  | error e => rfl
  | ok x => rfl

/-! ### Sums of products -/

/-- The sum of the products of two lists is linear in the second one. -/
theorem sum_mul_combine (a b : K) (l : List K) {t t' : List K} (h : t.length = t'.length) :
    (List.zipWith (· * ·) l (List.zipWith (fun x y => a * x + b * y) t t')).sum =
      a * (List.zipWith (· * ·) l t).sum + b * (List.zipWith (· * ·) l t').sum := by
  induction t generalizing l t' with
  | nil =>
    rw [List.eq_nil_of_length_eq_zero h.symm]
    simp
  | cons x t ih =>
    obtain ⟨y, t', rfl⟩ := List.exists_cons_of_length_eq_add_one h.symm
    cases l with
    | nil => simp
    | cons c l =>
      have hlen : t.length = t'.length := Nat.succ.inj h
      simp only [List.zipWith_cons_cons, List.sum_cons, ih l hlen]
      ring

theorem channel_combine (a b : K) (l l' : LightCoeffs K) (k : Channel) :
    (l.combine a b l').channel k =
      List.zipWith (fun x y => a * x + b * y) (l.channel k) (l'.channel k) := by
  rw [LightCoeffs.channel, LightCoeffs.combine, List.map_zipWith, LightCoeffs.channel,
    LightCoeffs.channel, List.zipWith_map]
  simp only [get_add, get_scale, mul_comm]

theorem get_foldl_scale (terms : List (Color K × K)) (sum : Color K) (k : Channel) :
    (terms.foldl (fun sum (c, t) => sum + c.scale t) sum).get k =
      sum.get k + (terms.map fun (c, t) => c.get k * t).sum := by
  induction terms generalizing sum with
  | nil => simp
  | cons term terms ih =>
    rw [List.foldl_cons, ih, get_add, get_scale, List.map_cons, List.sum_cons, add_assoc]

end

variable [Field K] [LinearOrder K] [FloorSemiring K] [FieldFunctions K]

/-! ### The product of the lighting with a column -/

namespace LightCoeffs

open TransportTable

/-- The product is made channel by channel, over the coefficients that both have. -/
theorem get_dot (l : LightCoeffs K) (t : List K) (k : Channel) :
    (l.dot t).get k = (List.zipWith (· * ·) (l.channel k) t).sum := by
  rw [dot, get_foldl_scale, get_black, zero_add, channel, List.zipWith_map_left, List.zip,
    List.map_zipWith]

theorem dot_combine_right (l : LightCoeffs K) (a b : K) {t t' : List K}
    (h : t.length = t'.length) :
    l.dot (List.zipWith (fun x y => a * x + b * y) t t') =
      (l.dot t).scale a + (l.dot t').scale b := by
  refine Color.ext_get fun k => ?_
  rw [get_dot, sum_mul_combine a b _ h, get_add, get_scale, get_scale, get_dot, get_dot, mul_comm a,
    mul_comm b]

theorem dot_combine_left {l l' : LightCoeffs K} (h : l.length = l'.length) (a b : K) (t : List K) :
    (l.combine a b l').dot t = (l.dot t).scale a + (l'.dot t).scale b := by
  refine Color.ext_get fun k => ?_
  have hlen : (l.channel k).length = (l'.channel k).length := by
    rw [channel, channel, List.length_map, List.length_map]
    exact h
  have hcomm (u : List K) : List.zipWith (· * ·) u t = List.zipWith (· * ·) t u :=
    List.zipWith_comm_of_comm mul_comm
  rw [get_dot, channel_combine, hcomm, sum_mul_combine a b t hlen, get_add, get_scale, get_scale,
    get_dot, get_dot, hcomm, hcomm, mul_comm a, mul_comm b]

theorem dot_replicate_zero (l : LightCoeffs K) (n : Nat) :
    l.dot (List.replicate n 0) = Color.black := by
  have hzero (u : List K) : (List.zipWith (· * ·) u (List.replicate n 0)).sum = 0 := by
    induction n generalizing u with
    | zero => simp
    | succ n ih => cases u <;> simp [List.replicate_succ, ih]
  exact Color.ext_get fun k => by rw [get_dot, hzero, get_black]

/-! ### Blending -/

theorem addWeighted_eq_zipWith (w : K) {out ts : List K} (h : out.length = ts.length) :
    addWeighted w out ts = List.zipWith (fun x y => 1 * x + w * y) out ts := by
  induction out generalizing ts with
  | nil =>
    rw [List.eq_nil_of_length_eq_zero h.symm]
    rfl
  | cons o out ih =>
    obtain ⟨t, ts, rfl⟩ := List.exists_cons_of_length_eq_add_one h.symm
    rw [addWeighted, ih (Nat.succ.inj h), List.zipWith_cons_cons, one_mul]

theorem dot_addWeighted (l : LightCoeffs K) (w : K) {out ts : List K}
    (h : out.length = ts.length) :
    l.dot (addWeighted w out ts) = l.dot out + (l.dot ts).scale w := by
  rw [addWeighted_eq_zipWith w h, dot_combine_right l 1 w h]
  refine Color.ext_get fun k => ?_
  simp only [get_add, get_scale, mul_one]

/-- The blend of three colors. -/
def blendColors (c0 c1 c2 : Color K) (weights : Vec3 K) : Color K :=
  Color.black + c0.scale weights.x + c1.scale weights.y + c2.scale weights.z

theorem blendColors_combine (a b : K) (c0 c1 c2 d0 d1 d2 : Color K) (weights : Vec3 K) :
    blendColors (c0.scale a + d0.scale b) (c1.scale a + d1.scale b) (c2.scale a + d2.scale b)
        weights =
      (blendColors c0 c1 c2 weights).scale a + (blendColors d0 d1 d2 weights).scale b := by
  refine Color.ext_get fun k => ?_
  simp only [blendColors, get_add, get_scale, get_black]
  ring

/-- The product with a blend of columns is the blend of the products. -/
theorem dot_blend (l : LightCoeffs K) {n : Nat} {c0 c1 c2 : List K} (h0 : c0.length = n)
    (h1 : c1.length = n) (h2 : c2.length = n) (weights : Vec3 K) :
    l.dot (blend c0 c1 c2 weights 1 (List.replicate n 0)) =
      blendColors (l.dot c0) (l.dot c1) (l.dot c2) weights := by
  have hlen (w : K) (out ts : List K) (hout : out.length = n) :
      (addWeighted w out ts).length = n := (length_addWeighted w out ts).trans hout
  have hzero : (List.replicate n (0 : K)).length = n := List.length_replicate
  rw [blend, dot_addWeighted _ _ ((hlen _ _ _ (hlen _ _ _ hzero)).trans h2.symm),
    dot_addWeighted _ _ ((hlen _ _ _ hzero).trans h1.symm),
    dot_addWeighted _ _ (hzero.trans h0.symm), dot_replicate_zero]
  simp only [mul_one]
  rfl

end LightCoeffs

namespace Integrator

open LightCoeffs

/-! ### The corners of a hit -/

section

variable {light light' : LightCoeffs K} {table table' : TransportTable K} {hit : SurfaceHit K}

theorem blendLight_eq (light : LightCoeffs K) (table : TransportTable K) (hit : SurfaceHit K) :
    blendLight light table hit =
      table.column hit.corners.i0.toNat >>= fun c0 =>
        table.column hit.corners.i1.toNat >>= fun c1 =>
          table.column hit.corners.i2.toNat >>= fun c2 =>
            .ok (blendColors (light.dot c0) (light.dot c1) (light.dot c2) hit.weights) := by
  simp only [blendLight, Triangle.toList, Vec3.toList, List.zip_cons_cons, List.foldlM_cons]
  cases table.column hit.corners.i0.toNat with
  | error e => rfl
  | ok c0 =>
    cases table.column hit.corners.i1.toNat with
    | error e => rfl
    | ok c1 =>
      cases table.column hit.corners.i2.toNat with
      | error e => rfl
      | ok c2 => rfl

/-- Without a column for each of the corners no color comes out. -/
theorem blendLight_eq_violate (h : ¬ table.HasCorners hit.corners) (light : LightCoeffs K) :
    blendLight light table hit = violate .indexOutOfRange := by
  rw [blendLight_eq]
  by_cases h0 : table.HasColumn hit.corners.i0.toNat
  · obtain ⟨c0, hc0, -⟩ := h0.exists_column
    rw [hc0, Outcome.bind_ok]
    by_cases h1 : table.HasColumn hit.corners.i1.toNat
    · obtain ⟨c1, hc1, -⟩ := h1.exists_column
      have h2 : ¬ table.HasColumn hit.corners.i2.toNat := fun h2 => h ⟨h0, h1, h2⟩
      rw [hc1, Outcome.bind_ok, TransportTable.column_eq_violate h2]
      rfl
    · rw [TransportTable.column_eq_violate h1]
      rfl
  · rw [TransportTable.column_eq_violate h0]
    rfl

/-- With them the blend of the colors is the color of the blend. -/
theorem blendLight_eq_dot (h : table.HasCorners hit.corners) (light : LightCoeffs K) :
    ∃ column, table.addBlend hit.corners hit.weights 1 (List.replicate table.shLen 0) = .ok column ∧
      blendLight light table hit = .ok (light.dot column) := by
  obtain ⟨c0, c1, c2, h0, h1, h2, hlen0, hlen1, hlen2⟩ := h.exists_columns
  refine ⟨_, TransportTable.addBlend_eq h0 h1 h2 _ _ _, ?_⟩
  rw [blendLight_eq, h0, Outcome.bind_ok, h1, Outcome.bind_ok, h2, Outcome.bind_ok,
    dot_blend light hlen0 hlen1 hlen2]

/-- The color is linear in the lighting. -/
theorem blendLight_combine_light (a b : K) (h : light.length = light'.length)
    (table : TransportTable K) (hit : SurfaceHit K) :
    blendLight (light.combine a b light') table hit =
      combineColors a b (blendLight light table hit) (blendLight light' table hit) := by
  by_cases hcorners : table.HasCorners hit.corners
  · obtain ⟨c0, c1, c2, h0, h1, h2, -⟩ := hcorners.exists_columns
    simp only [blendLight_eq, h0, h1, h2, Outcome.bind_ok, dot_combine_left h, blendColors_combine]
    rfl
  · rw [blendLight_eq_violate hcorners, blendLight_eq_violate hcorners,
      blendLight_eq_violate hcorners]
    rfl

/-- The color is linear in the columns. -/
theorem blendLight_combine_table (a b : K) (h : table.SameShape table') (light : LightCoeffs K)
    (hit : SurfaceHit K) :
    blendLight light (table.combine a b table') hit =
      combineColors a b (blendLight light table hit) (blendLight light table' hit) := by
  rw [TransportTable.combine]
  -- A corner that has no column in one of the tables has none in the others, so all of them fail.
  have hcorners' := h.hasCorners_iff hit.corners
  by_cases hcorners : table.HasCorners hit.corners
  · obtain ⟨c0, c1, c2, hc0, hc1, hc2, hlen0, hlen1, hlen2⟩ := hcorners.exists_columns
    obtain ⟨d0, d1, d2, hd0, hd1, hd2, hlen⟩ := (hcorners'.2 hcorners).exists_columns
    rw [h.shLen_eq] at hlen
    simp only [blendLight_eq, h.column_zipWith, hc0, hc1, hc2, hd0, hd1, hd2, Outcome.bind_ok]
    rw [dot_combine_right light a b (hlen0.trans hlen.1.symm),
      dot_combine_right light a b (hlen1.trans hlen.2.1.symm),
      dot_combine_right light a b (hlen2.trans hlen.2.2.symm), blendColors_combine]
    rfl
  · rw [blendLight_eq_violate hcorners, blendLight_eq_violate (mt hcorners'.1 hcorners),
      blendLight_eq_violate (mt (h.zipWith_right.hasCorners_iff hit.corners).1 hcorners)]
    rfl

/-! ### The light along a ray -/

/-- The color at what a ray hits. -/
def answerLight (light : LightCoeffs K) (tables : List (TransportTable K)) :
    Option (SurfaceHit K) → Outcome (Color K)
  | none => .ok .black
  | some hit =>
    match tables[hit.mesh]? with
    | none => .ok .black
    | some table => blendLight light table hit

theorem radiance_eq (prt : Integrator K) (caster : RayCaster K) (ray : Ray K) :
    prt.radiance caster ray =
      match prt.shadingLight with
      | none => .ok .black
      | some light => caster.closest ray >>= answerLight light prt.transport := by
  rw [radiance]
  cases prt.shadingLight with
  | none => rfl
  | some light =>
    refine Outcome.bind_congr fun answer _ => ?_
    cases answer with
    | none => rfl
    | some hit => rfl

theorem combineColors_black (a b : K) :
    combineColors a b (.ok .black) (.ok .black) = .ok (.black : Color K) := by
  refine congrArg Except.ok (Color.ext_get fun k => ?_)
  rw [get_add, get_scale, get_scale, get_black, zero_mul, zero_mul, add_zero]

theorem answerLight_combine_light (a b : K) (h : light.length = light'.length)
    (tables : List (TransportTable K)) (answer : Option (SurfaceHit K)) :
    answerLight (light.combine a b light') tables answer =
      combineColors a b (answerLight light tables answer) (answerLight light' tables answer) := by
  cases answer with
  | none => exact (combineColors_black a b).symm
  | some hit =>
    simp only [answerLight]
    cases tables[hit.mesh]? with
    | none => exact (combineColors_black a b).symm
    | some table => exact blendLight_combine_light a b h table hit

theorem answerLight_combine_tables (a b : K) {tables tables' : List (TransportTable K)}
    (h : List.Forall₂ TransportTable.SameShape tables tables') (light : LightCoeffs K)
    (answer : Option (SurfaceHit K)) :
    answerLight light (combineTables a b tables tables') answer =
      combineColors a b (answerLight light tables answer) (answerLight light tables' answer) := by
  cases answer with
  | none => exact (combineColors_black a b).symm
  | some hit =>
    have hlen := h.length_eq
    simp only [answerLight, combineTables, List.getElem?_zipWith]
    rcases lt_or_ge hit.mesh tables.length with hi | hi
    · have hshape := (List.forall₂_iff_get.1 h).2 hit.mesh hi (hlen ▸ hi)
      rw [List.getElem?_eq_getElem hi, List.getElem?_eq_getElem (hlen ▸ hi)]
      exact blendLight_combine_table a b hshape light hit
    · rw [List.getElem?_eq_none hi, List.getElem?_eq_none (hlen ▸ hi)]
      exact (combineColors_black a b).symm

/-- **Shading a hit.** The light along a ray is black without lighting, without a hit, and without a
table for the mesh that is hit. Otherwise, if the corners have columns, it is the product of the
lighting with the blend of these columns, and so it makes no difference whether columns or colors
are blended. It is linear in the lighting and in the tables. -/
theorem radiance_blends (prt : Integrator K) (caster : RayCaster K) (ray : Ray K) :
    (prt.shadingLight = none → prt.radiance caster ray = .ok .black) ∧
    (caster.closest ray = .ok none → prt.radiance caster ray = .ok .black) ∧
    (∀ hit, caster.closest ray = .ok (some hit) → prt.transport[hit.mesh]? = none →
      prt.radiance caster ray = .ok .black) ∧
    (∀ light hit table, prt.shadingLight = some light → caster.closest ray = .ok (some hit) →
      prt.transport[hit.mesh]? = some table → table.HasCorners hit.corners →
        ∃ column, table.addBlend hit.corners hit.weights 1 (List.replicate table.shLen 0) =
            .ok column ∧
          prt.radiance caster ray = .ok (light.dot column)) ∧
    (∀ (a b : K) (light light' : LightCoeffs K), light.length = light'.length →
      { prt with shadingLight := some (light.combine a b light') }.radiance caster ray =
        combineColors a b ({ prt with shadingLight := some light }.radiance caster ray)
          ({ prt with shadingLight := some light' }.radiance caster ray)) ∧
    ∀ (a b : K) (tables tables' : List (TransportTable K)),
      List.Forall₂ TransportTable.SameShape tables tables' →
        { prt with transport := combineTables a b tables tables' }.radiance caster ray =
          combineColors a b ({ prt with transport := tables }.radiance caster ray)
            ({ prt with transport := tables' }.radiance caster ray) := by
  rw [radiance_eq]
  refine ⟨fun h => ?_, fun h => ?_, fun hit h htable => ?_, ?_, ?_, ?_⟩
  · rw [h]
  · cases prt.shadingLight with
    | none => rfl
    | some light =>
      rw [h]
      rfl
  · cases prt.shadingLight with
    | none => rfl
    | some light => simp only [h, Outcome.bind_ok, answerLight, htable]
  · intro light hit table hlight h htable hcorners
    simp only [hlight, h, Outcome.bind_ok, answerLight, htable]
    exact blendLight_eq_dot hcorners light
  · intro a b light light' hlen
    rw [radiance_eq, radiance_eq, radiance_eq, combineColors_bind]
    exact Outcome.bind_congr fun answer _ => answerLight_combine_light a b hlen _ answer
  · intro a b tables tables' hshape
    rw [radiance_eq, radiance_eq, radiance_eq]
    cases prt.shadingLight with
    | none => exact (combineColors_black a b).symm
    | some light =>
      dsimp only
      rw [combineColors_bind]
      exact Outcome.bind_congr fun answer _ =>
        answerLight_combine_tables a b hshape light answer

end

/-! ### A triangle with only two vertices -/

namespace Doubled

/-- The columns of two vertices. -/
noncomputable def columns : TransportTable ℝ :=
  ⟨2, #[1, 2, 3, 4]⟩

/-- Lighting of one color more than a column is long. -/
noncomputable def colors : LightCoeffs ℝ :=
  ⟨[⟨1, 0, 2⟩, ⟨1, 1, 0⟩, ⟨5, 5, 5⟩]⟩

/-- A hit where two corners are one vertex. -/
noncomputable def hit (mesh : Nat) : SurfaceHit ℝ :=
  ⟨mesh, ⟨1, 0, 1⟩, ⟨1 / 2, 1 / 4, 1 / 4⟩, ⟨0, 0, 0⟩⟩

/-- The same answer to all rays. -/
def caster (answer : Option (SurfaceHit ℝ)) : RayCaster ℝ :=
  ⟨fun _ => .ok answer.isSome, fun _ => .ok answer⟩

/-- A ray down. -/
def ray : Ray ℝ :=
  ⟨⟨0, 0, 1⟩, ⟨0, 0, -1⟩⟩

/-- An integrator with these columns, and perhaps with lighting. -/
noncomputable def integrator (light : Option (LightCoeffs ℝ)) : Integrator ℝ :=
  ⟨⟨.unshadowed, 1, 1, 0, 1, "faces", "png", false, "coefficients", none⟩, light, light, [columns]⟩

theorem dot_colors (x y : ℝ) : colors.dot [x, y] = ⟨x + y, y, 2 * x⟩ := by
  refine Color.ext_get fun k => ?_
  rw [get_dot]
  cases k <;> simp [LightCoeffs.channel, colors, Color.get]

end Doubled

open Doubled in
/-- Both corners at the second vertex count, and the last color of the lighting does not. -/
theorem radiance_blends_doubled :
    (integrator none).radiance (caster (some (hit 0))) ray = .ok .black ∧
    (integrator (some colors)).radiance (caster none) ray = .ok .black ∧
    (integrator (some colors)).radiance (caster (some (hit 1))) ray = .ok .black ∧
    (integrator (some colors)).radiance (caster (some (hit 0))) ray = .ok ⟨6, 7 / 2, 5⟩ ∧
    (integrator (some (colors.combine 2 3 colors))).radiance (caster (some (hit 0))) ray =
      .ok ⟨30, 35 / 2, 25⟩ ∧
    { integrator (some colors) with
      transport := combineTables 2 3 [columns] [columns] }.radiance (caster (some (hit 0))) ray =
      .ok ⟨30, 35 / 2, 25⟩ := by
  have hlit (answer : Option (SurfaceHit ℝ)) :=
    radiance_blends (integrator (some colors)) (caster answer) ray
  have hcolor : (integrator (some colors)).radiance (caster (some (hit 0))) ray =
      .ok ⟨6, 7 / 2, 5⟩ := by
    have hcorners : columns.HasCorners (hit 0).corners := by
      simp [TransportTable.HasCorners, TransportTable.HasColumn, columns, hit]
    obtain ⟨column, hcolumn, hcolor⟩ :=
      (hlit (some (hit 0))).2.2.2.1 colors (hit 0) columns rfl rfl rfl hcorners
    have h0 : columns.column 0 = .ok [1, 2] := rfl
    have h1 : columns.column 1 = .ok [3, 4] := rfl
    cases hcolumn.symm.trans (TransportTable.addBlend_eq h1 h0 h1 _ _ _)
    have hlen (x y : ℝ) : [x, y].length = 2 := rfl
    have hblend := dot_blend colors (hlen 3 4) (hlen 1 2) (hlen 3 4) (hit 0).weights
    refine hcolor.trans (congrArg Except.ok (hblend.trans (Color.ext_get fun k => ?_)))
    rw [dot_colors, dot_colors]
    simp only [blendColors, get_add, get_scale, get_black, hit]
    cases k <;> norm_num [Color.get]
  have hcombined : combineColors 2 3
      ((integrator (some colors)).radiance (caster (some (hit 0))) ray)
      ((integrator (some colors)).radiance (caster (some (hit 0))) ray) =
        .ok ⟨30, 35 / 2, 25⟩ := by
    rw [hcolor]
    refine congrArg Except.ok (Color.ext_get fun k => ?_)
    rw [get_add, get_scale, get_scale]
    cases k <;> norm_num [Color.get]
  exact ⟨(radiance_blends _ _ ray).1 rfl, (hlit none).2.1 rfl, (hlit _).2.2.1 (hit 1) rfl rfl,
    hcolor, ((hlit _).2.2.2.2.1 2 3 colors colors rfl).trans hcombined,
    ((hlit _).2.2.2.2.2 2 3 [columns] [columns] (.cons ⟨rfl, rfl⟩ .nil)).trans hcombined⟩

end Integrator

end RadianceTransfer
