import Mathlib
import RadianceTransfer.Proofs.Bvh.Division
import RadianceTransfer.Proofs.Bvh.Writing
import RadianceTransfer.Proofs.Number.Double
import RadianceTransfer.Proofs.Outcome
import RadianceTransfer.Scene

/-!
# Progress

Over double words a division need not leave anything on both sides. Coordinates can be infinite or
no numbers, and centers of finite triangles can overflow. If the centers of many triangles spread
along an axis by something that is no finite number, then wherever a center lies between the
outermost ones, its place relative to them is zero or no number, and all triangles are in the first
bucket. The division takes them all to one side, and again, without end.

If they spread by a finite number, it is not zero, for words that differ have a difference. So the
outermost centers are in the first and in the last bucket, as over exact numbers.

## Main definitions

* `FiniteSpread`: the centers spread by a finite number.
* `MakesProgress`: both parts of a division get something, and less than the whole.
* `HandedDown`: the triangles of all calls that building makes.
* `Ends`: the recursion ends.

## Main statements

* `makesProgress_iff`: when a division makes progress.
* `Hierarchy.build_progress`: building makes progress, and ends, if and only if the centers of many
  triangles always spread by a finite number.
-/

namespace RadianceTransfer.Bvh

/-! ### The outermost centers -/

variable {ps : List (Primitive Float)}

/-- The outermost centers are centers, and if they do not coincide one is less than the other. -/
theorem exists_outermost_words (hne : ps ≠ []) (i : Axis) :
    (∃ p ∈ ps, (centroidBox ps).lower.get i = p.centroid.get i) ∧
      (∃ p ∈ ps, (centroidBox ps).upper.get i = p.centroid.get i) ∧
      ((centroidBox ps).lower.get i < (centroidBox ps).upper.get i ∨
        (centroidBox ps).lower.get i = (centroidBox ps).upper.get i) := by
  induction ps using List.reverseRecOn with
  | nil => exact absurd rfl hne
  | append_singleton ps p ih =>
    have hbox : centroidBox (ps ++ [p]) = (centroidBox ps).addPoint p.centroid := by
      rw [centroidBox, List.foldl_append]
      rfl
    have hlower : (centroidBox (ps ++ [p])).lower.get i =
        Scalar.least ((centroidBox ps).lower.get i) (p.centroid.get i) := by
      rw [hbox]
      exact Vec3.get_min _ _ i
    have hupper : (centroidBox (ps ++ [p])).upper.get i =
        Scalar.greatest ((centroidBox ps).upper.get i) (p.centroid.get i) := by
      rw [hbox]
      exact Vec3.get_max _ _ i
    have hmem : p ∈ ps ++ [p] := List.mem_append_right ps List.mem_cons_self
    have hkeep {x : Float} (h : ∃ q ∈ ps, x = q.centroid.get i) :
        ∃ q ∈ ps ++ [p], x = q.centroid.get i := by
      obtain ⟨q, hq, hx⟩ := h
      exact ⟨q, List.mem_append_left [p] hq, hx⟩
    -- The corners of the empty box are at infinity, and no center is beyond them.
    have hps (h : (centroidBox ps).lower.get i < p.centroid.get i) : ps ≠ [] := by
      rintro rfl
      exact Double.not_infinity_lt (p.centroid.get i) (by cases i <;> exact h)
    have hps' (h : p.centroid.get i < (centroidBox ps).upper.get i) : ps ≠ [] := by
      rintro rfl
      exact Double.not_lt_neg_infinity (p.centroid.get i) (by cases i <;> exact h)
    rw [hlower, hupper, Scalar.least, Scalar.greatest]
    split_ifs with hlo hhi hhi
    · obtain ⟨hl, hu, h⟩ := ih (hps hlo)
      exact ⟨hkeep hl, hkeep hu, h⟩
    · exact ⟨hkeep (ih (hps hlo)).1, ⟨p, hmem, rfl⟩, .inl hlo⟩
    · exact ⟨⟨p, hmem, rfl⟩, hkeep (ih (hps' hhi)).2.1, .inl hhi⟩
    · exact ⟨⟨p, hmem, rfl⟩, ⟨p, hmem, rfl⟩, .inr rfl⟩

/-! ### Buckets -/

/-- The centers of some triangles spread by a finite number along the axis of division. -/
def FiniteSpread (ps : List (Primitive Float)) : Prop :=
  ((centroidBox ps).diagonal.get (centroidBox ps).maxDim).isFinite = true

theorem bucketOf_eq_word (bounds : Box Float) (axis : Axis) (p : Primitive Float) :
    bucketOf bounds axis p = min (Float.ofNat bucketCount * Box.relative (bounds.lower.get axis)
      (bounds.upper.get axis) (p.centroid.get axis)).toUInt64.toNat (bucketCount - 1) := by
  rw [bucketOf, get_offset]
  rfl

/-- A center whose relative place is zero or no number is in the first bucket. -/
theorem bucketOf_of_vanishes {bounds : Box Float} {axis : Axis} {p : Primitive Float}
    (h : Double.Vanishes (Box.relative (bounds.lower.get axis) (bounds.upper.get axis)
      (p.centroid.get axis))) : bucketOf bounds axis p = 0 := by
  rw [bucketOf_eq_word, (h.mul (Float.ofNat bucketCount) (by decide)).toUInt64]
  rfl

/-- If the centers spread by no finite number, all of them are in the first bucket. -/
theorem bucketOf_of_not_finiteSpread (hne : ps ≠ []) (hspan : ¬ FiniteSpread ps)
    (hspread : ¬ ((centroidBox ps).upper.get (centroidBox ps).maxDim ==
      (centroidBox ps).lower.get (centroidBox ps).maxDim) = true) (p : Primitive Float) :
    bucketOf (centroidBox ps) (centroidBox ps).maxDim p = 0 := by
  obtain ⟨-, -, hbounds⟩ := exists_outermost_words hne (centroidBox ps).maxDim
  rw [FiniteSpread, Box.diagonal, Vec3.get_sub] at hspan
  generalize (centroidBox ps).maxDim = axis at *
  refine bucketOf_of_vanishes ?_
  rw [Box.relative]
  split_ifs with hlt
  · exact Double.vanishes_div _ hspan
  · rw [hbounds.resolve_left hlt] at hspread ⊢
    exact Double.vanishes_sub_nan _ (Double.unpacked_of_not_beq_self hspread)

/-- If they spread by a finite number, the outermost are in the first and in the last bucket. -/
theorem exists_outermost_of_finiteSpread (hne : ps ≠ []) (hspan : FiniteSpread ps)
    (hspread : ¬ ((centroidBox ps).upper.get (centroidBox ps).maxDim ==
      (centroidBox ps).lower.get (centroidBox ps).maxDim) = true) :
    (∃ p ∈ ps, bucketOf (centroidBox ps) (centroidBox ps).maxDim p = 0) ∧
      ∃ q ∈ ps, bucketOf (centroidBox ps) (centroidBox ps).maxDim q = 11 := by
  obtain ⟨⟨p, hp, hlower⟩, ⟨q, hq, hupper⟩, hbounds⟩ :=
    exists_outermost_words hne (centroidBox ps).maxDim
  rw [FiniteSpread, Box.diagonal, Vec3.get_sub] at hspan
  generalize (centroidBox ps).maxDim = axis at *
  have hlt : (centroidBox ps).lower.get axis < (centroidBox ps).upper.get axis := by
    refine hbounds.resolve_right fun heq => ?_
    have hfinite := Double.isFinite_of_sub hspan
    rw [← heq] at hspread
    rw [Double.isFinite_eq, Double.unpacked_of_not_beq_self hspread] at hfinite
    cases hfinite
  have hne := Double.sub_ne_zero hlt
  refine ⟨⟨p, hp, bucketOf_of_vanishes ?_⟩, q, hq, ?_⟩
  · rw [← hlower, Box.relative, if_pos hlt]
    exact Double.Vanishes.div
      (.inr ⟨_, Double.sub_self_of_finite (Double.isFinite_of_sub hspan)⟩) hne
  · rw [bucketOf_eq_word, ← hupper, Box.relative, if_pos hlt,
      Double.div_self_of_finite hspan hne]
    decide

/-! ### One division -/

variable {a : Arrangement} {m : Nat} {l r : List (Primitive Float)} {axis : Axis}

/-- Both parts of a division get something, and less than the whole. -/
def MakesProgress (ps l r : List (Primitive Float)) : Prop :=
  (l ≠ [] ∧ l.length < ps.length) ∧ r ≠ [] ∧ r.length < ps.length

/-- A division loses no triangle, whatever the centers are. -/
theorem perm_of_split (ha : a.Lawful) (h : split a m ps = .halves axis l r) :
    (l ++ r).Perm ps := by
  rcases Nat.lt_or_ge 4 ps.length with hmany | hfew
  · exact (split_many ha hmany h).1
  · exact (split_few ha hfew h).1

/-- Of many triangles that spread by no finite number, none is on the right. -/
theorem right_eq_nil (ha : a.Lawful) (hne : ps ≠ []) (hmany : 4 < ps.length)
    (hspan : ¬ FiniteSpread ps) (h : split a m ps = .halves axis l r) : r = [] := by
  obtain ⟨-, hspread⟩ := spread_of_split h
  obtain ⟨-, best, -, -, hbest⟩ := split_many ha hmany h
  refine List.eq_nil_iff_forall_not_mem.2 fun p hp => ?_
  have hbucket := hbest p hp
  rw [bucketOf_of_not_finiteSpread hne hspan hspread] at hbucket
  cases hbucket

/-- A division leaves something on both sides if there are few triangles or if their centers spread
by a finite number, and only then. -/
theorem makesProgress_iff (ha : a.Lawful) (hne : ps ≠ []) (h : split a m ps = .halves axis l r) :
    MakesProgress ps l r ↔ ps.length ≤ 4 ∨ FiniteSpread ps := by
  obtain ⟨-, hspread⟩ := spread_of_split h
  constructor
  · rintro ⟨-, hright, -⟩
    by_contra! hnot
    exact hright (right_eq_nil ha hne hnot.1 hnot.2 h)
  · intro hspan
    have hhalves : Halves ps l r := by
      rcases Nat.lt_or_ge 4 ps.length with hmany | hfew
      · obtain ⟨hfirst, hlast⟩ := exists_outermost_of_finiteSpread hne
          (hspan.resolve_left (not_le.2 hmany)) hspread
        exact halves_of_many ha hmany hfirst hlast h
      · exact halves_of_few ha hne hfew h
    exact ⟨⟨hhalves.left, hhalves.length_lt.1⟩, hhalves.right, hhalves.length_lt.2⟩

/-- A division that makes no progress takes everything to the left. -/
theorem makesProgress_or_left (ha : a.Lawful) (hne : ps ≠ [])
    (h : split a m ps = .halves axis l r) : MakesProgress ps l r ∨ l.Perm ps ∧ r = [] := by
  by_cases hprogress : MakesProgress ps l r
  · exact .inl hprogress
  · rw [makesProgress_iff ha hne h, not_or, not_le] at hprogress
    have hright := right_eq_nil ha hne hprogress.1 hprogress.2 h
    have hperm := perm_of_split ha h
    rw [hright, List.append_nil] at hperm
    exact .inr ⟨hperm, hright⟩

/-- Dividing leaves a list as it is if all of it satisfies the test. -/
def Arrangement.KeepsWhole (a : Arrangement) : Prop :=
  ∀ {β : Type} (p : β → Bool) (xs : List β), (∀ x ∈ xs, p x = true) → (a.divide p xs).1 = xs

theorem Arrangement.keepsWhole_stable : stable.KeepsWhole := by
  intro β p xs h
  show (xs.partition p).1 = xs
  rw [List.partition_eq_filter_filter, List.filter_eq_self.2 h]

/-- Then a division without progress gives back what it got. -/
theorem left_eq_self (ha : a.Lawful) (hkeeps : a.KeepsWhole) (hne : ps ≠ [])
    (h : split a m ps = .halves axis l r) (hprogress : ¬ MakesProgress ps l r) : l = ps := by
  rw [makesProgress_iff ha hne h, not_or, not_le] at hprogress
  obtain ⟨best, -, hdivide⟩ := exists_divide_of_split hprogress.1 h
  obtain ⟨rfl, rfl⟩ := Prod.ext_iff.1 hdivide
  refine hkeeps _ _ fun p _ => ?_
  rw [bucketOf_of_not_finiteSpread hne hprogress.2 (spread_of_split h).2 p]
  exact decide_eq_true (Nat.zero_le best)

/-! ### All divisions -/

/-- The triangles of the calls that building makes. -/
inductive HandedDown (a : Arrangement) (m : Nat) (ps : List (Primitive Float)) :
    List (Primitive Float) → Prop where
  /-- The first call gets all triangles. -/
  | all : HandedDown a m ps ps
  /-- The first part of a division. -/
  | left {qs l r : List (Primitive Float)} {axis : Axis} (hqs : HandedDown a m ps qs)
      (h : split a m qs = .halves axis l r) : HandedDown a m ps l
  /-- The second part. -/
  | right {qs l r : List (Primitive Float)} {axis : Axis} (hqs : HandedDown a m ps qs)
      (h : split a m qs = .halves axis l r) : HandedDown a m ps r

namespace HandedDown

variable {qs rs : List (Primitive Float)}

theorem trans (hqs : HandedDown a m ps qs) (hrs : HandedDown a m qs rs) : HandedDown a m ps rs := by
  induction hrs with
  | all => exact hqs
  | left _ h ih => exact ih.left h
  | right _ h ih => exact ih.right h

theorem subset (ha : a.Lawful) (hqs : HandedDown a m ps qs) : qs ⊆ ps := by
  induction hqs with
  | all => exact List.Subset.refl ps
  | left _ h ih => exact fun p hp => ih ((perm_of_split ha h).subset (List.mem_append_left _ hp))
  | right _ h ih => exact fun p hp => ih ((perm_of_split ha h).subset (List.mem_append_right _ hp))

end HandedDown

/-- The recursion ends for some triangles: they stay together, or it ends for both parts. -/
inductive Ends (a : Arrangement) (m : Nat) : List (Primitive Float) → Prop where
  /-- A call that makes a leaf. -/
  | leaf {ps : List (Primitive Float)} (h : split a m ps = .leaf) : Ends a m ps
  /-- A call that is followed by two. -/
  | halves {ps l r : List (Primitive Float)} {axis : Axis} (h : split a m ps = .halves axis l r)
      (hl : Ends a m l) (hr : Ends a m r) : Ends a m ps

namespace Tree

theorem exists_build_of_halves (h : split a m ps = .halves axis l r)
    (hlt : l.length < ps.length ∧ r.length < ps.length) (hl : ∃ t, build a m l = .ok t)
    (hr : ∃ t, build a m r = .ok t) : ∃ t, build a m ps = .ok t := by
  obtain ⟨tl, htl⟩ := hl
  obtain ⟨tr, htr⟩ := hr
  rw [build_of_halves h hlt, htl, Outcome.bind_ok, htr]
  exact ⟨_, rfl⟩

theorem exists_build_of_handedDown (h : ∃ t, build a m ps = .ok t)
    {qs : List (Primitive Float)} (hqs : HandedDown a m ps qs) : ∃ t, build a m qs = .ok t := by
  induction hqs with
  | all => exact h
  | left _ hsplit ih =>
    obtain ⟨t, ht⟩ := ih
    obtain ⟨-, tl, -, hl, -, -⟩ := parts_of_build ht hsplit
    exact ⟨tl, hl⟩
  | right _ hsplit ih =>
    obtain ⟨t, ht⟩ := ih
    obtain ⟨-, -, tr, -, hr, -⟩ := parts_of_build ht hsplit
    exact ⟨tr, hr⟩

/-- Building ends exactly if every call that divides many triangles gets some that spread by a
finite number. -/
theorem exists_build_iff (ha : a.Lawful) (hne : ps ≠ []) :
    (∃ t, build a m ps = .ok t) ↔
      ∀ qs axis l r, HandedDown a m ps qs → split a m qs = .halves axis l r →
        qs.length ≤ 4 ∨ FiniteSpread qs := by
  constructor
  · intro h qs axis l r hqs hsplit
    obtain ⟨t, ht⟩ := exists_build_of_handedDown h hqs
    obtain ⟨⟨hl, hr⟩, -⟩ := parts_of_build ht hsplit
    have hlength := (perm_of_split ha hsplit).length_eq
    rw [List.length_append] at hlength
    refine (makesProgress_iff ha ?_ hsplit).1 ⟨⟨?_, hl⟩, ?_, hr⟩
    all_goals exact List.ne_nil_of_length_pos (by omega)
  · intro hall
    induction hn : ps.length using Nat.strong_induction_on generalizing ps with
    | _ n ih =>
      cases hsplit : split a m ps with
      | leaf => exact ⟨_, build_of_leaf hsplit⟩
      | halves axis l r =>
        obtain ⟨⟨hl, hllt⟩, hr, hrlt⟩ :=
          (makesProgress_iff ha hne hsplit).2 (hall ps axis l r .all hsplit)
        refine exists_build_of_halves hsplit ⟨hllt, hrlt⟩ ?_ ?_
        · exact ih l.length (hn ▸ hllt) hl
            (fun qs axis l r hqs => hall qs axis l r ((HandedDown.all.left hsplit).trans hqs)) rfl
        · exact ih r.length (hn ▸ hrlt) hr
            (fun qs axis l r hqs => hall qs axis l r ((HandedDown.all.right hsplit).trans hqs)) rfl

/-- Building checks that the parts get smaller, which the recursion itself does not. Where it does
not object, the recursion ends. -/
theorem ends_of_build {t : Tree Float} (h : build a m ps = .ok t) : Ends a m ps := by
  induction hn : ps.length using Nat.strong_induction_on generalizing ps t with
  | _ n ih =>
    cases hsplit : split a m ps with
    | leaf => exact .leaf hsplit
    | halves axis l r =>
      obtain ⟨⟨hllt, hrlt⟩, tl, tr, htl, htr, -⟩ := parts_of_build h hsplit
      exact .halves hsplit (ih _ (hn ▸ hllt) htl rfl) (ih _ (hn ▸ hrlt) htr rfl)

/-- It does not object where the recursion ends: a part that is not smaller is the same list, for
which the recursion would have to end first. -/
theorem exists_build_of_ends (ha : a.Lawful) (hkeeps : a.KeepsWhole) (h : Ends a m ps)
    (hne : ps ≠ []) : ∃ t, build a m ps = .ok t := by
  induction h with
  | leaf hsplit => exact ⟨_, build_of_leaf hsplit⟩
  | @halves ps l r axis hsplit _ _ ihl ihr =>
    by_cases hprogress : MakesProgress ps l r
    · obtain ⟨⟨hl, hllt⟩, hr, hrlt⟩ := hprogress
      exact exists_build_of_halves hsplit ⟨hllt, hrlt⟩ (ihl hl) (ihr hr)
    · have hleft := left_eq_self ha hkeeps hne hsplit hprogress
      exact hleft ▸ ihl (hleft ▸ hne)

end Tree

/-- If any two centers differ by a finite number, so do the outermost of some of them. -/
theorem finiteSpread_of_subset {qs : List (Primitive Float)}
    (h : ∀ p ∈ ps, ∀ q ∈ ps, ∀ i, (p.centroid.get i - q.centroid.get i).isFinite = true)
    (hne : qs ≠ []) (hsub : qs ⊆ ps) : FiniteSpread qs := by
  obtain ⟨⟨p, hp, hlower⟩, ⟨q, hq, hupper⟩, -⟩ := exists_outermost_words hne (centroidBox qs).maxDim
  rw [FiniteSpread, Box.diagonal, Vec3.get_sub, hlower, hupper]
  exact h q (hsub hq) p (hsub hp) _

/-! ### A triangle that strays -/

/-- Corners of four triangles in a row, and of a fifth one far along the first axis. -/
def strayPositions (x : Float) : Array (Vec3 Float) :=
  #[⟨0, 0, 0⟩, ⟨1, 0, 0⟩, ⟨2, 0, 0⟩, ⟨3, 0, 0⟩, ⟨4, 0, 0⟩, ⟨0, 1, 0⟩,
    ⟨x, 0, 0⟩, ⟨x, 1, 0⟩, ⟨x, 0, 1⟩]

/-- The triangles on these corners. -/
def strayTriangles : Array Triangle :=
  #[⟨0, 1, 5⟩, ⟨1, 2, 5⟩, ⟨2, 3, 5⟩, ⟨3, 4, 5⟩, ⟨6, 7, 8⟩]

/-- The mesh of these triangles. -/
def strayMesh (x : Float) : Mesh Float :=
  ⟨strayPositions x, Mesh.generateNormals (strayPositions x) strayTriangles, strayTriangles,
    Mesh.size_generateNormals _ _, by
      show ∀ t ∈ strayTriangles, t.InRange 9
      decide⟩

theorem build_strayMesh (x : Float) :
    Mesh.build (strayPositions x) none strayTriangles = .ok (strayMesh x) := by
  have hnone : Mesh.firstOutOfRange? (strayPositions x).size strayTriangles = none := by
    show Mesh.firstOutOfRange? 9 strayTriangles = none
    decide +kernel
  rw [Mesh.build]
  split
  · rename_i h
    rw [hnone] at h
    cases h
  · rfl

/-- How many triangles a division takes to the right. -/
def Split.rightSize {α : Type} : Split α → Option Nat
  | .leaf => none
  | .halves _ _ r => some r.length

theorem primitives_strayMesh_ne_nil (x : Float) : primitives #[strayMesh x] ≠ [] :=
  List.ne_nil_of_length_eq_add_one (n := 4) rfl

/-- If the corners of the fifth triangle add up to infinity, a division gives back all five. -/
theorem split_strayMesh : ∃ axis, split .stable 4 (primitives #[strayMesh 1e308]) =
    .halves axis (primitives #[strayMesh 1e308]) [] := by
  have hsize : (split .stable 4 (primitives #[strayMesh 1e308])).rightSize = some 0 := by
    decide +kernel
  cases hsplit : split .stable 4 (primitives #[strayMesh 1e308]) with
  | leaf =>
    rw [hsplit] at hsize
    cases hsize
  | halves axis l r =>
    rw [hsplit, Split.rightSize, Option.some.injEq, List.length_eq_zero_iff] at hsize
    rw [hsize] at hsplit ⊢
    have hleft := left_eq_self Arrangement.lawful_stable Arrangement.keepsWhole_stable
      (primitives_strayMesh_ne_nil 1e308) hsplit fun hprogress => hprogress.2.1 rfl
    exact ⟨axis, by rw [hleft]⟩

namespace Hierarchy

/-- There is nothing to do without triangles, and a tree is all it takes otherwise. -/
theorem exists_build_iff_tree (a : Arrangement) (meshes : Array (Mesh Float)) (m : Nat) :
    (∃ h, build a meshes m = .ok h) ↔ primitives meshes = [] ∨
      primitives meshes ≠ [] ∧ ∃ t, Tree.build a (max m 1) (primitives meshes) = .ok t := by
  by_cases hne : primitives meshes = []
  · exact iff_of_true ⟨_, build_of_eq_nil a hne m⟩ (.inl hne)
  · rw [build_eq a hne, or_iff_right hne, and_iff_right hne]
    constructor
    · rintro ⟨h, hh⟩
      obtain ⟨t, ht, -⟩ := Outcome.bind_eq_ok_iff.1 hh
      exact ⟨t, ht⟩
    · rintro ⟨t, ht⟩
      exact ⟨t.layout, Outcome.bind_eq_ok_iff.2 ⟨t, ht, rfl⟩⟩

theorem exists_build_iff (ha : a.Lawful) (meshes : Array (Mesh Float)) (m : Nat) :
    (∃ h, build a meshes m = .ok h) ↔
      ∀ qs axis l r, HandedDown a (max m 1) (primitives meshes) qs →
        split a (max m 1) qs = .halves axis l r → qs.length ≤ 4 ∨ FiniteSpread qs := by
  rw [exists_build_iff_tree]
  by_cases hne : primitives meshes = []
  · refine iff_of_true (.inl hne) fun qs axis l r hqs _ => .inl ?_
    have hsub := hqs.subset ha
    rw [hne] at hsub
    rw [List.eq_nil_of_subset_nil hsub]
    exact Nat.zero_le 4
  · rw [or_iff_right hne, and_iff_right hne, Tree.exists_build_iff ha hne]

/-- Building ends if and only if the recursion does. -/
theorem exists_build_iff_ends (ha : a.Lawful) (hkeeps : a.KeepsWhole)
    (meshes : Array (Mesh Float)) (m : Nat) :
    (∃ h, build a meshes m = .ok h) ↔
      primitives meshes = [] ∨ Ends a (max m 1) (primitives meshes) := by
  rw [exists_build_iff_tree]
  by_cases hne : primitives meshes = []
  · exact iff_of_true (.inl hne) (.inl hne)
  · rw [or_iff_right hne, or_iff_right hne, and_iff_right hne]
    exact ⟨fun ⟨t, ht⟩ => Tree.ends_of_build ht,
      fun h => Tree.exists_build_of_ends ha hkeeps h hne⟩

/-- A scene gets built if its hierarchy does. -/
theorem exists_scene_iff (a : Arrangement) (meshes : Array (Mesh Float)) :
    (∃ s, Scene.build a meshes = .ok s) ↔ ∃ h, build a meshes Scene.maxPerLeaf = .ok h := by
  constructor
  · rintro ⟨s, hs⟩
    obtain ⟨h, hh, -⟩ := Outcome.bind_eq_ok_iff.1 hs
    exact ⟨h, hh⟩
  · rintro ⟨h, hh⟩
    exact ⟨_, Outcome.bind_eq_ok_iff.2 ⟨h, hh, rfl⟩⟩

/-- If any two centers differ by a finite number along every axis, building ends. -/
theorem exists_build_of_finite (ha : a.Lawful) {meshes : Array (Mesh Float)}
    (h : ∀ p ∈ primitives meshes, ∀ q ∈ primitives meshes, ∀ i,
      (p.centroid.get i - q.centroid.get i).isFinite = true) (m : Nat) :
    ∃ h, build a meshes m = .ok h := by
  refine (exists_build_iff ha meshes m).2 fun qs axis l r hqs hsplit => ?_
  by_cases hne : qs = []
  · rw [hne]
    exact .inl (Nat.zero_le 4)
  · exact .inr (finiteSpread_of_subset h hne (hqs.subset ha))

/-- A call that divides makes progress if it gets few triangles or their centers spread by a finite
number, and takes everything to the left otherwise. Building ends if all calls make progress, and
only then; so it ends if any two centers differ by a finite number along every axis. -/
theorem build_progress (ha : a.Lawful) (meshes : Array (Mesh Float)) (m : Nat) :
    (∀ qs axis l r, HandedDown a (max m 1) (primitives meshes) qs → qs ≠ [] →
      split a (max m 1) qs = .halves axis l r →
        (MakesProgress qs l r ↔ qs.length ≤ 4 ∨ FiniteSpread qs) ∧
          (MakesProgress qs l r ∨ l.Perm qs ∧ r = [])) ∧
    ((∃ h, build a meshes m = .ok h) ↔
      ∀ qs axis l r, HandedDown a (max m 1) (primitives meshes) qs →
        split a (max m 1) qs = .halves axis l r → qs.length ≤ 4 ∨ FiniteSpread qs) ∧
    (a.KeepsWhole → ((∃ h, build a meshes m = .ok h) ↔
      primitives meshes = [] ∨ Ends a (max m 1) (primitives meshes))) ∧
    ((∃ s, Scene.build a meshes = .ok s) ↔ ∃ h, build a meshes Scene.maxPerLeaf = .ok h) ∧
    ((∀ p ∈ primitives meshes, ∀ q ∈ primitives meshes, ∀ i,
        (p.centroid.get i - q.centroid.get i).isFinite = true) →
      (∃ h, build a meshes m = .ok h) ∧ ∃ s, Scene.build a meshes = .ok s) := by
  refine ⟨fun qs axis l r _ hne h => ⟨makesProgress_iff ha hne h, makesProgress_or_left ha hne h⟩,
    exists_build_iff ha meshes m, fun hkeeps => exists_build_iff_ends ha hkeeps meshes m,
    exists_scene_iff a meshes, fun h => ⟨exists_build_of_finite ha h m, ?_⟩⟩
  exact (exists_scene_iff a meshes).2 (exists_build_of_finite ha h Scene.maxPerLeaf)

theorem build_progress_stray_five :
    Arrangement.stable.Lawful ∧ Arrangement.stable.KeepsWhole ∧
      (∃ h, build .stable #[strayMesh 5] 4 = .ok h) ∧
      Ends .stable 4 (primitives #[strayMesh 5]) ∧
      ∃ s, Scene.build .stable #[strayMesh 5] = .ok s := by
  obtain ⟨-, -, hends, -, hbuild⟩ := build_progress Arrangement.lawful_stable #[strayMesh 5] 4
  have hfinite : ∀ i ∈ [Axis.x, .y, .z], ∀ p ∈ primitives #[strayMesh 5],
      ∀ q ∈ primitives #[strayMesh 5], (p.centroid.get i - q.centroid.get i).isFinite = true := by
    decide +kernel
  obtain ⟨hhierarchy, hscene⟩ := hbuild fun p hp q hq i =>
    hfinite i (by cases i <;> decide) p hp q hq
  exact ⟨Arrangement.lawful_stable, Arrangement.keepsWhole_stable, hhierarchy,
    ((hends Arrangement.keepsWhole_stable).1 hhierarchy).resolve_left
      (primitives_strayMesh_ne_nil 5), hscene⟩

/-- The center of the last triangle is at infinity, since the sum of two corners is. The division
gives back what it got and leaves nothing on the right, so the recursion does not end. -/
theorem build_endless :
    Mesh.build (strayPositions 1e308) none strayTriangles = .ok (strayMesh 1e308) ∧
      (∃ axis, split .stable 4 (primitives #[strayMesh 1e308]) =
        .halves axis (primitives #[strayMesh 1e308]) []) ∧
      ¬ Ends .stable 4 (primitives #[strayMesh 1e308]) ∧
      build .stable #[strayMesh 1e308] 4 = violate .capacity ∧
      Scene.build .stable #[strayMesh 1e308] = violate .capacity := by
  obtain ⟨axis, hsplit⟩ := split_strayMesh
  have htree : Tree.build .stable (max 4 1) (primitives #[strayMesh 1e308]) = violate .capacity :=
    Tree.build_eq_violate hsplit fun hlt => lt_irrefl _ hlt.1
  have hbuild : build .stable #[strayMesh 1e308] 4 = violate .capacity := by
    rw [build_eq _ (primitives_strayMesh_ne_nil 1e308), htree]
    rfl
  refine ⟨build_strayMesh 1e308, ⟨axis, hsplit⟩, fun hends => ?_, hbuild, ?_⟩
  · obtain ⟨h, hh⟩ := (exists_build_iff_ends Arrangement.lawful_stable
      Arrangement.keepsWhole_stable #[strayMesh 1e308] 4).2 (.inr hends)
    rw [hbuild] at hh
    cases hh
  · rw [Scene.build, Scene.maxPerLeaf, hbuild]
    rfl

end Hierarchy

end RadianceTransfer.Bvh
