import RadianceTransfer.Proofs.Bvh.Division
import RadianceTransfer.Proofs.Bvh.Tree

/-!
# What building a hierarchy gives

Since neither part of a division is empty, both are smaller than the whole and building ends.
`Tree.Arises` says how the tree comes about from the triangles, with one constructor for a leaf and
one for a node; what holds of every tree that is built is proved by induction on it.

Two to four triangles are divided in the middle, and of more at least one goes to each side. So no
path of a tree of `n` triangles is longer than `n - 1`, and from four triangles on none is longer
than `n - 2`.

## Main definitions

* `Tree.Arises`: the trees of a list of triangles.
* `Tree.height`, `Tree.maxHeight`: the number of nodes above the deepest leaf, and its bound.

## Main statements

* `Tree.exists_build`: building ends with a tree that arises from the triangles.
* `Tree.Arises.prims_perm`, `Tree.Arises.box_fits`, `Tree.Arises.height_le`: its triangles, its
  boxes and its height.
-/

namespace RadianceTransfer.Bvh

namespace Tree

section

variable {α : Type}

/-- The number of nodes above the deepest leaf. -/
def height : Tree α → Nat
  | leaf _ _ => 0
  | node _ _ l r => max l.height r.height + 1

/-- How high a tree of a number of triangles can be. -/
def maxHeight (n : Nat) : Nat :=
  if n < 4 then n - 1 else n - 2

theorem size_pos (t : Tree α) : 0 < t.size := by
  cases t with
  | leaf => exact Nat.one_pos
  | node =>
    rw [size]
    omega

variable [Scalar α]

/-- How a tree comes about from a list of triangles. -/
inductive Arises (m : Nat) : List (Primitive α) → Tree α → Prop where
  /-- Triangles that stay together fit a leaf or cannot be told apart by their centers. -/
  | leaf {ps : List (Primitive α)} (hne : ps ≠ [])
      (hps : ps.length ≤ max m 1 ∨ ∀ p ∈ ps, ∀ q ∈ ps, p.centroid = q.centroid) :
      Arises m ps (.leaf (boxOf ps) (ps.map Primitive.ref))
  /-- A tree for each of two parts. -/
  | node {ps l r : List (Primitive α)} {tl tr : Tree α} (axis : Axis) (hps : Halves ps l r)
      (hl : Arises m l tl) (hr : Arises m r tr) : Arises m ps (.node (boxOf ps) axis tl tr)

variable {m : Nat} {ps : List (Primitive α)} {t : Tree α}

namespace Arises

theorem ne_nil (h : Arises m ps t) : ps ≠ [] := by
  cases h with
  | leaf hne => exact hne
  | node _ hps =>
    have := hps.length_lt
    exact List.ne_nil_of_length_pos (by omega)

theorem box_eq (h : Arises m ps t) : t.box = boxOf ps := by
  cases h <;> rfl

/-- The leaves hold the triangles, each of them once. -/
theorem prims_perm (h : Arises m ps t) : t.prims.Perm (ps.map Primitive.ref) := by
  induction h with
  | leaf => exact .refl _
  | node _ hps _ _ ihl ihr =>
    refine (ihl.append ihr).trans ?_
    rw [← List.map_append]
    exact hps.perm.map _

/-- There is a division less than there are leaves, and no leaf is empty. -/
theorem size_lt (h : Arises m ps t) : t.size < 2 * ps.length := by
  induction h with
  | leaf hne =>
    have := List.length_pos_of_ne_nil hne
    rw [size]
    omega
  | node _ hps _ _ ihl ihr =>
    have := hps.length_add
    rw [size]
    omega

/-- The height of a tree of so many triangles. -/
theorem height_le (h : Arises m ps t) : t.height ≤ maxHeight ps.length := by
  induction h with
  | leaf => exact Nat.zero_le _
  | node _ hps _ _ ihl ihr =>
    have := hps.length_add
    have := hps.length_lt
    have := hps.middle
    rw [height]
    unfold maxHeight at ihl ihr ⊢
    split_ifs at ihl ihr ⊢ <;> omega

end Arises

end

variable {K : Type} [Field K] [LinearOrder K] [FloorSemiring K] [ExactFunctions K]
  {m : Nat} {ps : List (Primitive (Exact K))} {t : Tree (Exact K)}

/-- If the box of every triangle fits some points, the box of a tree fits those of its triangles. -/
theorem Arises.box_fits {S : PrimRef → Vec3 (Exact K) → Prop}
    (hfits : ∀ p ∈ ps, p.box.Fits (S p.ref)) (h : Arises m ps t) :
    t.box.Fits fun v => ∃ p ∈ t.prims, S p v := by
  rw [h.box_eq]
  refine (Box.Fits.foldl_union_empty h.ne_nil hfits).congr fun v => ?_
  constructor
  · rintro ⟨p, hp, hv⟩
    exact ⟨p.ref, h.prims_perm.symm.subset (List.mem_map_of_mem hp), hv⟩
  · rintro ⟨p, hp, hv⟩
    obtain ⟨q, hq, rfl⟩ := List.mem_map.1 (h.prims_perm.subset hp)
    exact ⟨q, hq, hv⟩

variable [IsStrictOrderedRing K] {a : Arrangement}

/-- **Building ends**, with a tree that arises from the triangles. -/
theorem exists_build (ha : a.Lawful) (hne : ps ≠ []) (hfin : ∀ p ∈ ps, p.centroid.IsFinite) :
    ∃ t, build a m ps = .ok t ∧ Arises m ps t := by
  induction hn : ps.length using Nat.strong_induction_on generalizing ps with
  | _ n ih =>
    cases hsplit : split a m ps with
    | leaf =>
      refine ⟨_, build_of_leaf hsplit, .leaf hne ?_⟩
      rcases split_eq_leaf hsplit with hone | hflat | ⟨-, hfit⟩
      · exact .inl (hone.trans_le (le_max_right _ _))
      · exact .inr (centroid_eq_of_maxDim hne hfin hflat)
      · exact .inl (hfit.trans (le_max_left _ _))
    | halves axis l r =>
      have hs := split_eq_halves ha hne hfin hsplit
      have hlt := hs.length_lt
      obtain ⟨tl, hl, hal⟩ := ih l.length (hn ▸ hlt.1) hs.left
        (fun p hp => hfin p (hs.perm.subset (List.mem_append_left r hp))) rfl
      obtain ⟨tr, hr, har⟩ := ih r.length (hn ▸ hlt.2) hs.right
        (fun p hp => hfin p (hs.perm.subset (List.mem_append_right l hp))) rfl
      refine ⟨_, ?_, .node axis hs hal har⟩
      rw [build_of_halves hsplit hlt, hl, Outcome.bind_ok, hr]
      rfl

end Tree

end RadianceTransfer.Bvh
