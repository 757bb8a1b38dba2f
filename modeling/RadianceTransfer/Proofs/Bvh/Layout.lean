import RadianceTransfer.Proofs.Bvh.Construction

/-!
# A tree in two arrays

What the arrays of a hierarchy say by themselves, without the tree they were made from: which node
is a part of which, which nodes belong to the tree below a node and which triangles its leaves hold,
and the ranges of the leaves.

`Tree.At` finds a tree at a place of the arrays, and with it its parts. Every place of the layout of
a tree is that of one of its subtrees, so what holds of all subtrees holds of all places.

## Main definitions

* `Hierarchy.IsChild`, `Hierarchy.Spans`, `Hierarchy.leafRanges`: what the arrays say.
* `Follow`: ranges that follow one another.
* `Tree.At`: a tree at a place of the arrays.

## Main statements

* `Tree.layout_at`: a tree is at the start of its layout.
* `Tree.At.exists_subtree`: at every place there is a subtree.
* `Tree.At.spans`, `Tree.existsUnique_parent`, `Tree.follow_leafRanges`: what the arrays of a tree
  say.
-/

namespace RadianceTransfer.Bvh

variable {α : Type}

/-! ### What the arrays say -/

/-- Ranges, given by a start and a length, that are not empty and follow one another without a gap
from a start up to a stop. -/
inductive Follow : (start stop : Nat) → List (Nat × Nat) → Prop where
  /-- No range. -/
  | nil (start : Nat) : Follow start start []
  /-- One range, and those that start where it ends. -/
  | cons {start stop count : Nat} {rs : List (Nat × Nat)} (hc : 0 < count)
      (hr : Follow (start + count) stop rs) : Follow start stop ((start, count) :: rs)

theorem Follow.append {start mid stop : Nat} {rs rs' : List (Nat × Nat)} (h : Follow start mid rs)
    (h' : Follow mid stop rs') : Follow start stop (rs ++ rs') := by
  induction h with
  | nil => exact h'
  | cons hc _ ih => exact .cons hc (ih h')

/-- None of the ranges goes beyond the stop. -/
theorem Follow.le_stop {start stop : Nat} {rs : List (Nat × Nat)} (h : Follow start stop rs) :
    start ≤ stop ∧ ∀ r ∈ rs, r.1 + r.2 ≤ stop := by
  induction h with
  | nil => simp
  | cons _ _ ih =>
    obtain ⟨hstop, hrs⟩ := ih
    exact ⟨by omega, List.forall_mem_cons.2 ⟨hstop, hrs⟩⟩

/-- The range of triangles of a leaf. -/
def NodeKind.leafRange? : NodeKind → Option (Nat × Nat)
  | .leaf first count => some (first, count)
  | .interior _ _ => none

namespace Hierarchy

variable (h : Hierarchy α)

/-- The place of one of the two parts of a node. -/
def IsChild (i j : Nat) : Prop :=
  ∃ box right axis, h.nodes[i]? = some ⟨box, .interior right axis⟩ ∧ (j = i + 1 ∨ j = right)

/-- The nodes from one place up to another one are those of a tree whose leaves hold some triangles:
a leaf, or a node followed by its left part and then its right part. -/
inductive Spans : (i stop : Nat) → List PrimRef → Prop where
  /-- A leaf. -/
  | leaf {i first count : Nat} {box : Box α} (hn : h.nodes[i]? = some ⟨box, .leaf first count⟩) :
      Spans i (i + 1) (h.prims.extract first (first + count)).toList
  /-- A node with two parts. -/
  | interior {i right stop : Nat} {box : Box α} {axis : Axis} {ls rs : List PrimRef}
      (hn : h.nodes[i]? = some ⟨box, .interior right axis⟩) (hl : Spans (i + 1) right ls)
      (hr : Spans right stop rs) : Spans i stop (ls ++ rs)

/-- The ranges of the leaves in the order of the nodes. -/
def leafRanges : List (Nat × Nat) :=
  h.nodes.toList.filterMap fun node => node.kind.leafRange?

variable {h}

/-- The arrays determine where a tree ends and what it holds. -/
theorem Spans.unique {i stop stop' : Nat} {ps ps' : List PrimRef} (hs : h.Spans i stop ps)
    (hs' : h.Spans i stop' ps') : stop = stop' ∧ ps = ps' := by
  induction hs generalizing stop' ps' with
  | leaf hn =>
    cases hs' with
    | leaf hn' =>
      obtain ⟨rfl, rfl, rfl⟩ : _ ∧ _ ∧ _ := by simpa [hn] using hn'
      exact ⟨rfl, rfl⟩
    | interior hn' => simp [hn] at hn'
  | interior hn _ _ ihl ihr =>
    cases hs' with
    | leaf hn' => simp [hn] at hn'
    | interior hn' hl' hr' =>
      obtain ⟨rfl, rfl, rfl⟩ : _ ∧ _ ∧ _ := by simpa [hn] using hn'
      obtain ⟨-, rfl⟩ := ihl hl'
      obtain ⟨rfl, rfl⟩ := ihr hr'
      exact ⟨rfl, rfl⟩

end Hierarchy

/-! ### A tree at a place -/

namespace Tree

/-- A tree whose nodes are found from a place on and whose triangles from another one on. -/
def At (h : Hierarchy α) : Tree α → (place first : Nat) → Prop
  | leaf box ps, place, first =>
    h.nodes[place]? = some ⟨box, .leaf first ps.length⟩ ∧ first + ps.length ≤ h.prims.size ∧
      (h.prims.extract first (first + ps.length)).toList = ps
  | node box axis l r, place, first =>
    h.nodes[place]? = some ⟨box, .interior (place + 1 + l.size) axis⟩ ∧
      l.At h (place + 1) first ∧ r.At h (place + 1 + l.size) (first + l.prims.length)

theorem prefix_cons_drop {β : Type} {x : β} {xs l : List β} {k : Nat} (h : x :: xs <+: l.drop k) :
    l[k]? = some x ∧ xs <+: l.drop (k + 1) := by
  obtain ⟨rest, hrest⟩ := h
  constructor
  · rw [← Nat.add_zero k, ← List.getElem?_drop, ← hrest]
    rfl
  · refine ⟨rest, ?_⟩
    rw [← List.drop_drop, ← hrest]
    rfl

theorem prefix_append_drop {β : Type} {xs ys l : List β} {k : Nat} (h : xs ++ ys <+: l.drop k) :
    xs <+: l.drop k ∧ ys <+: l.drop (k + xs.length) := by
  obtain ⟨rest, hrest⟩ := h
  constructor
  · exact ⟨ys ++ rest, by rw [← hrest, List.append_assoc]⟩
  · refine ⟨rest, ?_⟩
    rw [← List.drop_drop, ← hrest, List.append_assoc, List.drop_left]

theorem at_of_prefix {h : Hierarchy α} {t : Tree α} {place first : Nat}
    (hnodes : t.nodes place first <+: h.nodes.toList.drop place)
    (hprims : t.prims <+: h.prims.toList.drop first) (hfirst : first ≤ h.prims.size) :
    t.At h place first := by
  induction t generalizing place first with
  | leaf box ps =>
    have hsize : ps.length ≤ h.prims.size - first := by
      simpa [prims] using hprims.length_le
    refine ⟨?_, by omega, ?_⟩
    · rw [← Array.getElem?_toList]
      exact (prefix_cons_drop hnodes).1
    · rw [Array.toList_extract, List.extract_eq_take_drop, Nat.add_sub_cancel_left]
      exact (List.prefix_iff_eq_take.1 hprims).symm
  | node box axis l r ihl ihr =>
    obtain ⟨hroot, hparts⟩ := prefix_cons_drop hnodes
    obtain ⟨hl, hr⟩ := prefix_append_drop hparts
    obtain ⟨hpl, hpr⟩ := prefix_append_drop hprims
    rw [length_nodes] at hr
    have hsize : l.prims.length ≤ h.prims.size - first := by simpa using hpl.length_le
    refine ⟨?_, ihl hl hpl hfirst, ihr hr hpr (by omega)⟩
    rw [← Array.getElem?_toList]
    exact hroot

/-- A tree is at the start of its layout. -/
theorem layout_at (t : Tree α) : t.At t.layout 0 0 :=
  at_of_prefix List.prefix_rfl List.prefix_rfl (Nat.zero_le _)

variable {h : Hierarchy α} {t : Tree α} {place first : Nat}

/-- The node of a tree. -/
theorem At.exists_node (ht : t.At h place first) :
    ∃ kind, h.nodes[place]? = some ⟨t.box, kind⟩ := by
  cases t with
  | leaf => exact ⟨_, ht.1⟩
  | node => exact ⟨_, ht.1⟩

/-- The nodes and triangles of a tree, by what the arrays say. -/
theorem At.spans (ht : t.At h place first) : h.Spans place (place + t.size) t.prims := by
  induction t generalizing place first with
  | leaf box ps =>
    have hspans := Hierarchy.Spans.leaf ht.1
    rwa [ht.2.2] at hspans
  | node box axis l r ihl ihr =>
    obtain ⟨hroot, hl, hr⟩ := ht
    have hright := ihr hr
    rw [show place + 1 + l.size + r.size = place + (node box axis l r).size by rw [size]; omega]
      at hright
    exact .interior hroot (ihl hl) hright

/-- A property of trees that holds of the parts of every tree that has it, holds of a subtree at
every place. -/
theorem At.exists_subtree {P : Tree α → Prop}
    (hP : ∀ {box axis l r}, P (.node box axis l r) → P l ∧ P r) (ht : t.At h place first)
    (hPt : P t) {j : Nat} (hj : place ≤ j) (hlt : j < place + t.size) :
    ∃ s first, At h s j first ∧ P s ∧ j + s.size ≤ place + t.size := by
  induction t generalizing place first with
  | leaf box ps =>
    obtain rfl : j = place := by
      rw [size] at hlt
      omega
    exact ⟨_, first, ht, hPt, le_rfl⟩
  | node box axis l r ihl ihr =>
    obtain ⟨hroot, hl, hr⟩ := ht
    obtain ⟨hPl, hPr⟩ := hP hPt
    rw [size] at hlt ⊢
    rcases Nat.lt_trichotomy j (place + 1) with hlow | rfl | hhigh
    · obtain rfl : j = place := by omega
      exact ⟨node box axis l r, first, ⟨hroot, hl, hr⟩, hPt, by rw [size]⟩
    · have := l.size_pos
      exact ⟨l, first, hl, hPl, by omega⟩
    · rcases Nat.lt_or_ge j (place + 1 + l.size) with hleft | hright
      · obtain ⟨s, f, hs, hPs, hle⟩ := ihl hl hPl hhigh.le hleft
        exact ⟨s, f, hs, hPs, by omega⟩
      · obtain ⟨s, f, hs, hPs, hle⟩ := ihr hr hPr hright (by omega)
        exact ⟨s, f, hs, hPs, by omega⟩

/-! ### Parts of nodes -/

/-- The parts of a node of a tree come after it. -/
theorem At.child_range (ht : t.At h place first) {i j : Nat} (hi : place ≤ i)
    (hlt : i < place + t.size) (hc : h.IsChild i j) : i < j ∧ j < place + t.size := by
  obtain ⟨s, f, hs, -, hle⟩ := ht.exists_subtree (P := fun _ => True) (fun _ => ⟨trivial, trivial⟩)
    trivial hi hlt
  obtain ⟨box, right, axis, hn, hj⟩ := hc
  cases s with
  | leaf => simp [hs.1] at hn
  | node _ _ l r =>
    obtain ⟨-, rfl, -⟩ : _ ∧ _ ∧ _ := by simpa [hs.1] using hn
    have := r.size_pos
    have := l.size_pos
    rw [size] at hle
    omega

/-- Every node of a tree but the first is a part of another one. -/
theorem At.exists_parent (ht : t.At h place first) {j : Nat} (hj : place < j)
    (hlt : j < place + t.size) : ∃ i, place ≤ i ∧ i < place + t.size ∧ h.IsChild i j := by
  induction t generalizing place first with
  | leaf =>
    rw [size] at hlt
    omega
  | node box axis l r ihl ihr =>
    obtain ⟨hroot, hl, hr⟩ := ht
    rw [size] at hlt ⊢
    by_cases hleft : j = place + 1
    · exact ⟨place, le_rfl, by omega, box, _, axis, hroot, .inl hleft⟩
    by_cases hright : j = place + 1 + l.size
    · exact ⟨place, le_rfl, by omega, box, _, axis, hroot, .inr hright⟩
    rcases Nat.lt_or_ge j (place + 1 + l.size) with hlow | hhigh
    · obtain ⟨i, hi, hilt, hc⟩ := ihl hl (by omega) hlow
      exact ⟨i, by omega, by omega, hc⟩
    · obtain ⟨i, hi, hilt, hc⟩ := ihr hr (by omega) (by omega)
      exact ⟨i, by omega, by omega, hc⟩

/-- No node is a part of two. -/
theorem At.parent_unique (ht : t.At h place first) {i i' j : Nat} (hi : place ≤ i)
    (hlt : i < place + t.size) (hi' : place ≤ i') (hlt' : i' < place + t.size)
    (hc : h.IsChild i j) (hc' : h.IsChild i' j) : i = i' := by
  induction t generalizing place first with
  | leaf =>
    rw [size] at hlt hlt'
    omega
  | node box axis l r ihl ihr =>
    obtain ⟨hroot, hl, hr⟩ := ht
    rw [size] at hlt hlt'
    -- the parts of the first node, of those on the left and of those on the right are apart
    have place_of {k : Nat} (hk : place ≤ k) (hklt : k < place + (1 + l.size + r.size))
        (hck : h.IsChild k j) :
        k = place ∧ (j = place + 1 ∨ j = place + 1 + l.size) ∨
          (place + 1 ≤ k ∧ k < place + 1 + l.size ∧ place + 1 < j ∧ j < place + 1 + l.size) ∨
          (place + 1 + l.size ≤ k ∧ k < place + 1 + l.size + r.size ∧ place + 1 + l.size < j) := by
      rcases Nat.eq_or_lt_of_le hk with rfl | hk
      · obtain ⟨_, right, _, hn, hj⟩ := hck
        obtain ⟨-, rfl, -⟩ : _ ∧ _ ∧ _ := by simpa [hroot] using hn
        exact .inl ⟨rfl, hj⟩
      · rcases Nat.lt_or_ge k (place + 1 + l.size) with hlow | hhigh
        · have := hl.child_range hk hlow hck
          omega
        · have := hr.child_range hhigh (by omega) hck
          omega
    have := l.size_pos
    rcases place_of hi hlt hc with ⟨rfl, hj⟩ | ⟨hlo, hup, hj, hj'⟩ | ⟨hlo, hup, hj⟩ <;>
      rcases place_of hi' hlt' hc' with ⟨rfl, hk⟩ | ⟨hlo', hup', hk, hk'⟩ | ⟨hlo', hup', hk⟩
    all_goals first
      | exact ihl hl hlo hup hlo' hup'
      | exact ihr hr hlo hup hlo' hup'
      | omega

/-- Every node of a layout but the first is a part of exactly one other. -/
theorem existsUnique_parent (t : Tree α) {j : Nat} (hj : 0 < j) (hlt : j < t.size) :
    ∃! i, t.layout.IsChild i j := by
  have inside {i : Nat} (hc : t.layout.IsChild i j) : i < 0 + t.size := by
    obtain ⟨_, _, _, hn, -⟩ := hc
    have hsize := (Array.getElem?_eq_some_iff.1 hn).1
    simpa [layout] using hsize
  obtain ⟨i, -, -, hc⟩ := t.layout_at.exists_parent hj (by omega)
  exact ⟨i, hc, fun i' hc' =>
    t.layout_at.parent_unique (Nat.zero_le _) (inside hc') (Nat.zero_le _) (inside hc) hc' hc⟩

/-! ### The ranges of the leaves -/

/-- The ranges of the leaves follow one another if no leaf is empty. -/
theorem follow_leafRanges {P : Tree α → Prop}
    (hP : ∀ {box axis l r}, P (.node box axis l r) → P l ∧ P r)
    (hleaf : ∀ {box ps}, P (.leaf box ps) → ps ≠ []) (hPt : P t) (place first : Nat) :
    Follow first (first + t.prims.length)
      ((t.nodes place first).filterMap fun node => node.kind.leafRange?) := by
  induction t generalizing place first with
  | leaf box ps => exact .cons (List.length_pos_of_ne_nil (hleaf hPt)) (.nil _)
  | node box axis l r ihl ihr =>
    obtain ⟨hPl, hPr⟩ := hP hPt
    rw [nodes, List.filterMap_cons, List.filterMap_append, prims, List.length_append,
      ← Nat.add_assoc]
    exact (ihl hPl _ _).append (ihr hPr _ _)

end Tree

end RadianceTransfer.Bvh
