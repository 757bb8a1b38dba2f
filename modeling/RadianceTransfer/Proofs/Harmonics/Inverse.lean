import Mathlib
import RadianceTransfer.Harmonics.Inverse
import RadianceTransfer.Proofs.Field

/-!
# What elimination computes

Over an ordered field the operations of an elimination can be undone: there is a matrix `undo` that
takes both matrices back to where they started. After some columns these are columns of the
identity, and the columns of `undo` from there on are still distinct columns of the identity, for
the rows that have not been used yet have only been exchanged and had other rows subtracted.

So if elimination comes to its end it has found the inverse. If it stops at a column, the entries
of that column say how to combine the columns of the matrix, one of them taken once, so that hardly
anything is left.

## Main definitions

* `SquareMatrix.toMatrix`: the entries as a matrix.
* `Elimination.Reached`: what holds after a number of columns.
* `NearlySingular`: a combination of columns that nearly vanishes.

## Main statements

* `Elimination.Reached.step`, `Elimination.Reached.nearlySingular`: one column.
* `SquareMatrix.inverse?_cases`: what is found is the inverse on both sides, and one is found unless
  the matrix is nearly singular.
-/

namespace RadianceTransfer.Harmonics

open Matrix

/-- A loop over the numbers below `n` keeps what a run of its body carries from one to the next. -/
theorem foldl_induction {β : Type} {n : Nat} (P : Nat → β → Prop) {f : β → Fin n → β} {x : β}
    (start : P 0 x) (next : ∀ (i : Fin n) (y : β), P i y → P (i + 1) (f y i)) :
    P n (Fin.foldl n f x) := by
  induction n with
  | zero => exact start
  | succ n ih =>
    rw [Fin.foldl_succ_last]
    exact next (Fin.last n) _ (ih fun i y hy => next i.castSucc y hy)

variable {K : Type} {n : Nat}

namespace SquareMatrix

/-- The entries as a matrix. -/
def toMatrix (m : SquareMatrix n K) : Matrix (Fin n) (Fin n) K :=
  .of m.get

@[simp] theorem toMatrix_eq (m : SquareMatrix n K) (i j : Fin n) : m.toMatrix i j = m.get i j :=
  rfl

variable [Field K] [LinearOrder K] [FloorSemiring K] [FieldFunctions K]

theorem sum_eq (f : Fin n → K) : sum f = ∑ k, f k := by
  induction n with
  | zero => exact FieldFunctions.zero_eq
  | succ n ih =>
    rw [sum, Fin.foldl_succ_last, Fin.sum_univ_castSucc, ← ih]
    rfl

theorem toMatrix_identity : (identity n : SquareMatrix n K).toMatrix = 1 := by
  ext i j
  rw [toMatrix_eq, identity, get_ofFn, Matrix.one_apply]
  split
  · exact FieldFunctions.one_eq
  · exact FieldFunctions.zero_eq

theorem toMatrix_mul (a b : SquareMatrix n K) : (a.mul b).toMatrix = a.toMatrix * b.toMatrix := by
  ext i j
  rw [toMatrix_eq, mul, get_ofFn, sum_eq, Matrix.mul_apply]
  rfl

theorem get_apply (a : SquareMatrix n K) (v : Vector K n) (i : Fin n) :
    (a.apply v).get i = (a.toMatrix *ᵥ v.get) i := by
  rw [apply, Vector.get_ofFn, sum_eq, Matrix.mulVec, dotProduct]
  rfl

end SquareMatrix

/-- A combination of the columns nearly vanishes, although one of them is taken once. -/
def NearlySingular [Field K] [LinearOrder K] (m : Matrix (Fin n) (Fin n) K) : Prop :=
  ∃ v : Fin n → K, (∃ j, v j = 1) ∧ ∀ i, |(m *ᵥ v) i| < 1e-10

namespace Elimination

/-! ### Row operations -/

/-- The two matrices of an elimination. -/
inductive Side where
  /-- The matrix under elimination. -/
  | left
  /-- What has become of the identity. -/
  | right

/-- The matrix on a side. -/
def matrix (e : Elimination n K) : Side → SquareMatrix n K
  | .left => e.left
  | .right => e.right

theorem get_mapRows (e : Elimination n K) (f : Vector (Vector K n) n → Fin n → Vector K n)
    (s : Side) (k j : Fin n) :
    ((e.mapRows f).matrix s).get k j = (f (e.matrix s).rows k).get j := by
  cases s <;> simp [mapRows, matrix, SquareMatrix.get, Vector.get_eq_getElem]

variable {e : Elimination n K} {s : Side}

theorem get_swap (a b k j : Fin n) :
    ((e.swap a b).matrix s).get k j = (e.matrix s).get (Equiv.swap a b k) j := by
  rw [swap, get_mapRows, Equiv.swap_apply_def]
  split_ifs <;> rfl

variable [Field K] [LinearOrder K] [FloorSemiring K] [FieldFunctions K]

theorem get_scaleRow (c k j : Fin n) (t : K) :
    ((e.scaleRow c t).matrix s).get k j =
      if k = c then (e.matrix s).get k j * t else (e.matrix s).get k j := by
  rw [scaleRow, get_mapRows]
  split_ifs
  · rw [Vector.get_eq_getElem, Vector.getElem_map]
    rfl
  · rfl

theorem get_clear (c k j : Fin n) :
    ((e.clear c).matrix s).get k j =
      if k = c then (e.matrix s).get k j
      else (e.matrix s).get k j - e.left.get k c * (e.matrix s).get c j := by
  rw [clear, get_mapRows]
  dsimp only
  by_cases hk : k = c
  · rw [if_pos (.inl hk), if_pos hk]
    rfl
  · rw [if_neg hk]
    split
    · rename_i h
      have hzero : e.left.get k c = 0 :=
        (of_decide_eq_true (h.resolve_left hk)).trans FieldFunctions.zero_eq
      show (e.matrix s).get k j = _
      rw [hzero, zero_mul, sub_zero]
    · rw [Vector.get_eq_getElem, Vector.getElem_zipWith]
      rfl

/-! ### Undoing them -/

section

variable {u m m' : Matrix (Fin n) (Fin n) K}

theorem mul_of_swap (a b : Fin n) (h : ∀ k j, m' k j = m (Equiv.swap a b k) j) :
    u.submatrix id (Equiv.swap a b) * m' = u * m := by
  ext i j
  rw [mul_apply, mul_apply, ← Equiv.sum_comp (Equiv.swap a b)]
  refine Finset.sum_congr rfl fun k _ => ?_
  rw [submatrix_apply, h, Equiv.swap_apply_self]
  rfl

theorem mul_of_scale {c : Fin n} {t : K} (ht : t ≠ 0)
    (h : ∀ k j, m' k j = if k = c then m k j * t else m k j) :
    u.updateCol c (fun i => u i c / t) * m' = u * m := by
  ext i j
  rw [mul_apply, mul_apply]
  refine Finset.sum_congr rfl fun k _ => ?_
  rw [h, updateCol_apply]
  split_ifs with hk
  · rw [hk, div_mul_eq_mul_div, mul_comm (m c j), ← mul_assoc, mul_right_comm,
      mul_div_cancel_right₀ _ ht]
  · rfl

theorem mul_of_clear {c : Fin n} {f : Fin n → K}
    (h : ∀ k j, m' k j = if k = c then m k j else m k j - f k * m c j) :
    u.updateCol c (fun i => u i c + ∑ k ∈ Finset.univ.erase c, u i k * f k) * m' = u * m := by
  ext i j
  rw [mul_apply, mul_apply, ← Finset.add_sum_erase _ _ (Finset.mem_univ c),
    ← Finset.add_sum_erase _ _ (Finset.mem_univ c), h, if_pos rfl, updateCol_self, add_mul,
    add_assoc, Finset.sum_mul, ← Finset.sum_add_distrib]
  congr 1
  refine Finset.sum_congr rfl fun k hk => ?_
  have hkc := Finset.ne_of_mem_erase hk
  rw [h, if_neg hkc, updateCol_ne hkc]
  ring

end

/-! ### The pivot -/

/-- The pivot is at or below the diagonal, and no entry there is greater. -/
theorem pivot_spec (e : Elimination n K) (c : Fin n) :
    c ≤ e.pivot c ∧ ∀ k, c ≤ k → |e.left.get k c| ≤ |e.left.get (e.pivot c) c| := by
  have h : c ≤ e.pivot c ∧ ∀ k : Fin n, c ≤ k → k.val < n ∨ k = c →
      |e.left.get k c| ≤ |e.left.get (e.pivot c) c| := by
    refine foldl_induction (fun i (best : Fin n) => c ≤ best ∧ ∀ k : Fin n, c ≤ k →
      k.val < i ∨ k = c → |e.left.get k c| ≤ |e.left.get best c|) ⟨le_rfl, ?_⟩ ?_
    · rintro k - (hk | rfl)
      · exact absurd hk (Nat.not_lt_zero _)
      · exact le_rfl
    · rintro row best ⟨hbest, hmax⟩
      have hseen {k : Fin n} (hk : k.val < row + 1 ∨ k = c) : (k.val < row ∨ k = c) ∨ k = row := by
        rcases hk with hk | rfl
        · exact (Nat.lt_succ_iff_lt_or_eq.1 hk).imp .inl Fin.ext
        · exact .inl (.inr rfl)
      split_ifs with hlt
      · refine ⟨hlt.1.le, fun k hck hk => ?_⟩
        rcases hseen hk with hk | rfl
        · exact (hmax k hck hk).trans (le_of_lt hlt.2)
        · exact le_rfl
      · refine ⟨hbest, fun k hck hk => ?_⟩
        rcases hseen hk with hk | rfl
        · exact hmax k hck hk
        · rcases eq_or_lt_of_le hck with rfl | hck
          · exact hmax _ le_rfl (.inr rfl)
          · exact not_lt.1 fun h => hlt ⟨hck, h⟩
  exact ⟨h.1, fun k hk => h.2 k hk (.inl k.isLt)⟩

/-! ### One column -/

/-- What holds after a number of columns: the operations so far are undone by a matrix whose columns
from there on are those of the identity, in the order in which the rows are now. -/
structure Reached (m : Matrix (Fin n) (Fin n) K) (c : Nat) (e : Elimination n K)
    (undo : Matrix (Fin n) (Fin n) K) (origin : Equiv.Perm (Fin n)) : Prop where
  /-- Undoing leads back to the matrix. -/
  left : undo * e.left.toMatrix = m
  /-- It leads back to the identity. -/
  right : undo * e.right.toMatrix = 1
  /-- The columns are those of the identity. -/
  cleared : ∀ i j : Fin n, j < c → e.left.get i j = if i = j then 1 else 0
  /-- The rows from there on have not been used. -/
  waiting : ∀ i k : Fin n, c ≤ k → undo i k = if i = origin k then 1 else 0

/-- What elimination has come to after a number of columns: it has reached the next one, or it has
stopped at a matrix that is nearly singular. -/
def Ran (m : Matrix (Fin n) (Fin n) K) (c : Nat) : Option (Elimination n K) → Prop
  | some e => ∃ undo origin, Reached m c e undo origin
  | none => NearlySingular m

namespace Reached

variable {m undo : Matrix (Fin n) (Fin n) K} {origin : Equiv.Perm (Fin n)}

theorem start (m : SquareMatrix n K) :
    Reached m.toMatrix 0 ⟨m, SquareMatrix.identity n⟩ 1 (Equiv.refl _) where
  left := one_mul _
  right := by rw [SquareMatrix.toMatrix_identity, one_mul]
  cleared _ _ h := absurd h (Nat.not_lt_zero _)
  waiting i k _ := one_apply

theorem swap {c : Nat} (h : Reached m c e undo origin) {a b : Fin n} (ha : c ≤ a) (hb : c ≤ b) :
    Reached m c (e.swap a b) (undo.submatrix id (Equiv.swap a b))
      ((Equiv.swap a b).trans origin) where
  left := (mul_of_swap a b (get_swap (s := .left) a b)).trans h.left
  right := (mul_of_swap a b (get_swap (s := .right) a b)).trans h.right
  cleared i j hj := by
    have hja : j ≠ a := fun hja => absurd (hja ▸ ha) (not_le.2 hj)
    have hjb : j ≠ b := fun hjb => absurd (hjb ▸ hb) (not_le.2 hj)
    have hiff : Equiv.swap a b i = j ↔ i = j := by
      rw [Equiv.swap_apply_eq_iff, Equiv.swap_apply_of_ne_of_ne hja hjb]
    rw [show (e.swap a b).left.get i j = _ from get_swap (s := .left) a b i j]
    simp only [← hiff]
    exact h.cleared _ j hj
  waiting i k hk := by
    rw [submatrix_apply]
    refine h.waiting i _ ?_
    rw [Equiv.swap_apply_def]
    split_ifs
    exacts [hb, ha, hk]

/-- The entries after a column has been reduced by its diagonal entry. -/
theorem get_reduce (c i j : Fin n) (t : K) :
    ((e.scaleRow c t).clear c).left.get i j =
      if i = c then e.left.get c j * t
      else e.left.get i j - e.left.get i c * (e.left.get c j * t) := by
  rw [show ((e.scaleRow c t).clear c).left.get i j = _ from get_clear (s := .left) c i j,
    show (e.scaleRow c t).left.get i c = _ from get_scaleRow (s := .left) c i c t]
  simp only [get_scaleRow, if_true]
  split_ifs with hi
  · rw [hi]
    rfl
  · rfl

theorem reduce {c : Fin n} (h : Reached m c e undo origin) (hp : e.left.get c c ≠ 0) :
    ∃ undo', Reached m (c + 1) ((e.scaleRow c (1 / e.left.get c c)).clear c) undo' origin := by
  have ht : 1 / e.left.get c c ≠ 0 := one_div_ne_zero hp
  refine ⟨_, (mul_of_clear (get_clear (s := .left) c)).trans
      ((mul_of_scale ht (get_scaleRow (s := .left) c · · _)).trans h.left),
    (mul_of_clear (get_clear (s := .right) c)).trans
      ((mul_of_scale ht (get_scaleRow (s := .right) c · · _)).trans h.right), ?_, ?_⟩
  · intro i j hj
    have hone : e.left.get c c * (1 / e.left.get c c) = 1 := mul_one_div_cancel hp
    rw [get_reduce]
    rcases Nat.lt_succ_iff_lt_or_eq.1 hj with hj | hj
    · have hcj : c ≠ j := Fin.ne_of_gt hj
      rw [h.cleared c j hj, if_neg hcj, zero_mul, mul_zero, sub_zero, h.cleared i j hj]
      split_ifs with hic hij
      · exact absurd (hic ▸ hij) hcj
      · rfl
      · rfl
      · rfl
    · rw [Fin.ext hj, hone, mul_one, sub_self]
  · intro i k hk
    have hkc : k ≠ c := Fin.ne_of_gt (Nat.lt_of_succ_le hk)
    rw [updateCol_ne hkc, updateCol_ne hkc]
    exact h.waiting i k (Nat.le_of_succ_le hk)

variable [IsStrictOrderedRing K]

/-- If no entry of a column from the diagonal on is large, the entries above say how often to take
the columns before away. -/
theorem nearlySingular {c : Fin n} (h : Reached m c e undo origin)
    (hsmall : ∀ k, c ≤ k → |e.left.get k c| < 1e-10) : NearlySingular m := by
  let w : Fin n → K := fun j => if j < c then e.left.get j c else 0
  let rest : Fin n → K := fun k => if k < c then 0 else e.left.get k c
  have hw : e.left.toMatrix *ᵥ w = w := by
    ext k
    have hterm (j : Fin n) : e.left.get k j * w j = if k = j then w j else 0 := by
      by_cases hj : j < c
      · rw [h.cleared k j hj, ite_mul, one_mul, zero_mul]
      · simp [w, hj]
    simp only [mulVec, dotProduct, SquareMatrix.toMatrix_eq, hterm, Finset.sum_ite_eq,
      Finset.mem_univ, if_true]
  have hrest : e.left.toMatrix *ᵥ (Pi.single c 1 - w) = rest := by
    rw [mulVec_sub, hw, mulVec_single_one]
    ext k
    by_cases hk : k < c <;> simp [w, rest, hk, col_apply]
  have horigin (i : Fin n) : (undo *ᵥ rest) i = rest (origin.symm i) := by
    have hterm (k : Fin n) : undo i k * rest k = if origin.symm i = k then rest k else 0 := by
      by_cases hk : k < c
      · simp [rest, hk]
      · rw [h.waiting i k (not_lt.1 hk), ite_mul, one_mul, zero_mul]
        simp only [Equiv.symm_apply_eq]
    simp only [mulVec, dotProduct, hterm, Finset.sum_ite_eq, Finset.mem_univ, if_true]
  refine ⟨Pi.single c 1 - w, ⟨c, by simp [w]⟩, fun i => ?_⟩
  rw [← h.left, ← mulVec_mulVec, hrest, horigin]
  by_cases hi : origin.symm i < c
  · simp only [rest, if_pos hi, abs_zero]
    norm_num
  · simp only [rest, if_neg hi]
    exact hsmall _ (not_lt.1 hi)

/-- One more column is reached, or the matrix is nearly singular. -/
theorem step {c : Fin n} (h : Reached m c e undo origin) : Ran m (c + 1) (e.step c) := by
  obtain ⟨hle, hmax⟩ := pivot_spec e c
  by_cases hsmall : |e.left.get (e.pivot c) c| < 1e-10
  · have hnone : e.step c = none := if_pos hsmall
    rw [hnone]
    exact h.nearlySingular fun k hk => (hmax k hk).trans_lt hsmall
  · have hpivot : e.left.get (e.pivot c) c ≠ 0 := by
      intro hzero
      rw [hzero, abs_zero] at hsmall
      norm_num at hsmall
    rw [show e.step c = some _ from if_neg hsmall, FieldFunctions.one_eq]
    split_ifs with hp
    · rw [hp] at hpivot
      obtain ⟨undo', h'⟩ := h.reduce hpivot
      exact ⟨undo', origin, h'⟩
    · have hdiag : (e.swap c (e.pivot c)).left.get c c = e.left.get (e.pivot c) c := by
        rw [show (e.swap c (e.pivot c)).left.get c c = _ from
          get_swap (s := .left) c (e.pivot c) c c, Equiv.swap_apply_left]
        rfl
      obtain ⟨undo', h'⟩ := (h.swap le_rfl hle).reduce (hdiag ▸ hpivot)
      exact ⟨undo', _, h'⟩

end Reached

end Elimination

namespace SquareMatrix

variable [Field K] [LinearOrder K] [IsStrictOrderedRing K] [FloorSemiring K] [FieldFunctions K]

/-- **Elimination finds the inverse** on both sides, or the matrix is nearly singular. -/
theorem inverse?_cases (m : SquareMatrix n K) :
    (∃ inv, m.inverse? = some inv ∧ inv.toMatrix * m.toMatrix = 1 ∧
      m.toMatrix * inv.toMatrix = 1) ∨
    m.inverse? = none ∧ NearlySingular m.toMatrix := by
  have hrun : Elimination.Ran m.toMatrix n _ :=
    foldl_induction (f := fun e (col : Fin n) => e.bind fun e => e.step col)
      (x := some ⟨m, identity n⟩) (Elimination.Ran m.toMatrix) ⟨1, .refl _, .start m⟩ (by
        rintro c (_ | e) h
        · exact h
        · obtain ⟨undo, origin, h⟩ := h
          exact h.step)
  rw [inverse?]
  generalize Fin.foldl n _ _ = o at hrun ⊢
  cases o with
  | none => exact .inr ⟨rfl, hrun⟩
  | some e =>
    obtain ⟨undo, origin, h⟩ := hrun
    have hleft : e.left.toMatrix = 1 := by
      ext i j
      exact (h.cleared i j j.isLt).trans one_apply.symm
    have hundo : undo = m.toMatrix := by rw [← h.left, hleft, mul_one]
    have hright : m.toMatrix * e.right.toMatrix = 1 := hundo ▸ h.right
    exact .inl ⟨e.right, rfl, mul_eq_one_comm.1 hright, hright⟩

end SquareMatrix

end RadianceTransfer.Harmonics
