import RadianceTransfer.Proofs.Harmonics.Inverse
import RadianceTransfer.Proofs.Outcome

/-!
# Elimination in place

A matrix whose rows lie one behind the other is inverted in its own array, with a second array for
what becomes of the identity. Both are changed entry by entry, so a row operation reads arrays that
it has changed in part. The loops are spelled out here with every index and every divisor checked,
and they are shown to do what the elimination of whole rows does: after each loop the arrays hold
the entries of the matrices that the row operation gives.

In the middle of a loop over the columns the earlier columns are changed and the later ones are not
(`upTo`), and in the middle of the loop that clears a column the same is true of the rows. What an
operation reads is a column that it has not come to, or the row of the diagonal entry, which the
clearing of a column leaves alone.

## Main definitions

* `FlatElimination`: the two arrays, with the loops that change them.
* `FlatElimination.invert`: the inverse of a matrix in a flat array.
* `HoldsEntries`: an array has the entries of a matrix.

## Main statements

* `FlatElimination.HoldsBoth.swap`, `FlatElimination.HoldsBoth.divide`,
  `FlatElimination.HoldsBoth.clear`: the loops of one column.
* `FlatElimination.HoldsBoth.step`: a column, with the decision to stop.
* `invert_cases`: the loops find what the elimination of rows finds.
* `invert_inverts`: they find the inverse, or report a matrix that is nearly singular.
-/

namespace RadianceTransfer.Harmonics

open Matrix Outcome

/-! ### The loops -/

/-- The rows of two matrices, one behind the other in an array each. -/
structure FlatElimination (α : Type) where
  /-- The matrix. -/
  left : Array α
  /-- The identity after the same row operations. -/
  right : Array α

namespace FlatElimination

variable {α : Type} [Scalar α]

/-- Writes an entry of an array. It has to be there. -/
def put (xs : Array α) (i : Nat) (x : α) : Outcome (Array α) :=
  if i < xs.size then .ok (xs.setIfInBounds i x) else violate .indexOutOfRange

/-- Exchanges two entries. -/
def swapAt (i j : Nat) (xs : Array α) : Outcome (Array α) := do
  let x ← Outcome.get xs i
  let y ← Outcome.get xs j
  put (← put xs i y) j x

/-- Multiplies an entry by a factor. -/
def scaleAt (s : α) (i : Nat) (xs : Array α) : Outcome (Array α) := do
  put xs i ((← Outcome.get xs i) * s)

/-- Subtracts another entry a number of times. -/
def reduceAt (f : α) (i j : Nat) (xs : Array α) : Outcome (Array α) := do
  put xs i ((← Outcome.get xs i) - f * (← Outcome.get xs j))

/-- A quotient. The divisor must not be zero. -/
def quotient (x y : α) : Outcome α :=
  if y == 0 then violate .precondition else .ok (x / y)

/-- Changes both arrays alike, one entry after the other. -/
def eachColumn (n : Nat) (op : Nat → Array α → Outcome (Array α)) (e : FlatElimination α) :
    Outcome (FlatElimination α) :=
  (List.range n).foldlM (fun e k => do pure ⟨← op k e.left, ← op k e.right⟩) e

/-- The row with the larger magnitude in a column, the first one if they are equal. -/
def larger (n col : Nat) (xs : Array α) (best row : Nat) : Outcome Nat := do
  let x ← Outcome.get xs (row * n + col)
  let y ← Outcome.get xs (best * n + col)
  pure (if Signed.abs y < Signed.abs x then row else best)

/-- The first row at or below the diagonal with the largest magnitude in a column. -/
def pivot (n col : Nat) (xs : Array α) : Outcome Nat :=
  (List.range' (col + 1) (n - (col + 1))).foldlM (larger n col xs) col

/-- Subtracts the row of the diagonal entry from another row as often as clears the column. -/
def clearRow (n col : Nat) (e : FlatElimination α) (row : Nat) : Outcome (FlatElimination α) :=
  if row = col then pure e
  else do
    let f ← Outcome.get e.left (row * n + col)
    if f == 0 then pure e
    else e.eachColumn n fun k => reduceAt f (row * n + k) (col * n + k)

/-- Brings a row to the diagonal, unless it is there. -/
def exchange (n col p : Nat) (e : FlatElimination α) : Outcome (FlatElimination α) :=
  if p = col then pure e else e.eachColumn n fun k => swapAt (col * n + k) (p * n + k)

/-- Divides the row of a diagonal entry by it. -/
def divide (n col : Nat) (e : FlatElimination α) : Outcome (FlatElimination α) := do
  let s ← quotient 1 (← Outcome.get e.left (col * n + col))
  e.eachColumn n fun k => scaleAt s (col * n + k)

/-- Turns a column into that of the identity, unless its largest entry is tiny. -/
def step (n band : Nat) (e : FlatElimination α) (col : Nat) : Outcome (FlatElimination α) := do
  let p ← pivot n col e.left
  if Signed.abs (← Outcome.get e.left (p * n + col)) < 1e-10 then report (.singularBand band)
  else
    let e ← divide n col (← exchange n col p e)
    (List.range n).foldlM (clearRow n col) e

/-- Ones on the diagonal of zeros. -/
def identity (n : Nat) : Outcome (Array α) :=
  (List.range n).foldlM (fun xs i => put xs (i * n + i) 1) (Array.replicate (n * n) 0)

/-- Inverts a matrix whose rows lie one behind the other. -/
def invert (n band : Nat) (xs : Array α) : Outcome (Array α) := do
  let e ← (List.range n).foldlM (step n band) ⟨xs, ← identity n⟩
  pure e.right

end FlatElimination

/-! ### Entries -/

variable {α : Type} {n : Nat}

/-- An array has the rows of a matrix, one behind the other. -/
def HoldsEntries (xs : Array α) (g : Fin n → Fin n → α) : Prop :=
  xs.size = n * n ∧ ∀ i j : Fin n, xs[i.val * n + j.val]? = some (g i j)

theorem position_lt (i j : Fin n) : i.val * n + j.val < n * n := by
  calc i.val * n + j.val < (i.val + 1) * n := by rw [Nat.succ_mul]; omega
    _ ≤ n * n := Nat.mul_le_mul_right n i.isLt

theorem position_eq_iff {i j i' j' : Fin n} :
    i.val * n + j.val = i'.val * n + j'.val ↔ i = i' ∧ j = j' := by
  constructor
  · intro h
    have hi : i.val = i'.val := by
      have hn : 0 < n := Nat.zero_lt_of_lt i.isLt
      have hdiv := congrArg (· / n) h
      simpa [Nat.mul_comm _ n, Nat.mul_add_div hn, Nat.div_eq_of_lt] using hdiv
    rw [hi] at h
    exact ⟨Fin.ext hi, Fin.ext (Nat.add_left_cancel h)⟩
  · rintro ⟨rfl, rfl⟩
    rfl

namespace HoldsEntries

variable {xs : Array α} {g g' : Fin n → Fin n → α}

theorem get (h : HoldsEntries xs g) (i j : Fin n) :
    Outcome.get xs (i.val * n + j.val) = .ok (g i j) := by
  rw [Outcome.get, h.2]

theorem put (h : HoldsEntries xs g) (i j : Fin n) (x : α) :
    Returns (HoldsEntries · fun i' j' => if i' = i ∧ j' = j then x else g i' j')
      (FlatElimination.put xs (i.val * n + j.val) x) := by
  have hi : i.val * n + j.val < xs.size := h.1 ▸ position_lt i j
  rw [FlatElimination.put, if_pos hi]
  refine .ok ⟨by rw [Array.size_setIfInBounds, h.1], fun i' j' => ?_⟩
  rw [Array.getElem?_setIfInBounds, h.2]
  dsimp only
  by_cases heq : i' = i ∧ j' = j
  · obtain ⟨rfl, rfl⟩ := heq
    rw [if_pos rfl, if_pos hi, if_pos ⟨rfl, rfl⟩]
  · rw [if_neg fun h => heq (position_eq_iff.1 h.symm), if_neg heq]

theorem congr (h : HoldsEntries xs g) (hg : ∀ i j, g i j = g' i j) : HoldsEntries xs g' :=
  ⟨h.1, fun i j => hg i j ▸ h.2 i j⟩

end HoldsEntries

/-! ### One row -/

open Elimination (Side)

/-- The array of a side. -/
def FlatElimination.array (e : FlatElimination α) : Side → Array α
  | .left => e.left
  | .right => e.right

/-- Both arrays have the rows of given matrices. -/
def FlatElimination.Holds (e : FlatElimination α) (g : Side → Fin n → Fin n → α) : Prop :=
  ∀ s, HoldsEntries (e.array s) (g s)

/-- Entries that have been changed in the columns before a given one. -/
def upTo (k : Nat) (g g' : Fin n → Fin n → α) : Fin n → Fin n → α :=
  fun i j => if j.val < k then g' i j else g i j

theorem upTo_self (g g' : Fin n → Fin n → α) (i k : Fin n) : upTo k g g' i k = g i k :=
  if_neg (lt_irrefl _)

/-- A change of single entries, column by column. -/
theorem FlatElimination.Holds.eachColumn {op : Nat → Array α → Outcome (Array α)}
    {g g' : Side → Fin n → Fin n → α} {e : FlatElimination α} (he : e.Holds g)
    (hop : ∀ (s : Side) (k : Fin n) (xs : Array α), HoldsEntries xs (upTo k (g s) (g' s)) →
      Returns (HoldsEntries · (upTo (k + 1) (g s) (g' s))) (op k xs)) :
    Returns (·.Holds g') (e.eachColumn n op) := by
  have hrun : Returns (fun e : FlatElimination α => e.Holds fun s => upTo n (g s) (g' s))
      (e.eachColumn n op) := by
    refine .foldlM_range (P := fun k (e : FlatElimination α) =>
      e.Holds fun s => upTo k (g s) (g' s)) (fun s => he s) fun k hk e he => ?_
    refine (hop .left ⟨k, hk⟩ e.left (he .left)).bind fun left hleft => ?_
    refine (hop .right ⟨k, hk⟩ e.right (he .right)).bind fun right hright => .ok ?_
    rintro (_ | _)
    exacts [hleft, hright]
  exact hrun.mono fun e he s => (he s).congr fun i j => if_pos j.isLt

theorem upTo_succ (k : Fin n) (g g' : Fin n → Fin n → α) (i j : Fin n) :
    upTo (k + 1) g g' i j = if j = k then g' i k else upTo k g g' i j := by
  unfold upTo
  by_cases hj : j = k
  · rw [if_pos (hj ▸ Nat.lt_succ_self _), if_pos hj, hj]
  · have hiff : j.val < k.val + 1 ↔ j.val < k.val := by
      have := Fin.val_ne_of_ne hj
      omega
    simp only [hiff, if_neg hj]

variable [Scalar α] {g g' : Fin n → Fin n → α} {xs : Array α} {k : Fin n}

omit [Scalar α] in
theorem returns_swapAt {a b : Fin n} (hg : ∀ i j, g' i j = g (Equiv.swap a b i) j)
    (h : HoldsEntries xs (upTo k g g')) :
    Returns (HoldsEntries · (upTo (k + 1) g g'))
      (FlatElimination.swapAt (a.val * n + k.val) (b.val * n + k.val) xs) := by
  rw [FlatElimination.swapAt, h.get, bind_ok, h.get, bind_ok, upTo_self, upTo_self]
  obtain ⟨ys, hys, hput⟩ := h.put a k (g b k)
  rw [hys, bind_ok]
  refine (hput.put b k (g a k)).mono fun zs hzs => hzs.congr fun i j => ?_
  rw [upTo_succ, hg]
  by_cases hj : j = k
  · rw [if_pos hj, Equiv.swap_apply_def]
    -- the second write decides where both rows are the same
    by_cases hb : i = b
    · by_cases ha : i = a <;> simp_all
    · by_cases ha : i = a <;> simp_all [upTo]
  · simp [hj]

theorem returns_scaleAt {c : Fin n} {t : α}
    (hg : ∀ i j, g' i j = if i = c then g i j * t else g i j)
    (h : HoldsEntries xs (upTo k g g')) :
    Returns (HoldsEntries · (upTo (k + 1) g g'))
      (FlatElimination.scaleAt t (c.val * n + k.val) xs) := by
  rw [FlatElimination.scaleAt, h.get, bind_ok, upTo_self]
  refine (h.put c k _).mono fun zs hzs => hzs.congr fun i j => ?_
  rw [upTo_succ, hg]
  by_cases hj : j = k
  · by_cases hi : i = c <;> simp_all [upTo]
  · simp [hj]

theorem returns_reduceAt {r c : Fin n} {f : α}
    (hg : ∀ i j, g' i j = if i = r then g i j - f * g c j else g i j)
    (h : HoldsEntries xs (upTo k g g')) :
    Returns (HoldsEntries · (upTo (k + 1) g g'))
      (FlatElimination.reduceAt f (r.val * n + k.val) (c.val * n + k.val) xs) := by
  rw [FlatElimination.reduceAt, h.get, bind_ok, h.get, bind_ok, upTo_self, upTo_self]
  refine (h.put r k _).mono fun zs hzs => hzs.congr fun i j => ?_
  rw [upTo_succ, hg]
  by_cases hj : j = k
  · by_cases hi : i = r <;> simp_all [upTo]
  · simp [hj]

/-! ### The matrices -/

section

variable {e : FlatElimination α} {E : Elimination n α}

/-- Both arrays have the rows of the matrices of an elimination. -/
def FlatElimination.HoldsBoth (e : FlatElimination α) (E : Elimination n α) : Prop :=
  e.Holds fun s => (E.matrix s).get

theorem returns_identity :
    Returns (HoldsEntries · (SquareMatrix.identity n : SquareMatrix n α).get)
      (FlatElimination.identity n) := by
  have hrun : Returns (fun xs : Array α => HoldsEntries xs fun i j : Fin n =>
      if i = j ∧ i.val < n then 1 else 0) (FlatElimination.identity n) := by
    refine .foldlM_range (P := fun r (xs : Array α) => HoldsEntries xs fun i j : Fin n =>
      if i = j ∧ i.val < r then 1 else 0)
      ⟨Array.size_replicate, fun i j => ?_⟩ fun r hr xs h => ?_
    · rw [Array.getElem?_replicate, if_pos (position_lt i j)]
      exact congrArg some (if_neg fun h => Nat.not_lt_zero _ h.2).symm
    · refine (h.put ⟨r, hr⟩ ⟨r, hr⟩ 1).mono fun ys hys => hys.congr fun i j => ?_
      have hiff : i = j ∧ i.val < r + 1 ↔
          (i = ⟨r, hr⟩ ∧ j = ⟨r, hr⟩) ∨ (i = j ∧ i.val < r) := by
        simp only [Fin.ext_iff]
        omega
      simp only [hiff]
      by_cases hdiag : i = ⟨r, hr⟩ ∧ j = ⟨r, hr⟩
      · rw [if_pos hdiag, if_pos (.inl hdiag)]
      · rw [if_neg hdiag]
        simp only [hdiag, false_or]
  refine hrun.mono fun xs h => h.congr fun i j => ?_
  rw [SquareMatrix.identity, SquareMatrix.get_ofFn]
  simp only [i.isLt, and_true]

theorem larger_eq (h : HoldsEntries xs E.left.get) (c best row : Fin n) :
    FlatElimination.larger n c xs best row =
      .ok (if Signed.abs (E.left.get best c) < Signed.abs (E.left.get row c) then row
        else best).val := by
  rw [FlatElimination.larger, h.get, bind_ok, h.get, bind_ok, apply_ite Fin.val]
  rfl

/-- The search for the pivot ends at the same row. -/
theorem pivot_eq (h : HoldsEntries xs E.left.get) (c : Fin n) :
    FlatElimination.pivot n c xs = .ok (E.pivot c).val := by
  -- up to the diagonal, where only one of the loops goes, it changes nothing
  refine foldl_induction (fun m (best : Fin n) =>
    (List.range' (c + 1) (m - (c + 1))).foldlM (FlatElimination.larger n c xs) c.val =
      .ok best.val) ?_ fun row best ih => ?_
  · rw [Nat.zero_sub]
    rfl
  · by_cases hc : c < row
    · have hlen : row.val + 1 - (c.val + 1) = row.val - (c.val + 1) + 1 := by
        have := Fin.lt_def.1 hc
        omega
      have hlast : c.val + 1 + (row.val - (c.val + 1)) = row.val := by
        have := Fin.lt_def.1 hc
        omega
      simp only [hc, true_and]
      rw [hlen, List.range'_concat, List.foldlM_append, ih, bind_ok, Nat.one_mul, hlast,
        List.foldlM_cons, larger_eq h]
      rfl
    · have hlen : row.val + 1 - (c.val + 1) = row.val - (c.val + 1) := by
        have := Fin.not_lt.1 hc
        omega
      rw [hlen, ih, if_neg fun h => hc h.1]

namespace FlatElimination.HoldsBoth

omit [Scalar α] in
theorem swap (he : e.HoldsBoth E) (a b : Fin n) :
    Returns (·.HoldsBoth (E.swap a b))
      (e.eachColumn n fun k => swapAt (a * n + k) (b * n + k)) :=
  he.eachColumn fun s _ _ h => returns_swapAt (Elimination.get_swap (s := s) a b) h

omit [Scalar α] in
/-- The row of the pivot comes to the diagonal. -/
theorem exchange (he : e.HoldsBoth E) (c p : Fin n) :
    Returns (·.HoldsBoth (if p = c then E else E.swap c p)) (exchange n c p e) := by
  by_cases hp : p = c
  · rw [FlatElimination.exchange, if_pos (congrArg Fin.val hp), if_pos hp]
    exact .ok he
  · rw [FlatElimination.exchange, if_neg fun h => hp (Fin.ext h), if_neg hp]
    exact he.swap c p

end FlatElimination.HoldsBoth

omit [Scalar α] in
/-- The pivot is on the diagonal then. -/
theorem get_exchange_diagonal (E : Elimination n α) (c p : Fin n) :
    (if p = c then E else E.swap c p).left.get c c = E.left.get p c := by
  by_cases hp : p = c
  · rw [if_pos hp, hp]
  · have hswap : (E.swap c p).left.get c c = E.left.get (Equiv.swap c p c) c :=
      Elimination.get_swap (s := .left) c p c c
    rw [if_neg hp, hswap, Equiv.swap_apply_left]

end

section

variable {K : Type} [Field K] [LinearOrder K] [FloorSemiring K] [FieldFunctions K]
  {e : FlatElimination K} {E : Elimination n K}

theorem beq_zero_iff {x : K} : (x == @OfNat.ofNat K 0 (Scalar.instOfNat 0)) = true ↔ x = 0 := by
  rw [FieldFunctions.zero_eq]
  exact decide_eq_true_iff

/-- A row without the entry of a column, unless it is the row of the diagonal entry. A row that is
left alone for its zero is that row as well. -/
theorem FlatElimination.Holds.clearRow {g : Side → Fin n → Fin n → K} (he : e.Holds g)
    (r c : Fin n) :
    Returns (·.Holds fun s i j =>
        if i = r ∧ r ≠ c then g s i j - g .left r c * g s c j else g s i j)
      (clearRow n c e r) := by
  by_cases hc : r = c
  · rw [FlatElimination.clearRow, if_pos (congrArg Fin.val hc)]
    exact .ok fun s => (he s).congr fun i j => (if_neg fun h => h.2 hc).symm
  · have hleft : HoldsEntries e.left (g .left) := he .left
    rw [FlatElimination.clearRow, if_neg fun h => hc (Fin.ext h), hleft.get, bind_ok]
    by_cases hzero : g .left r c = 0
    · rw [if_pos (beq_zero_iff.2 hzero)]
      refine .ok fun s => (he s).congr fun i j => ?_
      dsimp only
      rw [hzero, zero_mul, sub_zero, ite_self]
    · rw [if_neg fun h => hzero (beq_zero_iff.1 h)]
      refine he.eachColumn fun s k xs h => returns_reduceAt (fun i j => ?_) h
      simp only [ne_eq, hc, not_false_eq_true, and_true]

namespace FlatElimination.HoldsBoth

theorem scaleRow (he : e.HoldsBoth E) (c : Fin n) (t : K) :
    Returns (·.HoldsBoth (E.scaleRow c t)) (e.eachColumn n fun k => scaleAt t (c * n + k)) :=
  he.eachColumn fun s _ _ h => returns_scaleAt (Elimination.get_scaleRow (s := s) c · · t) h

/-- All rows but that of the diagonal entry are cleared in a column, one after the other. -/
theorem clear (he : e.HoldsBoth E) (c : Fin n) :
    Returns (·.HoldsBoth (E.clear c)) ((List.range n).foldlM (clearRow n c) e) := by
  let entries (r : Nat) (s : Elimination.Side) (i j : Fin n) : K :=
    if i.val < r then ((E.clear c).matrix s).get i j else (E.matrix s).get i j
  have hcol (r : Nat) (s : Elimination.Side) (j : Fin n) :
      entries r s c j = (E.matrix s).get c j := by
    simp only [entries, Elimination.get_clear, if_true, ite_self]
  have hrow (r : Fin n) (s : Elimination.Side) (j : Fin n) :
      entries r s r j = (E.matrix s).get r j := if_neg (lt_irrefl _)
  have hrun : Returns (·.Holds (entries n)) ((List.range n).foldlM (clearRow n c) e) := by
    refine .foldlM_range (P := fun r (e : FlatElimination K) => e.Holds (entries r)) he
      fun r hr e he => ?_
    obtain ⟨row, rfl⟩ : ∃ row : Fin n, row.val = r := ⟨⟨r, hr⟩, rfl⟩
    refine (he.clearRow row c).mono fun e he s => (he s).congr fun i j => ?_
    dsimp only
    by_cases hi : i = row
    · rw [hi, hcol, hrow, hrow]
      simp only [entries, row.val.lt_succ_self, if_true, Elimination.get_clear, true_and, ite_not,
        ne_eq]
      rfl
    · have hiff : i.val < row + 1 ↔ i.val < row := by
        have := Fin.val_ne_of_ne hi
        omega
      rw [if_neg fun h => hi h.1]
      simp only [entries, hiff]
  exact hrun.mono fun e he s => (he s).congr fun i j => if_pos i.isLt

/-- The row of a diagonal entry is divided by it. -/
theorem divide (he : e.HoldsBoth E) {c : Fin n} (hc : E.left.get c c ≠ 0) :
    Returns (·.HoldsBoth (E.scaleRow c (@OfNat.ofNat K 1 (Scalar.instOfNat 1) / E.left.get c c)))
      (divide n c e) := by
  have hleft : HoldsEntries e.left E.left.get := he .left
  rw [FlatElimination.divide, hleft.get, bind_ok, quotient, if_neg fun h => hc (beq_zero_iff.1 h),
    bind_ok]
  exact he.scaleRow c _

end FlatElimination.HoldsBoth

/-- A computation follows an elimination: it returns the same matrices, or reports a singular band
where the elimination stops. -/
def Follows (band : Nat) (o : Outcome (FlatElimination K)) : Option (Elimination n K) → Prop
  | some E => Returns (·.HoldsBoth E) o
  | none => o = report (.singularBand band)

variable [IsStrictOrderedRing K]

/-- A column of the identity, or the error where there is no pivot. -/
theorem FlatElimination.HoldsBoth.step (he : e.HoldsBoth E) (band : Nat) (c : Fin n) :
    Follows band (step n band e c) (E.step c) := by
  have hleft : HoldsEntries e.left E.left.get := he .left
  rw [FlatElimination.step, pivot_eq hleft, bind_ok, hleft.get, bind_ok]
  by_cases hsmall : Signed.abs (E.left.get (E.pivot c) c) < 1e-10
  · rw [if_pos hsmall, show E.step c = none from if_pos hsmall]
    rfl
  · have hpivot : E.left.get (E.pivot c) c ≠ 0 := by
      intro hzero
      refine hsmall ?_
      rw [hzero]
      show |(0 : K)| < 1e-10
      rw [abs_zero]
      norm_num
    have hdiag : (if E.pivot c = c then E else E.swap c (E.pivot c)).left.get c c ≠ 0 :=
      get_exchange_diagonal E c (E.pivot c) ▸ hpivot
    rw [if_neg hsmall, show E.step c = some _ from if_neg hsmall]
    refine (he.exchange c (E.pivot c)).bind fun e he => ?_
    exact (he.divide hdiag).bind fun e he => he.clear c

/-- The whole loop follows the elimination. -/
theorem follows_run (he : e.HoldsBoth E) (band : Nat) :
    Follows band ((List.range n).foldlM (FlatElimination.step n band) e)
      (Fin.foldl n (fun o (c : Fin n) => o.bind fun E => E.step c) (some E)) := by
  refine foldl_induction (fun m o =>
    Follows band ((List.range m).foldlM (FlatElimination.step n band) e) o) (.ok he) ?_
  rintro c (_ | E) ih
  · rw [List.range_succ, List.foldlM_append, show _ = report _ from ih]
    rfl
  · obtain ⟨e, hrun, he⟩ := ih
    rw [List.range_succ, List.foldlM_append, hrun, bind_ok, List.foldlM_cons]
    have hstep := he.step band c
    rw [Option.bind_some]
    generalize E.step c = o at hstep ⊢
    cases o with
    | none =>
      rw [show _ = report _ from hstep]
      rfl
    | some E =>
      obtain ⟨e, hstep, he⟩ := hstep
      rw [hstep]
      exact .ok he

/-! ### Whole matrices -/

/-- The matrix whose rows lie one behind the other. -/
def SquareMatrix.ofRowMajor (xs : Vector α (n * n)) : SquareMatrix n α :=
  .ofFn fun i j => xs.get ⟨i * n + j, position_lt i j⟩

omit [Scalar α] in
theorem holdsEntries_toArray (xs : Vector α (n * n)) :
    HoldsEntries xs.toArray (SquareMatrix.ofRowMajor xs).get := by
  refine ⟨xs.size_toArray, fun i j => ?_⟩
  rw [SquareMatrix.ofRowMajor, SquareMatrix.get_ofFn]
  exact Array.getElem?_eq_getElem (xs.size_toArray.symm ▸ position_lt i j)

omit [Scalar α] in
theorem SquareMatrix.eq_of_get {m m' : SquareMatrix n α} (h : ∀ i j, m.get i j = m'.get i j) :
    m = m' := by
  obtain ⟨rows⟩ := m
  obtain ⟨rows'⟩ := m'
  rw [SquareMatrix.mk.injEq]
  exact Vector.ext fun i hi => Vector.ext fun j hj => h ⟨i, hi⟩ ⟨j, hj⟩

omit [Scalar α] in
theorem HoldsEntries.exists_vector {ys : Array α} {m : SquareMatrix n α}
    (h : HoldsEntries ys m.get) :
    ∃ v : Vector α (n * n), ys = v.toArray ∧ m = SquareMatrix.ofRowMajor v := by
  refine ⟨⟨ys, h.1⟩, rfl, SquareMatrix.eq_of_get fun i j => ?_⟩
  exact Option.some.inj ((h.2 i j).symm.trans ((holdsEntries_toArray ⟨ys, h.1⟩).2 i j))

/-- The loops in flat arrays do what the elimination of rows does. -/
theorem invert_cases (band : Nat) (xs : Vector K (n * n)) :
    (∃ ys : Vector K (n * n), FlatElimination.invert n band xs.toArray = .ok ys.toArray ∧
      (SquareMatrix.ofRowMajor xs).inverse? = some (SquareMatrix.ofRowMajor ys)) ∨
    FlatElimination.invert n band xs.toArray = report (.singularBand band) ∧
      (SquareMatrix.ofRowMajor xs).inverse? = none := by
  obtain ⟨one, hone, hidentity⟩ := returns_identity (n := n) (α := K)
  have hstart : FlatElimination.HoldsBoth ⟨xs.toArray, one⟩
      ⟨SquareMatrix.ofRowMajor xs, SquareMatrix.identity n⟩
    | .left => holdsEntries_toArray xs
    | .right => hidentity
  have hrun := follows_run hstart band
  rw [FlatElimination.invert, hone, bind_ok, SquareMatrix.inverse?]
  generalize Fin.foldl n _ _ = o at hrun ⊢
  cases o with
  | none =>
    rw [show _ = report _ from hrun]
    exact .inr ⟨rfl, rfl⟩
  | some E =>
    obtain ⟨e, hrun, he⟩ := hrun
    obtain ⟨ys, hys, hinv⟩ := (he .right).exists_vector
    rw [hrun]
    exact .inl ⟨ys, congrArg Except.ok hys, congrArg some hinv⟩

/-- **Elimination in place inverts.** Whatever matrix an array of `n * n` entries holds, every index
is in range and every divisor is different from zero, for nothing but a value or the error of a
singular band comes out. A value is the array of the matrix that elimination of rows finds, which is
the inverse on both sides. The error is reported for every singular matrix, and only for one that is
nearly singular. -/
theorem invert_inverts (band : Nat) (xs : Vector K (n * n)) :
    ((∃ ys : Vector K (n * n), FlatElimination.invert n band xs.toArray = .ok ys.toArray ∧
        (SquareMatrix.ofRowMajor xs).inverse? = some (SquareMatrix.ofRowMajor ys) ∧
        (SquareMatrix.ofRowMajor ys).toMatrix * (SquareMatrix.ofRowMajor xs).toMatrix = 1 ∧
        (SquareMatrix.ofRowMajor xs).toMatrix * (SquareMatrix.ofRowMajor ys).toMatrix = 1) ∨
      FlatElimination.invert n band xs.toArray = report (.singularBand band) ∧
        (SquareMatrix.ofRowMajor xs).inverse? = none ∧
        NearlySingular (SquareMatrix.ofRowMajor xs).toMatrix) ∧
    ((SquareMatrix.ofRowMajor xs).toMatrix.det = 0 →
      FlatElimination.invert n band xs.toArray = report (.singularBand band)) := by
  have hcases := (SquareMatrix.ofRowMajor xs).inverse?_cases
  rcases invert_cases band xs with ⟨ys, hrun, hsome⟩ | ⟨hrun, hnone⟩
  · rcases hcases with ⟨inv, hinv, hleft, hright⟩ | ⟨hnone, -⟩
    · obtain rfl : inv = SquareMatrix.ofRowMajor ys := Option.some.inj (hinv.symm.trans hsome)
      refine ⟨.inl ⟨ys, hrun, hsome, hleft, hright⟩, fun hdet => ?_⟩
      have hone := congrArg Matrix.det hleft
      rw [Matrix.det_mul, hdet, mul_zero, Matrix.det_one] at hone
      exact absurd hone zero_ne_one
    · rw [hsome] at hnone
      cases hnone
  · rcases hcases with ⟨inv, hinv, -, -⟩ | ⟨-, hsingular⟩
    · rw [hnone] at hinv
      cases hinv
    · exact ⟨.inr ⟨hrun, hnone, hsingular⟩, fun _ => hrun⟩

end

/-- The exchange of two coordinates has to be turned around before it can be inverted, and a matrix
whose second row is twice the first one cannot be. -/
theorem invert_inverts_two :
    let exchange : Vector ℝ (2 * 2) := #v[0, 1, 1, 0]
    let doubled : Vector ℝ (2 * 2) := #v[1, 2, 2, 4]
    (∃ ys : Vector ℝ (2 * 2), FlatElimination.invert 2 1 exchange.toArray = .ok ys.toArray ∧
      (SquareMatrix.ofRowMajor ys).toMatrix * (SquareMatrix.ofRowMajor exchange).toMatrix = 1) ∧
    (SquareMatrix.ofRowMajor doubled).toMatrix.det = 0 ∧
      FlatElimination.invert 2 1 doubled.toArray = report (.singularBand 1) := by
  intro exchange doubled
  have hregular : ¬ NearlySingular (SquareMatrix.ofRowMajor exchange).toMatrix := by
    rintro ⟨v, ⟨j, hj⟩, hsmall⟩
    have hswap (i : Fin 2) :
        ((SquareMatrix.ofRowMajor exchange).toMatrix *ᵥ v) i = v (1 - i) := by
      rw [mulVec, dotProduct, Fin.sum_univ_two]
      fin_cases i <;> simp [SquareMatrix.ofRowMajor, exchange, Vector.get]
    have h := hsmall (1 - j)
    rw [hswap, sub_sub_cancel, hj] at h
    norm_num at h
  have hdet : (SquareMatrix.ofRowMajor doubled).toMatrix.det = 0 := by
    rw [det_fin_two]
    simp only [SquareMatrix.toMatrix_eq, SquareMatrix.ofRowMajor, SquareMatrix.get_ofFn]
    show (1 * 4 - 2 * 2 : ℝ) = 0
    norm_num
  refine ⟨?_, hdet, (invert_inverts 1 doubled).2 hdet⟩
  rcases (invert_inverts 1 exchange).1 with ⟨ys, hrun, -, hleft, -⟩ | ⟨-, -, hsingular⟩
  · exact ⟨ys, hrun, hleft⟩
  · exact absurd hsingular hregular

end RadianceTransfer.Harmonics
