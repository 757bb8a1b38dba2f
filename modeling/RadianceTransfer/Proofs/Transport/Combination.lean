import RadianceTransfer.Proofs.Transport.Passes

/-!
# Tables entry by entry

Tables of the same shape are combined entry by entry, and so are their columns, whatever the
operation on the entries is. The sum of two tables is such a combination, and so is a combination
with factors.

## Main definitions

* `TransportTable.HasColumn`, `TransportTable.HasCorners`: columns that exist.
* `TransportTable.zipWith`: two tables entry by entry.
* `TransportTable.SameShape`: tables whose columns lie at the same places.
* `combineTables`: a combination of lists of tables with two factors.

## Main statements

* `TransportTable.SameShape.column_zipWith`: combining tables combines their columns.
* `ShapedTables.zipWith`: it keeps the shapes.
* `coefficient?_zipWith`: it combines coefficient by coefficient.
-/

namespace RadianceTransfer

namespace TransportTable

variable {α : Type}

/-! ### Columns that exist -/

/-- The array is long enough for the column of a vertex. -/
def HasColumn (t : TransportTable α) (v : Nat) : Prop :=
  v * t.shLen + t.shLen ≤ t.data.size

/-- The corners of a triangle have columns. -/
def HasCorners (t : TransportTable α) (corners : Triangle) : Prop :=
  t.HasColumn corners.i0.toNat ∧ t.HasColumn corners.i1.toNat ∧ t.HasColumn corners.i2.toNat

theorem HasColumn.column_eq {t : TransportTable α} {v : Nat} (h : t.HasColumn v) :
    t.column v = .ok (t.data.extract (v * t.shLen) (v * t.shLen + t.shLen)).toList :=
  if_pos h

theorem HasColumn.exists_column {t : TransportTable α} {v : Nat} (h : t.HasColumn v) :
    ∃ c, t.column v = .ok c ∧ c.length = t.shLen := by
  refine ⟨_, h.column_eq, ?_⟩
  rw [Array.length_toList, Array.size_extract, Nat.min_eq_left h, Nat.add_sub_cancel_left]

theorem HasCorners.exists_columns {t : TransportTable α} {corners : Triangle}
    (h : t.HasCorners corners) :
    ∃ c0 c1 c2, t.column corners.i0.toNat = .ok c0 ∧ t.column corners.i1.toNat = .ok c1 ∧
      t.column corners.i2.toNat = .ok c2 ∧ c0.length = t.shLen ∧ c1.length = t.shLen ∧
      c2.length = t.shLen := by
  obtain ⟨c0, h0, hlen0⟩ := h.1.exists_column
  obtain ⟨c1, h1, hlen1⟩ := h.2.1.exists_column
  obtain ⟨c2, h2, hlen2⟩ := h.2.2.exists_column
  exact ⟨c0, c1, c2, h0, h1, h2, hlen0, hlen1, hlen2⟩

theorem column_eq_violate {t : TransportTable α} {v : Nat} (h : ¬ t.HasColumn v) :
    t.column v = violate .indexOutOfRange :=
  if_neg h

theorem Shaped.length_column {t : TransportTable α} {shLen vertices v : Nat}
    (h : t.Shaped shLen vertices) {c : List α} (hc : t.column v = .ok c) : c.length = shLen := by
  by_cases hv : t.HasColumn v
  · obtain ⟨_, hc', hlen⟩ := hv.exists_column
    cases hc.symm.trans hc'
    rw [hlen, h.shLen_eq]
  · cases hc.symm.trans (column_eq_violate hv)

/-! ### Two tables -/

/-- The columns of two tables lie at the same places. -/
structure SameShape (t t' : TransportTable α) : Prop where
  /-- They have one length. -/
  shLen_eq : t'.shLen = t.shLen
  /-- The arrays have one size. -/
  size_eq : t'.data.size = t.data.size

/-- Two tables entry by entry. The columns keep the length of the first one. -/
def zipWith (f : α → α → α) (t t' : TransportTable α) : TransportTable α :=
  ⟨t.shLen, Array.zipWith f t.data t'.data⟩

variable {f : α → α → α} {t t' : TransportTable α}

theorem SameShape.size_zipWith (h : SameShape t t') :
    (t.zipWith f t').data.size = t.data.size := by
  rw [zipWith, Array.size_zipWith, h.size_eq, Nat.min_self]

theorem SameShape.hasColumn_iff (h : SameShape t t') (v : Nat) :
    t'.HasColumn v ↔ t.HasColumn v := by
  rw [HasColumn, HasColumn, h.shLen_eq, h.size_eq]

theorem SameShape.zipWith_right (h : SameShape t t') : SameShape t (t.zipWith f t') :=
  ⟨rfl, h.size_zipWith⟩

theorem SameShape.hasCorners_iff (h : SameShape t t') (corners : Triangle) :
    t'.HasCorners corners ↔ t.HasCorners corners := by
  simp only [HasCorners, h.hasColumn_iff]

/-- A column is combined from the columns at its place. -/
theorem SameShape.column_zipWith (h : SameShape t t') (v : Nat) :
    (t.zipWith f t').column v =
      t.column v >>= fun c => t'.column v >>= fun c' => .ok (List.zipWith f c c') := by
  have hzip : (t.zipWith f t').HasColumn v ↔ t.HasColumn v := h.zipWith_right.hasColumn_iff v
  by_cases hv : t.HasColumn v
  · rw [(hzip.2 hv).column_eq, hv.column_eq, ((h.hasColumn_iff v).2 hv).column_eq, zipWith,
      h.shLen_eq, Array.extract_zipWith, Array.toList_zipWith]
    rfl
  · rw [column_eq_violate hv, column_eq_violate (mt hzip.1 hv)]
    rfl

theorem Shaped.sameShape {shLen vertices : Nat} (h : t.Shaped shLen vertices)
    (h' : t'.Shaped shLen vertices) : SameShape t t' :=
  ⟨h'.shLen_eq.trans h.shLen_eq.symm, h'.size_eq.trans h.size_eq.symm⟩

theorem Shaped.zipWith {shLen vertices : Nat} (h : t.Shaped shLen vertices)
    (h' : t'.Shaped shLen vertices) : (t.zipWith f t').Shaped shLen vertices := by
  have hsize : (t.zipWith f t').data.size = t.data.size := (h.sameShape h').size_zipWith
  exact ⟨h.shLen_eq, hsize.trans h.size_eq, hsize ▸ h.room⟩

end TransportTable

/-! ### Lists of tables -/

section

open TransportTable

variable {α : Type} {f : α → α → α} {ts ts' : List (TransportTable α)}

/-- Tables of the same shapes have the same coefficients, and they are combined one by one. -/
theorem coefficient?_zipWith (h : List.Forall₂ SameShape ts ts') (i v k : Nat) :
    coefficient? (List.zipWith (TransportTable.zipWith f) ts ts') i v k =
      Option.map₂ f (coefficient? ts i v k) (coefficient? ts' i v k) := by
  induction h generalizing i with
  | nil => rfl
  | @cons t t' ts ts' ht _ ih =>
    cases i with
    | succ i => exact ih i
    | zero =>
      show (((t.zipWith f t').column v).toOption.bind (·[k]?)) =
        Option.map₂ f ((t.column v).toOption.bind (·[k]?)) ((t'.column v).toOption.bind (·[k]?))
      rw [ht.column_zipWith]
      cases t.column v with
      | error e => rfl
      | ok col =>
        cases t'.column v with
        | error e => exact (Option.map₂_none_right _ _).symm
        | ok col' =>
          show (List.zipWith f col col')[k]? = Option.map₂ f col[k]? col'[k]?
          rw [List.getElem?_zipWith]
          cases col[k]? <;> cases col'[k]? <;> rfl

variable {shLen : Nat} {meshes : Array (Mesh α)}

/-- Every vertex has every coefficient. -/
theorem ShapedTables.exists_coefficient (h : ShapedTables shLen meshes ts) {i v k : Nat}
    {mesh : Mesh α} (hmesh : meshes[i]? = some mesh) (hv : v < mesh.vertexCount) (hk : k < shLen) :
    ∃ x, coefficient? ts i v k = some x := by
  obtain ⟨t, ht, hshape⟩ := h.exists_table hmesh
  obtain ⟨col, hcol⟩ := hshape.exists_column hv
  rw [coefficient?_eq ht hcol]
  exact ⟨_, List.getElem?_eq_getElem ((hshape.length_column hcol).symm ▸ hk)⟩

theorem ShapedTables.sameShape (h : ShapedTables shLen meshes ts)
    (h' : ShapedTables shLen meshes ts') : List.Forall₂ SameShape ts ts' := by
  unfold ShapedTables at *
  generalize meshes.toList = ms at h h'
  induction h generalizing ts' with
  | nil =>
    cases h'
    exact .nil
  | cons ht _ ih =>
    cases h' with
    | cons ht' h' => exact .cons (ht.sameShape ht') (ih h')

theorem ShapedTables.zipWith (h : ShapedTables shLen meshes ts)
    (h' : ShapedTables shLen meshes ts') :
    ShapedTables shLen meshes (List.zipWith (TransportTable.zipWith f) ts ts') := by
  unfold ShapedTables at *
  generalize meshes.toList = ms at h h' ⊢
  induction h generalizing ts' with
  | nil =>
    cases h'
    exact .nil
  | cons ht _ ih =>
    cases h' with
    | cons ht' h' => exact .cons (ht.zipWith ht') (ih h')

end

/-! ### Factors -/

variable {α : Type} [Add α] [Mul α]

/-- Two tables entry by entry, each times a factor. -/
def TransportTable.combine (a b : α) : TransportTable α → TransportTable α → TransportTable α :=
  zipWith fun x y => a * x + b * y

/-- Two lists of tables, each times a factor. -/
def combineTables (a b : α) : List (TransportTable α) → List (TransportTable α) →
    List (TransportTable α) :=
  List.zipWith (TransportTable.combine a b)

end RadianceTransfer
