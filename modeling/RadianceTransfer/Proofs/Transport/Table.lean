import Mathlib
import RadianceTransfer.Transport.Table
import RadianceTransfer.Proofs.Bvh.Search
import RadianceTransfer.Proofs.Outcome

/-!
# Tables by their columns

A table keeps its columns one behind the other. `TransportTable.Holds` says which columns these are,
and every operation on tables has one lemma that says what it does to them: cutting the array for
the writers, looking up a column, adding tables, blending three columns. Nothing else of a table is
used from then on.

The passes over the vertices all fill a new table in parallel, one column per vertex, so they share
`TransportTable.fill` and what it returns.

## Main statements

* `TransportTable.exists_holds`: an array of the right size consists of columns.
* `TransportTable.Holds.columns_eq`, `TransportTable.Holds.column_eq`: writers and readers.
* `TransportTable.fill_eq_ok_iff`: what filling a table returns.
-/

namespace RadianceTransfer

/-! ### Room -/

theorem hasRoom_iff_lt {n : Nat} : HasRoom n ↔ n * 8 < 2 ^ 63 := by
  have hpow : (twoPow (64 - 1) : Int) = 2 ^ 63 := by decide
  rw [HasRoom, FitsSigned, scalarBytes, hpow]
  omega

theorem HasRoom.of_le {m n : Nat} (h : HasRoom n) (hmn : m ≤ n) : HasRoom m := by
  rw [hasRoom_iff_lt] at *
  omega

theorem HasRoom.fitsUnsigned {n : Nat} (h : HasRoom n) : FitsUnsigned 64 n := by
  have hpow : twoPow 64 = 2 ^ 64 := by decide
  rw [hasRoom_iff_lt] at h
  rw [FitsUnsigned, hpow]
  omega

theorem requireRoom_eq_ok_iff {n : Nat} {u : Unit} : requireRoom n = .ok u ↔ HasRoom n := by
  unfold requireRoom
  split
  · rename_i h
    exact ⟨fun _ => h, fun _ => rfl⟩
  · rename_i h
    exact ⟨fun hok => (nomatch hok), fun hroom => absurd hroom h⟩

namespace TransportTable

variable {α : Type}

/-! ### Lists of columns -/

theorem length_flatten_of_length {n : Nat} {columns : List (List α)}
    (h : ∀ c ∈ columns, c.length = n) : columns.flatten.length = n * columns.length := by
  induction columns with
  | nil => rfl
  | cons c columns ih =>
    rw [List.flatten_cons, List.length_append, h c List.mem_cons_self,
      ih fun d hd => h d (List.mem_cons_of_mem _ hd), List.length_cons, Nat.mul_succ, Nat.add_comm]

theorem exists_flatten (n k : Nat) (l : List α) (hl : l.length = n * k) :
    ∃ columns : List (List α),
      columns.length = k ∧ (∀ c ∈ columns, c.length = n) ∧ columns.flatten = l := by
  induction k generalizing l with
  | zero => exact ⟨[], rfl, by simp, (List.eq_nil_of_length_eq_zero hl).symm⟩
  | succ k ih =>
    rw [Nat.mul_succ] at hl
    obtain ⟨columns, hk, hlen, hflat⟩ := ih (l.drop n) (by rw [List.length_drop]; omega)
    refine ⟨l.take n :: columns, by rw [List.length_cons, hk], ?_, ?_⟩
    · intro c hc
      rcases List.mem_cons.1 hc with rfl | hc
      · rw [List.length_take]
        omega
      · exact hlen c hc
    · rw [List.flatten_cons, hflat, List.take_append_drop]

theorem take_drop_flatten {n v : Nat} {columns : List (List α)} {c : List α}
    (h : ∀ c ∈ columns, c.length = n) (hc : columns[v]? = some c) :
    (columns.flatten.drop (v * n)).take n = c := by
  induction columns generalizing v with
  | nil => cases hc
  | cons d columns ih =>
    have hd : d.length = n := h d List.mem_cons_self
    cases v with
    | zero =>
      cases hc
      rw [List.flatten_cons, Nat.zero_mul, List.drop_zero, List.take_left' hd]
    | succ v =>
      rw [List.flatten_cons, Nat.succ_mul, Nat.add_comm, ← List.drop_drop, List.drop_left' hd]
      exact ih (fun e he => h e (List.mem_cons_of_mem _ he)) hc

theorem chunks_flatten {n : Nat} (hn : 0 < n) {columns : List (List α)}
    (h : ∀ c ∈ columns, c.length = n) : chunks (n - 1) columns.flatten = columns := by
  induction columns with
  | nil => rw [List.flatten_nil, chunks]
  | cons c columns ih =>
    have hc : c.length = n := h c List.mem_cons_self
    cases c with
    | nil =>
      rw [List.length_nil] at hc
      omega
    | cons x xs =>
      have hxs : xs.length = n - 1 := by
        rw [List.length_cons] at hc
        omega
      rw [List.flatten_cons, List.cons_append, chunks, List.take_left' hxs, List.drop_left' hxs,
        ih fun d hd => h d (List.mem_cons_of_mem _ hd)]

theorem zipWith_flatten {f : α → α → α} {n : Nat} {columns columns' : List (List α)}
    (h : ∀ c ∈ columns, c.length = n) (h' : ∀ c ∈ columns', c.length = n) :
    List.zipWith f columns.flatten columns'.flatten =
      (List.zipWith (List.zipWith f) columns columns').flatten := by
  induction columns generalizing columns' with
  | nil => simp
  | cons c columns ih =>
    cases columns' with
    | nil => simp
    | cons c' columns' =>
      have hlen : c.length = c'.length := by
        rw [h c List.mem_cons_self, h' c' List.mem_cons_self]
      rw [List.flatten_cons, List.flatten_cons, List.zipWith_append hlen, List.zipWith_cons_cons,
        List.flatten_cons, ih (fun d hd => h d (List.mem_cons_of_mem _ hd))
          fun d hd => h' d (List.mem_cons_of_mem _ hd)]

/-! ### The columns of a table -/

/-- A coefficient of a vertex in the table of a mesh, if there is one. -/
def coefficient? (tables : List (TransportTable α)) (mesh vertex k : Nat) : Option α :=
  tables[mesh]?.bind fun t => (t.column vertex).toOption.bind (·[k]?)

theorem coefficient?_eq {tables : List (TransportTable α)} {t : TransportTable α} {i v : Nat}
    {col : List α} (ht : tables[i]? = some t) (hcol : t.column v = .ok col) (k : Nat) :
    coefficient? tables i v k = col[k]? := by
  rw [coefficient?, ht, Option.bind_some, hcol]
  rfl

/-- The sum entry by entry. -/
def sum [Scalar α] (t t' : TransportTable α) : TransportTable α :=
  ⟨t.shLen, Array.zipWith (· + ·) t.data t'.data⟩

theorem add_eq_ok [Scalar α] {t t' : TransportTable α} (h : t.data.size = t'.data.size) :
    t.add t' = .ok (t.sum t') := by
  rw [add, if_pos h, sum]

/-- The table consists of the given columns, all of the given length. -/
structure Holds (t : TransportTable α) (shLen : Nat) (columns : List (List α)) : Prop where
  /-- The columns lie one behind the other. -/
  eq : t = ofChunks shLen columns
  /-- They have one length. -/
  length_eq : ∀ c ∈ columns, c.length = shLen

theorem holds_ofChunks {shLen : Nat} {columns : List (List α)}
    (h : ∀ c ∈ columns, c.length = shLen) : (ofChunks shLen columns).Holds shLen columns :=
  ⟨rfl, h⟩

theorem exists_holds {t : TransportTable α} {vertices : Nat}
    (h : t.data.size = t.shLen * vertices) :
    ∃ columns, columns.length = vertices ∧ t.Holds t.shLen columns := by
  obtain ⟨columns, hk, hlen, hflat⟩ := exists_flatten t.shLen vertices t.data.toList h
  refine ⟨columns, hk, ?_, hlen⟩
  rw [ofChunks, hflat]

namespace Holds

variable {t t' : TransportTable α} {shLen v : Nat} {columns columns' : List (List α)}
  {c : List α}

theorem shLen_eq (h : t.Holds shLen columns) : t.shLen = shLen := by
  rw [h.eq, ofChunks]

theorem toList_data (h : t.Holds shLen columns) : t.data.toList = columns.flatten := by
  rw [h.eq, ofChunks]

theorem size_data (h : t.Holds shLen columns) : t.data.size = shLen * columns.length := by
  rw [← Array.length_toList, h.toList_data, length_flatten_of_length h.length_eq]

theorem vertexCount_eq (h : t.Holds shLen columns) (hpos : 0 < shLen) :
    t.vertexCount = columns.length := by
  rw [vertexCount, h.shLen_eq, if_neg (by omega), h.size_data, Nat.mul_div_cancel_left _ hpos]

theorem columns_eq (h : t.Holds shLen columns) (hpos : 0 < shLen) : t.columns = columns := by
  rw [TransportTable.columns, h.shLen_eq, Nat.max_eq_left hpos, h.toList_data,
    chunks_flatten hpos h.length_eq]

theorem column_eq (h : t.Holds shLen columns) (hc : columns[v]? = some c) :
    t.column v = .ok c := by
  have hv : v + 1 ≤ columns.length := (List.getElem?_eq_some_iff.1 hc).1
  have hsize : v * shLen + shLen ≤ t.data.size := by
    rw [h.size_data, ← Nat.succ_mul, Nat.mul_comm shLen]
    exact Nat.mul_le_mul_right shLen hv
  rw [column, h.shLen_eq, if_pos hsize, Array.toList_extract, List.extract_eq_take_drop,
    h.toList_data, Nat.add_sub_cancel_left, take_drop_flatten h.length_eq hc]

theorem column_eq_violate (h : t.Holds shLen columns) (hpos : 0 < shLen)
    (hv : columns.length ≤ v) : t.column v = violate .indexOutOfRange := by
  have hle : shLen * columns.length ≤ v * shLen := by
    rw [Nat.mul_comm]
    exact Nat.mul_le_mul_right shLen hv
  rw [column, h.shLen_eq, if_neg (by rw [h.size_data]; omega)]

theorem column_eq_ok_iff (h : t.Holds shLen columns) (hpos : 0 < shLen) :
    t.column v = .ok c ↔ columns[v]? = some c := by
  refine ⟨fun hc => ?_, h.column_eq⟩
  have hv : v < columns.length := by
    by_contra hv
    cases hc.symm.trans (h.column_eq_violate hpos (Nat.le_of_not_lt hv))
  have hget : columns[v]? = some columns[v] := List.getElem?_eq_getElem hv
  cases hc.symm.trans (h.column_eq hget)
  exact hget

theorem exists_getElem? (h : t.Holds shLen columns) (hv : v < columns.length) :
    ∃ c, columns[v]? = some c ∧ c.length = shLen :=
  ⟨columns[v], List.getElem?_eq_getElem hv, h.length_eq _ (List.getElem_mem hv)⟩

theorem sum [Scalar α] (h : t.Holds shLen columns) (h' : t'.Holds shLen columns') :
    (t.sum t').Holds shLen (List.zipWith (List.zipWith (· + ·)) columns columns') := by
  refine ⟨?_, fun c hc => ?_⟩
  · rw [ofChunks, ← zipWith_flatten h.length_eq h'.length_eq, ← h.toList_data, ← h'.toList_data,
      ← Array.toList_zipWith, TransportTable.sum, h.shLen_eq]
  · obtain ⟨i, hi, rfl⟩ := List.getElem_of_mem hc
    rw [List.getElem_zipWith, List.length_zipWith, h.length_eq _ (List.getElem_mem _),
      h'.length_eq _ (List.getElem_mem _), Nat.min_self]

end Holds

/-- The table has a column of a given length for each of a number of vertices, and there is room
for it. -/
structure Shaped (t : TransportTable α) (shLen vertices : Nat) : Prop where
  /-- The length of a column. -/
  shLen_eq : t.shLen = shLen
  /-- The columns fill the array. -/
  size_eq : t.data.size = shLen * vertices
  /-- The array can be. -/
  room : HasRoom t.data.size

theorem Shaped.exists_holds {t : TransportTable α} {shLen vertices : Nat}
    (h : t.Shaped shLen vertices) :
    ∃ columns, columns.length = vertices ∧ t.Holds shLen columns := by
  have hsize : t.data.size = t.shLen * vertices := by rw [h.shLen_eq, h.size_eq]
  obtain ⟨columns, hlen, hholds⟩ := TransportTable.exists_holds hsize
  exact ⟨columns, hlen, h.shLen_eq ▸ hholds⟩

/-- A table is what its columns are. -/
theorem Shaped.ext {t t' : TransportTable α} {shLen vertices : Nat} (h : t.Shaped shLen vertices)
    (h' : t'.Shaped shLen vertices) (hcolumn : ∀ v < vertices, t.column v = t'.column v) :
    t = t' := by
  obtain ⟨columns, hlen, hholds⟩ := h.exists_holds
  obtain ⟨columns', hlen', hholds'⟩ := h'.exists_holds
  have hcolumns : columns = columns' := by
    refine List.ext_getElem (hlen.trans hlen'.symm) fun v hv hv' => ?_
    have hok : (.ok columns[v] : Outcome (List α)) = .ok columns'[v] := by
      rw [← hholds.column_eq (List.getElem?_eq_getElem hv), hcolumn v (hlen ▸ hv),
        hholds'.column_eq (List.getElem?_eq_getElem hv')]
    exact Except.ok.inj hok
  rw [hholds.eq, hholds'.eq, hcolumns]

theorem Holds.shaped {t : TransportTable α} {shLen : Nat} {columns : List (List α)}
    (h : t.Holds shLen columns) (hroom : HasRoom (shLen * columns.length)) :
    t.Shaped shLen columns.length :=
  ⟨h.shLen_eq, h.size_data, h.size_data ▸ hroom⟩

theorem ofColumns_eq_ok {shLen : Nat} {columns : List (List α)}
    (h : ∀ c ∈ columns, c.length = shLen) :
    ofColumns shLen columns = .ok (ofChunks shLen columns) := by
  have hnone : wrongColumn? shLen columns = none := by
    rw [wrongColumn?, Option.map_eq_none_iff, List.find?_eq_none]
    rintro ⟨c, i⟩ hc
    simp [h c (List.fst_mem_of_mem_zipIdx hc)]
  rw [ofColumns, hnone]
  rfl

variable [Scalar α]

theorem holds_zero (shLen vertices : Nat) :
    (zero shLen vertices : TransportTable α).Holds shLen
      (List.replicate vertices (List.replicate shLen 0)) := by
  constructor
  · rw [ofChunks, List.flatten_replicate_replicate, zero, Nat.mul_comm, List.toArray_replicate]
  · intro c hc
    rw [List.eq_of_mem_replicate hc, List.length_replicate]

/-! ### Blending columns -/

theorem length_addWeighted (w : α) (out ts : List α) :
    (addWeighted w out ts).length = out.length := by
  induction out generalizing ts with
  | nil => cases ts <;> rfl
  | cons o out ih =>
    cases ts with
    | nil => rfl
    | cons t ts => rw [addWeighted, List.length_cons, List.length_cons, ih]

theorem take_addWeighted (k : Nat) (w : α) (out ts : List α) :
    (addWeighted w out ts).take k = addWeighted w (out.take k) (ts.take k) := by
  induction k generalizing out ts with
  | zero => rfl
  | succ k ih =>
    cases out with
    | nil => cases ts <;> rfl
    | cons o out =>
      cases ts with
      | nil => rfl
      | cons t ts => rw [addWeighted, List.take_succ_cons, ih, List.take_succ_cons,
          List.take_succ_cons, addWeighted]

/-- The blend of three given columns, added to a list of coefficients. -/
def blend (c0 c1 c2 : List α) (weights : Vec3 α) (scale : α) (out : List α) : List α :=
  addWeighted (weights.z * scale)
    (addWeighted (weights.y * scale) (addWeighted (weights.x * scale) out c0) c1) c2

theorem length_blend (c0 c1 c2 : List α) (weights : Vec3 α) (scale : α) (out : List α) :
    (blend c0 c1 c2 weights scale out).length = out.length := by
  rw [blend, length_addWeighted, length_addWeighted, length_addWeighted]

theorem addBlend_eq {t : TransportTable α} {corners : Triangle} {c0 c1 c2 : List α}
    (h0 : t.column corners.i0.toNat = .ok c0) (h1 : t.column corners.i1.toNat = .ok c1)
    (h2 : t.column corners.i2.toNat = .ok c2) (weights : Vec3 α) (scale : α) (out : List α) :
    t.addBlend corners weights scale out = .ok (blend c0 c1 c2 weights scale out) := by
  rw [addBlend, h0, h1, h2]
  rfl

/-! ### Filling a table -/

/-- A table of new columns, one for each vertex. -/
def fill (shLen vertices : Nat) (threads : ThreadParam) (column : Nat → Outcome (List α)) :
    Outcome (TransportTable α) := do
  let zero : TransportTable α ← zero? shLen vertices
  let columns ← parallelFor zero.columns.toArray threads fun vertex _ => column vertex
  pure (ofChunks shLen columns.toList)

theorem zero?_eq_ok_iff {shLen vertices : Nat} {t : TransportTable α} :
    zero? shLen vertices = .ok t ↔ HasRoom (shLen * vertices) ∧ t = zero shLen vertices := by
  rw [zero?, Outcome.bind_eq_ok_iff]
  simp only [requireRoom_eq_ok_iff]
  constructor
  · rintro ⟨_, hroom, ⟨⟩⟩
    exact ⟨hroom, rfl⟩
  · rintro ⟨hroom, rfl⟩
    exact ⟨(), hroom, rfl⟩

/-- Filling a table returns if there is room for it and every column is computed. In which order the
workers compute them does not matter. -/
theorem fill_eq_ok_iff {shLen vertices : Nat} (hpos : 0 < shLen) {threads : ThreadParam}
    {column : Nat → Outcome (List α)} {t : TransportTable α} :
    fill shLen vertices threads column = .ok t ↔
      HasRoom (shLen * vertices) ∧ ∃ columns,
        (List.range vertices).mapM column = .ok columns ∧ t = ofChunks shLen columns := by
  have hzero : (zero shLen vertices : TransportTable α).columns.toArray =
      Array.replicate vertices (List.replicate shLen 0) := by
    rw [(holds_zero shLen vertices).columns_eq hpos, List.toArray_replicate]
  unfold fill
  simp only [Outcome.bind_eq_ok_iff, zero?_eq_ok_iff]
  constructor
  · rintro ⟨_, ⟨hroom, rfl⟩, out, hout, ⟨⟩⟩
    rw [hzero, Outcome.parallelFor_replicate_eq_ok_iff] at hout
    exact ⟨hroom, out.toList, hout, rfl⟩
  · rintro ⟨hroom, columns, hcolumns, rfl⟩
    refine ⟨_, ⟨hroom, rfl⟩, columns.toArray, ?_, rfl⟩
    rw [hzero, Outcome.parallelFor_replicate_eq_ok_iff]
    exact hcolumns

end TransportTable

end RadianceTransfer
