import Mathlib
import RadianceTransfer.Proofs.Transport.Table

/-!
# The columns that are written are the columns that are read

Writers of a table see its flat array cut into pieces, one for each vertex, and all of them may
write at once. Readers look a column up by its vertex, at a place they compute. How many vertices
there are is not stored: it follows from the size of the array. What is written and what is read
agree because of one invariant: the array consists of as many columns of one length as there were
vertices when the table was made. Both ways of making a table establish it, and filling a table and
adding one of the same shape keep it, so it holds of every table that can come about.

## Main definitions

* `positions`: where a column lies in the array.
* `writeColumns`: writing all columns in a parallel loop.
* `Reached`: the tables that can come about.

## Main statements

* `ofColumns_eq_ok_iff`, `Holds.writeColumns`, `Holds.sum`: what making and changing tables does to
  the columns.
* `Reached.fill`, `Reached.mapColumns`: filling a table and changing its columns lead to nothing
  else.
* `Reached.exists_holds`: the invariant.
* `columns_read_back`: all of it.
-/

namespace RadianceTransfer.TransportTable

variable {α : Type} {shLen vertices i k : Nat} {t t' : TransportTable α}
  {columns columns' : List (List α)} {col : List α}

/-! ### Places in the array -/

/-- Where a column lies in the array. -/
def positions (shLen i : Nat) : Set Nat :=
  Set.Ico (i * shLen) ((i + 1) * shLen)

theorem pairwise_disjoint_positions (shLen : Nat) :
    Pairwise (Function.onFun Disjoint (positions shLen)) := by
  have hmono : Monotone fun i => i * shLen := by
    intro i j hij
    exact Nat.mul_le_mul_right shLen hij
  exact hmono.pairwise_disjoint_on_Ico_succ

theorem exists_positions (hpos : 0 < shLen) {p : Nat} (hp : p < shLen * vertices) :
    ∃ i < vertices, p ∈ positions shLen i := by
  refine ⟨p / shLen, Nat.div_lt_of_lt_mul hp, Nat.div_mul_le_self p shLen, ?_⟩
  rw [Nat.mul_comm]
  exact Nat.lt_mul_div_succ p hpos

namespace Holds

/-- The entries of a column stand at its places. -/
theorem getElem?_data (h : t.Holds shLen columns) (hcol : columns[i]? = some col) {p : Nat}
    (hp : p ∈ positions shLen i) : t.data[p]? = col[p - i * shLen]? := by
  obtain ⟨hlo, hhi⟩ := hp
  rw [Nat.succ_mul] at hhi
  rw [← Array.getElem?_toList, h.toList_data, ← take_drop_flatten h.length_eq hcol,
    List.getElem?_take_of_lt (by omega), List.getElem?_drop, Nat.add_sub_cancel' hlo]

/-- Writers and readers of a vertex have the same column. -/
theorem getElem?_columns_eq_some_iff (h : t.Holds shLen columns) (hpos : 0 < shLen) :
    t.columns[i]? = some col ↔ t.column i = .ok col := by
  rw [h.columns_eq hpos, h.column_eq_ok_iff hpos]

/-- The readers together get the columns of which the table consists. -/
theorem mapM_column (h : t.Holds shLen columns) :
    (List.range columns.length).mapM t.column = .ok columns := by
  rw [Outcome.mapM_eq_ok_iff, List.forall₂_iff_get]
  refine ⟨List.length_range, fun v _ hv => ?_⟩
  simpa using h.column_eq (List.getElem?_eq_getElem hv)

end Holds

/-! ### Making and changing tables -/

theorem wrongColumn?_eq_none_iff :
    wrongColumn? shLen columns = none ↔ ∀ c ∈ columns, c.length = shLen := by
  rw [wrongColumn?, Option.map_eq_none_iff, List.find?_eq_none]
  constructor
  · intro h c hc
    obtain ⟨i, hi, rfl⟩ := List.getElem_of_mem hc
    simpa using h _ (List.mk_mem_zipIdx_iff_getElem?.2 (List.getElem?_eq_getElem hi))
  · rintro h ⟨c, i⟩ hc
    simp [h c (List.fst_mem_of_mem_zipIdx hc)]

theorem ofColumns_eq_ok_iff : ofColumns shLen columns = .ok t ↔
    (∀ c ∈ columns, c.length = shLen) ∧ t = ofChunks shLen columns := by
  constructor
  · intro h
    by_cases hlen : ∀ c ∈ columns, c.length = shLen
    · rw [ofColumns_eq_ok hlen] at h
      cases h
      exact ⟨hlen, rfl⟩
    · obtain ⟨⟨i, got⟩, hwrong⟩ := Option.ne_none_iff_exists'.1 (mt wrongColumn?_eq_none_iff.1 hlen)
      rw [ofColumns, hwrong, Outcome.bind_eq_ok_iff] at h
      obtain ⟨-, -, ⟨⟩⟩ := h
  · rintro ⟨hlen, rfl⟩
    exact ofColumns_eq_ok hlen

/-- A column of another length is reported if there is room for the table. -/
theorem exists_report_of_wrong_length (hroom : HasRoom (shLen * columns.length))
    (h : ¬ ∀ c ∈ columns, c.length = shLen) : ∃ i c, columns[i]? = some c ∧ c.length ≠ shLen ∧
      ofColumns shLen columns = report (.columnLength i c.length shLen) := by
  obtain ⟨⟨i, got⟩, hwrong⟩ := Option.ne_none_iff_exists'.1 (mt wrongColumn?_eq_none_iff.1 h)
  obtain ⟨⟨c, j⟩, hfound, ⟨⟩⟩ := Option.map_eq_some_iff.1 hwrong
  refine ⟨i, c, List.mk_mem_zipIdx_iff_getElem?.1 (List.mem_of_find?_eq_some hfound), ?_, ?_⟩
  · simpa using List.find?_some hfound
  · have hrequired : requireRoom (shLen * columns.length) = .ok () :=
      requireRoom_eq_ok_iff.2 hroom
    simp only [ofColumns, hwrong, hrequired, Outcome.bind_ok]

/-- All columns are written in a parallel loop, each by itself. -/
def writeColumns (t : TransportTable α) (threads : ThreadParam)
    (write : Nat → List α → Outcome (List α)) : Outcome (TransportTable α) := do
  let columns ← parallelFor t.columns.toArray threads write
  pure (ofChunks t.shLen columns.toList)

/-- What is written to a column takes up as many entries as the column has. -/
def KeepsLength (shLen : Nat) (write : Nat → List α → Outcome (List α)) : Prop :=
  ∀ i col col', col.length = shLen → write i col = .ok col' → col'.length = shLen

/-- Only one column is written. -/
def overwrite (i : Nat) (values : List α) (j : Nat) (col : List α) : Outcome (List α) :=
  .ok (if j = i then values else col)

theorem keepsLength_overwrite {values : List α} (hvalues : values.length = shLen) :
    KeepsLength shLen (overwrite i values) := by
  rintro j col col' hlen ⟨⟩
  split
  · exact hvalues
  · exact hlen

/-- A table is filled by writing the columns of one that is zero. -/
theorem fill_eq_writeColumns [Scalar α] (shLen vertices : Nat) (threads : ThreadParam)
    (column : Nat → Outcome (List α)) : fill shLen vertices threads column =
      zero? shLen vertices >>= fun t => t.writeColumns threads fun v _ => column v := by
  refine Outcome.bind_congr fun t ht => ?_
  obtain ⟨-, rfl⟩ := zero?_eq_ok_iff.1 ht
  rfl

/-- Writing that never fails does in any order what is done to the columns one after the other. -/
theorem writeColumns_eq_mapColumns (t : TransportTable α) (threads : ThreadParam)
    (f : Nat → List α → List α) :
    t.writeColumns threads (fun i col => .ok (f i col)) = .ok (t.mapColumns f) := by
  have hmaps : Pool.Maps (fun i col => (.ok (f i col) : Outcome (List α))) t.columns.toArray
      (t.columns.zipIdx.map fun p => f p.2 p.1).toArray := by
    refine ⟨by simp, fun i col hcol => ⟨f i col, ?_, rfl⟩⟩
    rw [List.getElem?_toArray] at hcol
    simp [hcol]
  rw [writeColumns, parallelFor_eq hmaps]
  rfl

namespace Holds

variable {threads : ThreadParam} {write : Nat → List α → Outcome (List α)}

/-- Writing returns if every column is written, and what is written are the new columns. -/
theorem writeColumns_eq_ok_iff (h : t.Holds shLen columns) (hpos : 0 < shLen) :
    t.writeColumns threads write = .ok t' ↔
      ∃ columns', t' = ofChunks shLen columns' ∧ columns'.length = columns.length ∧
        ∀ i col, columns[i]? = some col →
          ∃ col', columns'[i]? = some col' ∧ write i col = .ok col' := by
  rw [writeColumns, Outcome.bind_eq_ok_iff, h.columns_eq hpos, h.shLen_eq]
  simp only [parallelFor_eq_ok_iff, Pool.Maps]
  constructor
  · rintro ⟨out, ⟨hsize, hmaps⟩, ⟨⟩⟩
    refine ⟨out.toList, rfl, by simpa using hsize, fun i col hcol => ?_⟩
    simpa using hmaps i col (by simpa using hcol)
  · rintro ⟨columns', rfl, hlen, hmaps⟩
    refine ⟨columns'.toArray, ⟨by simpa using hlen, fun i col hcol => ?_⟩, rfl⟩
    simpa using hmaps i col (by simpa using hcol)

theorem writeColumns (h : t.Holds shLen columns) (hpos : 0 < shLen)
    (hkeep : KeepsLength shLen write) (hok : t.writeColumns threads write = .ok t') :
    ∃ columns', columns'.length = columns.length ∧ t'.Holds shLen columns' ∧
      ∀ i col, columns[i]? = some col →
        ∃ col', columns'[i]? = some col' ∧ write i col = .ok col' := by
  obtain ⟨columns', rfl, hlen, hwritten⟩ := (h.writeColumns_eq_ok_iff hpos).1 hok
  refine ⟨columns', hlen, holds_ofChunks fun col' hcol' => ?_, hwritten⟩
  obtain ⟨i, hi, rfl⟩ := List.getElem_of_mem hcol'
  obtain ⟨col, hcol, hcollen⟩ := h.exists_getElem? (hlen ▸ hi : i < columns.length)
  obtain ⟨_, hget, hwrite⟩ := hwritten i col hcol
  rw [List.getElem?_eq_getElem hi] at hget
  cases hget
  exact hkeep i col _ hcollen hwrite

/-- Each vertex has the column that was written for it. -/
theorem column_writeColumns (h : t.Holds shLen columns) (hpos : 0 < shLen)
    (hkeep : KeepsLength shLen write) (hok : t.writeColumns threads write = .ok t')
    (hi : i < columns.length) : ∃ col, t.column i = .ok col ∧ t'.column i = write i col := by
  obtain ⟨columns', -, h', hwritten⟩ := h.writeColumns hpos hkeep hok
  have hcol : columns[i]? = some columns[i] := List.getElem?_eq_getElem hi
  obtain ⟨col', hcol', hwrite⟩ := hwritten i _ hcol
  refine ⟨columns[i], h.column_eq hcol, ?_⟩
  rw [h'.column_eq hcol', hwrite]

/-- A table whose columns are those of another one but for one of them differs from it at the place
of that one only. -/
theorem getElem?_data_eq (h : t.Holds shLen columns) (h' : t'.Holds shLen columns')
    (hpos : 0 < shLen) (hlen : columns'.length = columns.length)
    (hother : ∀ j, j ≠ i → columns'[j]? = columns[j]?) {p : Nat} (hp : p ∉ positions shLen i) :
    t'.data[p]? = t.data[p]? := by
  by_cases hsize : p < shLen * columns.length
  · obtain ⟨j, hj, hpj⟩ := exists_positions hpos hsize
    have hji : j ≠ i := by
      rintro rfl
      exact hp hpj
    have hcol : columns[j]? = some columns[j] := List.getElem?_eq_getElem hj
    rw [h.getElem?_data hcol hpj, h'.getElem?_data ((hother j hji).trans hcol) hpj]
  · rw [Array.getElem?_eq_none (by rw [h'.size_data, hlen]; omega),
      Array.getElem?_eq_none (by rw [h.size_data]; omega)]

/-- Writing one column. -/
theorem exists_overwrite (h : t.Holds shLen columns) (hpos : 0 < shLen) (threads : ThreadParam)
    (hi : i < columns.length) {values : List α} (hvalues : values.length = shLen) :
    ∃ t', t.writeColumns threads (overwrite i values) = .ok t' ∧ t'.column i = .ok values ∧
      (∀ j, j ≠ i → t'.column j = t.column j) ∧
      ∀ p, p ∉ positions shLen i → t'.data[p]? = t.data[p]? := by
  have hlen : (columns.set i values).length = columns.length := List.length_set
  have hset : (columns.set i values)[i]? = some values := List.getElem?_set_self hi
  have hother (j : Nat) (hji : j ≠ i) : (columns.set i values)[j]? = columns[j]? :=
    List.getElem?_set_ne hji.symm
  have hok : t.writeColumns threads (overwrite i values) =
      .ok (ofChunks shLen (columns.set i values)) := by
    refine (h.writeColumns_eq_ok_iff hpos).2 ⟨_, rfl, hlen, fun j col hcol => ?_⟩
    by_cases hji : j = i
    · subst hji
      exact ⟨values, hset, congrArg Except.ok (if_pos rfl)⟩
    · exact ⟨col, (hother j hji).trans hcol, congrArg Except.ok (if_neg hji)⟩
  have h' : (ofChunks shLen (columns.set i values)).Holds shLen (columns.set i values) := by
    refine holds_ofChunks fun col hcol => ?_
    rcases List.mem_or_eq_of_mem_set hcol with hmem | rfl
    · exact h.length_eq col hmem
    · exact hvalues
  refine ⟨_, hok, h'.column_eq hset, fun j hji => ?_, fun p hp =>
    h.getElem?_data_eq h' hpos hlen hother hp⟩
  by_cases hj : j < columns.length
  · have hcol : columns[j]? = some columns[j] := List.getElem?_eq_getElem hj
    rw [h.column_eq hcol, h'.column_eq ((hother j hji).trans hcol)]
  · rw [h.column_eq_violate hpos (by omega), h'.column_eq_violate hpos (by omega)]

/-- Everyone reads the columns of which the table consists. -/
theorem exists_column_iff (h : t.Holds shLen columns) (hpos : 0 < shLen) :
    (∃ col, t.column i = .ok col) ↔ i < t.vertexCount := by
  simp only [h.column_eq_ok_iff hpos, h.vertexCount_eq hpos, List.getElem?_eq_some_iff]
  constructor
  · rintro ⟨_, hi, -⟩
    exact hi
  · intro hi
    exact ⟨columns[i], hi, rfl⟩

end Holds

/-! ### All tables -/

section Reached

variable [Scalar α]

/-- The tables with columns of a given length, one for each of a number of vertices, that can come
about. -/
inductive Reached (shLen : Nat) : (vertices : Nat) → TransportTable α → Prop where
  /-- A table that is zero. -/
  | zero {vertices : Nat} {t : TransportTable α} (h : zero? shLen vertices = .ok t) :
    Reached shLen vertices t
  /-- A table of given columns. -/
  | ofColumns {columns : List (List α)} {t : TransportTable α}
    (h : ofColumns shLen columns = .ok t) : Reached shLen columns.length t
  /-- A table that is filled. -/
  | write {vertices : Nat} {t t' : TransportTable α} (h : Reached shLen vertices t)
    {threads : ThreadParam} {write : Nat → List α → Outcome (List α)}
    (hkeep : KeepsLength shLen write) (hok : t.writeColumns threads write = .ok t') :
    Reached shLen vertices t'
  /-- A table to which another one of the same shape is added. -/
  | add {vertices : Nat} {t other t' : TransportTable α} (h : Reached shLen vertices t)
    (hshLen : other.shLen = t.shLen) (hsize : other.data.size = t.data.size)
    (hok : t.add other = .ok t') : Reached shLen vertices t'

/-- The passes fill tables with columns that they compute. -/
theorem Reached.fill {threads : ThreadParam} {column : Nat → Outcome (List α)}
    (hlen : ∀ v col, column v = .ok col → col.length = shLen)
    (hok : fill shLen vertices threads column = .ok t) : Reached shLen vertices t := by
  rw [fill_eq_writeColumns, Outcome.bind_eq_ok_iff] at hok
  obtain ⟨zeros, hzero, hwrite⟩ := hok
  exact .write (.zero hzero) (fun v _ col _ hcol => hlen v col hcol) hwrite

/-- Columns can also be changed one after the other. -/
theorem Reached.mapColumns {f : Nat → List α → List α} (h : Reached shLen vertices t)
    (hlen : ∀ i col, col.length = shLen → (f i col).length = shLen) :
    Reached shLen vertices (t.mapColumns f) := by
  refine .write h ?_ (writeColumns_eq_mapColumns t ⟨1, 1⟩ f)
  rintro i col _ hcol ⟨⟩
  exact hlen i col hcol

/-- **The invariant.** A table that comes about consists of one column for each vertex. -/
theorem Reached.exists_holds (hpos : 0 < shLen) (h : Reached shLen vertices t) :
    ∃ columns, columns.length = vertices ∧ t.Holds shLen columns := by
  induction h with
  | zero hzero =>
    obtain ⟨-, rfl⟩ := zero?_eq_ok_iff.1 hzero
    exact ⟨_, List.length_replicate, holds_zero _ _⟩
  | ofColumns hcolumns =>
    obtain ⟨hlen, rfl⟩ := ofColumns_eq_ok_iff.1 hcolumns
    exact ⟨_, rfl, holds_ofChunks hlen⟩
  | write _ hkeep hok ih =>
    obtain ⟨columns, rfl, hholds⟩ := ih
    obtain ⟨columns', hlen, hholds', -⟩ := hholds.writeColumns hpos hkeep hok
    exact ⟨columns', hlen, hholds'⟩
  | @add _ t other _ _ hshLen hsize hok ih =>
    obtain ⟨columns, rfl, hholds⟩ := ih
    have hother : other.data.size = other.shLen * columns.length := by
      rw [hsize, hshLen, hholds.size_data, hholds.shLen_eq]
    obtain ⟨columns', hlen, hholds'⟩ := TransportTable.exists_holds hother
    rw [hshLen, hholds.shLen_eq] at hholds'
    rw [add_eq_ok hsize.symm] at hok
    cases hok
    refine ⟨_, ?_, hholds.sum hholds'⟩
    rw [List.length_zipWith, hlen, Nat.min_self]

/-- **The columns that are written are the columns that are read.** Take any table that comes about,
with columns of a positive length.

Its array has one column for each vertex, and that is how many vertices it counts. The writers get
as many columns, each of them with the entries at its own places in the array, which it shares with
no other.

Whatever is written in a loop over any number of workers, each vertex has the column that was
written for it. If only one column is written, it is read back, and neither another column nor
another place in the array changes.

A column is read exactly if it is that of a vertex, and it is the one that its writer has. The table
of all columns that are read is the table itself. A table of given columns is refused exactly if one
of them is of another length. -/
theorem columns_read_back (hpos : 0 < shLen) (h : Reached shLen vertices t) :
    (t.shLen = shLen ∧ t.vertexCount = vertices ∧ t.data.size = shLen * vertices) ∧
    (t.columns.length = vertices ∧ Pairwise (Function.onFun Disjoint (positions shLen)) ∧
      ∀ i col, t.columns[i]? = some col → col.length = shLen ∧
        ∀ p ∈ positions shLen i, t.data[p]? = col[p - i * shLen]?) ∧
    (∀ threads write t', KeepsLength shLen write → t.writeColumns threads write = .ok t' →
      Reached shLen vertices t' ∧
        ∀ i < vertices, ∃ col, t.column i = .ok col ∧ t'.column i = write i col) ∧
    (∀ threads, ∀ i < vertices, ∀ values : List α, values.length = shLen →
      ∃ t', t.writeColumns threads (overwrite i values) = .ok t' ∧ Reached shLen vertices t' ∧
        t'.column i = .ok values ∧ (∀ j, j ≠ i → t'.column j = t.column j) ∧
        ∀ p, p ∉ positions shLen i → t'.data[p]? = t.data[p]?) ∧
    ((∀ i, (∃ col, t.column i = .ok col) ↔ i < t.vertexCount) ∧
      ∀ i col, t.columns[i]? = some col ↔ t.column i = .ok col) ∧
    (∃ columns, (List.range t.vertexCount).mapM t.column = .ok columns ∧
      ofColumns shLen columns = .ok t) ∧
    ∀ columns : List (List α),
      ((∃ t', ofColumns shLen columns = .ok t') ↔ ∀ col ∈ columns, col.length = shLen) ∧
      (HasRoom (shLen * columns.length) → (¬ ∀ col ∈ columns, col.length = shLen) →
        ∃ i col, columns[i]? = some col ∧ col.length ≠ shLen ∧
          ofColumns shLen columns = report (.columnLength i col.length shLen)) := by
  obtain ⟨columns, rfl, hholds⟩ := h.exists_holds hpos
  have hcount := hholds.vertexCount_eq hpos
  refine ⟨⟨hholds.shLen_eq, hcount, hholds.size_data⟩, ⟨?_, pairwise_disjoint_positions shLen, ?_⟩,
    ?_, ?_, ⟨fun i => hholds.exists_column_iff hpos,
      fun i col => hholds.getElem?_columns_eq_some_iff hpos⟩, ?_,
    fun columns => ⟨?_, exists_report_of_wrong_length⟩⟩
  · rw [hholds.columns_eq hpos]
  · intro i col hcol
    rw [hholds.columns_eq hpos] at hcol
    exact ⟨hholds.length_eq col (List.mem_of_getElem? hcol), fun p hp =>
      hholds.getElem?_data hcol hp⟩
  · intro threads write t' hkeep hok
    exact ⟨h.write hkeep hok, fun i hi => hholds.column_writeColumns hpos hkeep hok hi⟩
  · intro threads i hi values hvalues
    obtain ⟨t', hok, hread, hother, hplace⟩ := hholds.exists_overwrite hpos threads hi hvalues
    exact ⟨t', hok, h.write (keepsLength_overwrite hvalues) hok, hread, hother, hplace⟩
  · refine ⟨columns, ?_, ofColumns_eq_ok_iff.2 ⟨hholds.length_eq, hholds.eq⟩⟩
    rw [hcount, hholds.mapM_column]
  · simp only [ofColumns_eq_ok_iff]
    exact ⟨fun ⟨_, hlen, _⟩ => hlen, fun hlen => ⟨_, hlen, rfl⟩⟩

/-- The middle one of three columns is written by one of three workers. -/
theorem columns_read_back_three : ∃ t t' : TransportTable Float, 0 < 2 ∧ Reached 2 3 t ∧
    t.writeColumns ⟨3, 1⟩ (overwrite 1 [5, 6]) = .ok t' ∧ Reached 2 3 t' ∧ t'.vertexCount = 3 ∧
    t'.column 1 = .ok [5, 6] ∧ t'.column 2 = t.column 2 ∧ ¬ ∃ col, t'.column 3 = .ok col := by
  have hzero : zero? 2 3 = .ok (zero 2 3 : TransportTable Float) :=
    zero?_eq_ok_iff.2 ⟨hasRoom_iff_lt.2 (by decide), rfl⟩
  have hreached : Reached 2 3 (zero 2 3 : TransportTable Float) := .zero hzero
  obtain ⟨-, -, -, hwrite, -⟩ := columns_read_back two_pos hreached
  obtain ⟨t', hok, hreached', hread, hother, -⟩ := hwrite ⟨3, 1⟩ 1 (by decide) [5, 6] rfl
  obtain ⟨⟨-, hcount, -⟩, -, -, -, ⟨hrange, -⟩, -⟩ := columns_read_back two_pos hreached'
  refine ⟨_, t', two_pos, hreached, hok, hreached', hcount, hread, hother 2 (by decide), ?_⟩
  rw [hrange, hcount]
  decide

end Reached

end RadianceTransfer.TransportTable
