import RadianceTransfer.Proofs.Harmonics.Numbering

/-!
# What is written where

The functions are evaluated degree by degree and order by order, and each value belongs at the
number of its function. An expansion is read the other way around, number by number, and each number
is taken for the function that it belongs to. That these agree is no matter of arithmetic: nothing
here assumes anything about scalars, so it holds for words as well.

The loop that writes at computed places is spelled out in `noteBasis`, which also keeps a list of
where it has written. It finds the places one after the other: after the degrees below `l` and `k`
more functions, the first `l * l + k` places have been written and no others (`written`).

## Main definitions

* `noteBasis`: the loop that writes, with the places.
* `written`: a buffer into which a number of functions has been written.

## Main statements

* `noteBasis_eq`, `fillBasis_eq`: the loop writes what `fillBasis` puts in front of the buffer.
* `reconstruct_eq_written`: an expansion is read in the same order.
* `fillBasis_layout`: writing and reading agree.
-/

namespace RadianceTransfer.Harmonics

variable {α : Type} [Scalar α]

/-! ### Writing -/

/-- Evaluates a function and writes its value at its number. Where that was is noted. -/
def noteFunction (dir : Vec3 α) (l : UInt32) (m : Int) (buffer : List α) (places : List Nat) :
    Outcome (List α × List Nat) := do
  let i ← flatIndex? l m
  let y ← eval? l m dir
  if i < buffer.length then pure (buffer.set i y, places ++ [i]) else violate .indexOutOfRange

/-- Evaluates the functions degree by degree and order by order, and writes each at its number, into
a buffer that has to be long enough. The places are noted as they are written. -/
def noteBasis (order : UInt32) (dir : Vec3 α) (buffer : List α) :
    Outcome (List α × List Nat) := do
  let n ← coefficientCount? order
  if buffer.length < n then violate .precondition
  else
    (List.range (order.toNat + 1)).foldlM (fun state l =>
      (List.range (2 * l + 1)).foldlM (fun state (k : Nat) =>
        noteFunction dir l.toUInt32 ((k : Int) - l) state.1 state.2) state) (buffer, [])

/-- The value of the function of a number. -/
def valueAt (dir : Vec3 α) (i : Nat) : α :=
  eval (degreeOrder i).1 (degreeOrder i).2 dir

/-- What a buffer holds when the functions of the first numbers have been written into it. -/
def written (dir : Vec3 α) (buffer : List α) (i : Nat) : List α :=
  (List.range i).map (valueAt dir) ++ buffer.drop i

theorem length_written {dir : Vec3 α} {buffer : List α} {i : Nat} (h : i ≤ buffer.length) :
    (written dir buffer i).length = buffer.length := by
  rw [written, List.length_append, List.length_map, List.length_range, List.length_drop]
  omega

theorem set_written {dir : Vec3 α} {buffer : List α} {i : Nat} (h : i < buffer.length) :
    (written dir buffer i).set i (valueAt dir i) = written dir buffer (i + 1) := by
  have hlength : ((List.range i).map (valueAt dir)).length = i := by
    rw [List.length_map, List.length_range]
  rw [written, List.set_append_right _ _ hlength.le, hlength, Nat.sub_self,
    List.drop_eq_getElem_cons h, List.set_cons_zero, written, List.range_succ, List.map_append,
    List.append_assoc]
  rfl

theorem eval?_eq {l : UInt32} {m : Int} (hl : l.toNat < 2 ^ 31) (hm : m.natAbs ≤ l.toNat)
    (dir : Vec3 α) : eval? l m dir = .ok (eval l.toNat m dir) := by
  have hfits : FitsUnsigned 32 (2 * l.toNat + 1) := by
    have hpow : twoPow 32 = 2 ^ 32 := by decide
    rw [FitsUnsigned, hpow]
    omega
  rw [eval?, if_neg (not_lt.2 hm), if_neg (not_not.2 hfits)]

theorem noteFunction_eq {dir : Vec3 α} {buffer : List α} {l k : Nat} (hl : l < 2 ^ 31)
    (hk : k ≤ 2 * l) (h : l * l + k < buffer.length) :
    noteFunction dir l.toUInt32 ((k : Int) - l) (written dir buffer (l * l + k))
        (List.range (l * l + k)) =
      .ok (written dir buffer (l * l + k + 1), List.range (l * l + k + 1)) := by
  have hword : l.toUInt32.toNat = l := UInt32.toNat_ofNat_of_lt' (hl.trans (by decide))
  have hm : ((k : Int) - l).natAbs ≤ l.toUInt32.toNat := by omega
  have hvalue : eval l ((k : Int) - l) dir = valueAt dir (l * l + k) := by
    rw [valueAt, degreeOrder_square_add hk]
  rw [noteFunction, flatIndex?_eq (by omega) hm, Outcome.bind_ok, eval?_eq (by omega) hm,
    Outcome.bind_ok, hword, flatIndex_sub, hvalue, length_written h.le, if_pos h, set_written h,
    List.range_succ]
  rfl

theorem noteBasis_eq {order : UInt32} (horder : order.toNat < 2 ^ 31) (dir : Vec3 α)
    {buffer : List α} (h : coefficientCount order.toNat ≤ buffer.length) :
    noteBasis order dir buffer =
      .ok (written dir buffer (coefficientCount order.toNat),
        List.range (coefficientCount order.toNat)) := by
  have hdegrees : Outcome.Returns
      (· = (written dir buffer (coefficientCount order.toNat),
        List.range (coefficientCount order.toNat)))
      ((List.range (order.toNat + 1)).foldlM (fun state l =>
        (List.range (2 * l + 1)).foldlM (fun state (k : Nat) =>
          noteFunction dir l.toUInt32 ((k : Int) - l) state.1 state.2) state) (buffer, [])) := by
    refine .foldlM_range (P := fun l state =>
      state = (written dir buffer (l * l), List.range (l * l))) rfl ?_
    rintro l hl _ rfl
    have hle : (l + 1) * (l + 1) ≤ buffer.length := (Nat.mul_self_le_mul_self hl).trans h
    have hnext : (l + 1) * (l + 1) = l * l + (2 * l + 1) := by ring
    rw [hnext] at hle ⊢
    refine .foldlM_range (P := fun k state =>
      state = (written dir buffer (l * l + k), List.range (l * l + k))) rfl ?_
    rintro k hk _ rfl
    exact ⟨_, noteFunction_eq (by omega) (by omega) (by omega), rfl⟩
  obtain ⟨_, hrun, rfl⟩ := hdegrees
  rw [noteBasis, coefficientCount?_eq horder, Outcome.bind_ok, if_neg (not_lt.2 h), hrun]

theorem map_valueAt (order : Nat) (dir : Vec3 α) :
    (List.range (coefficientCount order)).map (valueAt dir) = basis order dir := by
  refine List.ext_getElem? fun i => ?_
  rw [List.getElem?_map]
  by_cases hi : i < coefficientCount order
  · rw [List.getElem?_range hi, getElem?_basis hi]
    rfl
  · rw [List.getElem?_eq_none (by rw [List.length_range]; omega),
      List.getElem?_eq_none (by rw [length_basis]; omega)]
    rfl

theorem fillBasis_eq {order : UInt32} (horder : order.toNat < 2 ^ 31) (dir : Vec3 α)
    {buffer : List α} (h : coefficientCount order.toNat ≤ buffer.length) :
    fillBasis order dir buffer = .ok (written dir buffer (coefficientCount order.toNat)) := by
  rw [fillBasis, coefficientCount?_eq horder, Outcome.bind_ok, if_neg (not_lt.2 h), written,
    map_valueAt]

theorem getElem?_written {dir : Vec3 α} {buffer : List α} {n i : Nat} (hi : i < n) :
    (written dir buffer n)[i]? = some (valueAt dir i) := by
  rw [written, List.getElem?_append_left (by rwa [List.length_map, List.length_range]),
    List.getElem?_map, List.getElem?_range hi]
  rfl

theorem getElem?_written_of_le {dir : Vec3 α} {buffer : List α} {n i : Nat} (hi : n ≤ i) :
    (written dir buffer n)[i]? = buffer[i]? := by
  have hlength : ((List.range n).map (valueAt dir)).length = n := by
    rw [List.length_map, List.length_range]
  rw [written, List.getElem?_append_right (hlength.le.trans hi), hlength, List.getElem?_drop,
    Nat.add_sub_cancel' hi]

/-! ### Reading -/

/-- The value of an expansion, with what has been written into a buffer. -/
theorem reconstruct_eq_written {coeffs : List α} {n : Nat} (h : coeffs.length ≤ n) (dir : Vec3 α)
    (buffer : List α) :
    reconstruct coeffs dir =
      (List.zipWith (· * ·) coeffs (written dir buffer n)).foldl (· + ·) 0 := by
  have hterms : List.zipWith (· * ·) coeffs (written dir buffer n) =
      coeffs.zipIdx.map fun p => p.1 * valueAt dir p.2 := by
    refine List.ext_getElem? fun i => ?_
    rw [List.getElem?_zipWith, List.getElem?_map, List.getElem?_zipIdx, Nat.zero_add]
    by_cases hi : i < coeffs.length
    · rw [List.getElem?_eq_getElem hi, getElem?_written (hi.trans_le h)]
      rfl
    · rw [List.getElem?_eq_none (not_lt.1 hi)]
      rfl
  rw [hterms, List.foldl_map]
  rfl

/-- **Writing and reading agree on the layout.** Up to a degree below `2 ^ 31` and into a buffer
with room for all functions, each place below their number is written once, and in turn, with the
value of the function that has this number. What lies behind them stays. A list of coefficients up
to their number, complete in its last degree or not, has for its value the sum of its products with
what was written, from the first one to the last, whatever addition and multiplication are. -/
theorem fillBasis_layout {order : UInt32} (horder : order.toNat < 2 ^ 31) (dir : Vec3 α)
    {buffer : List α} (hbuffer : (order.toNat + 1) ^ 2 ≤ buffer.length) :
    ∃ out, fillBasis order dir buffer = .ok out ∧
      noteBasis order dir buffer = .ok (out, List.range ((order.toNat + 1) ^ 2)) ∧
      out.length = buffer.length ∧
      (∀ i < (order.toNat + 1) ^ 2, ∃ (l : UInt32) (m : Int) (y : α),
        degreeOrder? i = .ok (l.toNat, m) ∧ eval? l m dir = .ok y ∧ out[i]? = some y) ∧
      (∀ i, (order.toNat + 1) ^ 2 ≤ i → out[i]? = buffer[i]?) ∧
      ∀ coeffs : List α, coeffs.length ≤ (order.toNat + 1) ^ 2 →
        reconstruct coeffs dir = (List.zipWith (· * ·) coeffs out).foldl (· + ·) 0 := by
  have hcount : (order.toNat + 1) ^ 2 = coefficientCount order.toNat := Nat.pow_two _
  rw [hcount] at hbuffer ⊢
  refine ⟨_, fillBasis_eq horder dir hbuffer, noteBasis_eq horder dir hbuffer,
    length_written hbuffer, fun i hi => ?_, fun i hi => getElem?_written_of_le hi,
    fun coeffs hcoeffs => reconstruct_eq_written hcoeffs dir buffer⟩
  have hi' : i < 2 ^ 62 := hi.trans_le (coefficientCount_le_of_lt horder)
  obtain ⟨l, m, hl, hm, hfunction, -⟩ := exists_degreeOrder_eq hi'
  refine ⟨l, m, _, ?_, eval?_eq hl hm dir, ?_⟩
  · rw [degreeOrder?, degreeOrderFrom_eq ((wholeRoot_lt hi').trans (by decide)) hi', hfunction]
  · rw [getElem?_written hi, valueAt, hfunction]

/-- Six coefficients end inside the second degree, and two places lie behind the nine functions. -/
theorem fillBasis_layout_six :
    let dir : Vec3 Float := ⟨1, 2, 3⟩
    let coeffs : List Float := [1, 2, 3, 4, 5, 6]
    ∃ out, fillBasis 2 dir (List.replicate 11 7) = .ok out ∧
      noteBasis 2 dir (List.replicate 11 7) = .ok (out, [0, 1, 2, 3, 4, 5, 6, 7, 8]) ∧
      out[9]? = some 7 ∧ out[10]? = some 7 ∧
      (∃ y, eval? 2 (-1) dir = .ok y ∧ out[5]? = some y) ∧
      reconstruct coeffs dir = (List.zipWith (· * ·) coeffs out).foldl (· + ·) 0 := by
  intro dir coeffs
  have horder : (2 : UInt32).toNat < 2 ^ 31 := by decide
  have hbuffer : ((2 : UInt32).toNat + 1) ^ 2 ≤ (List.replicate 11 (7 : Float)).length := by decide
  obtain ⟨out, hfill, hnote, -, hvalues, hrest, hsum⟩ := fillBasis_layout horder dir hbuffer
  refine ⟨out, hfill, hnote, hrest 9 le_rfl, hrest 10 (Nat.le_succ 9), ?_, hsum coeffs (by decide)⟩
  obtain ⟨l, m, y, hfunction, hy, hout⟩ := hvalues 5 (by decide)
  have hfive : degreeOrder? 5 = .ok (2, -1) :=
    (degreeOrderFrom_eq ((wholeRoot_lt (by decide)).trans (by decide)) (by decide)).trans
      (congrArg Except.ok (degreeOrder_square_add (l := 2) (k := 1) (by decide)))
  have hl : l = 2 ∧ m = -1 := by
    have h := Except.ok.inj (hfive.symm.trans hfunction)
    rw [Prod.mk.injEq] at h
    exact ⟨UInt32.toNat_inj.1 h.1.symm, h.2.symm⟩
  rw [hl.1, hl.2] at hy
  exact ⟨y, hy, hout⟩

end RadianceTransfer.Harmonics
