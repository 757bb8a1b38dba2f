import Mathlib
import RadianceTransfer.Proofs.Number.Double

/-!
# Square roots of whole numbers as double words

A whole number of up to 53 digits is a double word. The root of that word is the one nearest to the
real square root. If rounding took it up to the next whole number, its whole part would be wrong.
For numbers of up to 52 digits that does not happen: the real root is farther below the next whole
number than half of the last place that a word has room for.

The arguments are about significands. A result with a full significand is only rounded by what has
been cut off, and a full significand is stored as it is.

## Main definitions

* `Double.nearestRoot`: the whole number nearest to a square root.
* `Double.rootPlaces`: how many binary places the root of a whole number has room for.

## Main statements

* `Double.stored_normal`: full significands are stored as they are.
* `Double.unpacked_ofNat`: the word of a whole number.
* `Double.toUInt64_sqrt_ofNat`: the whole part of its rounded root.
-/

namespace RadianceTransfer.Double

open Float.Model Float.Model.UnpackedFloat

/-! ### Full significands -/

theorem log2_eq_of_normal {m : Nat} (hlo : 2 ^ 52 ≤ m) (hhi : m < 2 ^ 53) (k : Nat) :
    (m * 2 ^ k).log2 = 52 + k := by
  have hpos : 0 < m := (Nat.two_pow_pos 52).trans_le hlo
  rw [Nat.log2_eq_iff (Nat.mul_pos hpos (Nat.two_pow_pos k)).ne', Nat.pow_add,
    show 52 + k + 1 = 53 + k by omega, Nat.pow_add]
  exact ⟨Nat.mul_le_mul_right _ hlo, Nat.mul_lt_mul_of_pos_right hhi (Nat.two_pow_pos k)⟩

theorem log2_of_normal {m : Nat} (hlo : 2 ^ 52 ≤ m) (hhi : m < 2 ^ 53) : m.log2 = 52 := by
  have h := log2_eq_of_normal hlo hhi 0
  rwa [Nat.pow_zero, Nat.mul_one] at h

/-- Digits that are zero are lost without a trace. -/
theorem shiftRight_mul_two_pow (m k : Nat) :
    (⟨m * 2 ^ k, false, false⟩ : ExtendedMantissa) >>> k = ⟨m, false, false⟩ := by
  induction k generalizing m with
  | zero => rw [Nat.pow_zero, Nat.mul_one]; rfl
  | succ k ih =>
    have hstep : (⟨m * 2 ^ (k + 1), false, false⟩ : ExtendedMantissa) >>> (k + 1) =
        ((⟨m * 2 ^ (k + 1), false, false⟩ : ExtendedMantissa) >>> k).shiftRightOne := rfl
    rw [hstep, Nat.pow_succ', ← Nat.mul_assoc, ih, ExtendedMantissa.shiftRightOne,
      Nat.mul_div_cancel _ two_pos, Nat.mul_mod_left]
    rfl

theorem shiftToTargetExponent_mul_two_pow {m : Nat} (hlo : 2 ^ 52 ≤ m) (hhi : m < 2 ^ 53) (k : Nat)
    {e : Int} (he : -1074 ≤ e + k) :
    shiftToTargetExponent Format.binary64 (m * 2 ^ k) e .exact = (⟨m, false, false⟩, e + k) := by
  have hshift : (Format.binary64.targetExponent (totalExponent (m * 2 ^ k) e) - e).toNat = k := by
    rw [targetExponent_eq, totalExponent, log2_eq_of_normal hlo hhi]
    omega
  rw [shiftToTargetExponent, shiftToExponent, hshift]
  exact congrArg (·, e + (k : Int)) (shiftRight_mul_two_pow m k)

/-- What has been rounded to a full significand with zeros after it is not rounded again. -/
theorem roundWithAccuracy_of_shift {s : Sign} {m n k : Nat} {e e' : Int} {a : Accuracy}
    {em : ExtendedMantissa} (hlo : 2 ^ 52 ≤ m) (hhi : m < 2 ^ 53) (he : -1074 ≤ e' + k)
    (hshift : shiftToTargetExponent Format.binary64 n e a = (em, e'))
    (hround : em.roundedMantissa = m * 2 ^ k) :
    roundWithAccuracy Format.binary64 s n e a =
      .finite s m (e' + k) ((Nat.two_pow_pos 52).trans_le hlo) := by
  have hpos : m ≠ 0 := ((Nat.two_pow_pos 52).trans_le hlo).ne'
  have h := shiftToTargetExponent_mul_two_pow hlo hhi k he
  unfold roundWithAccuracy
  simp only [hshift, hround, h]
  exact dif_neg hpos

/-- An exact result with enough digits is only shifted. -/
theorem roundWithAccuracy_exact (s : Sign) {m : Nat} (hlo : 2 ^ 52 ≤ m) (hhi : m < 2 ^ 53) (k : Nat)
    {e : Int} (he : -1074 ≤ e + k) :
    roundWithAccuracy Format.binary64 s (m * 2 ^ k) e .exact =
      .finite s m (e + k) ((Nat.two_pow_pos 52).trans_le hlo) := by
  have h := roundWithAccuracy_of_shift (s := s) (k := 0) hlo hhi (by simpa using he)
    (shiftToTargetExponent_mul_two_pow hlo hhi k he) (Nat.mul_one m).symm
  simpa using h

theorem accuracy_ofMantissaAndAccuracy (m : Nat) (a : Accuracy) :
    (ExtendedMantissa.ofMantissaAndAccuracy m a).accuracy = a := by
  rcases a with _ | (_ | _ | _) <;> rfl

/-- A full significand is rounded by what has been cut off. If it becomes too long by this, it is a
power of two. -/
theorem roundWithAccuracy_normal (s : Sign) {m : Nat} (hlo : 2 ^ 52 ≤ m) (hhi : m < 2 ^ 53)
    {e : Int} (he : -1074 ≤ e) (a : Accuracy) (hup : a.roundToNearestEven m ≤ 2 ^ 53) :
    ∃ (m' k : Nat) (h : 0 < m'), k ≤ 1 ∧ 2 ^ 52 ≤ m' ∧ m' < 2 ^ 53 ∧
      a.roundToNearestEven m = m' * 2 ^ k ∧
      roundWithAccuracy Format.binary64 s m e a = .finite s m' (e + k) h := by
  have hnone : (Format.binary64.targetExponent (totalExponent m e) - e).toNat = 0 := by
    rw [targetExponent_eq, totalExponent, log2_of_normal hlo hhi]
    omega
  have hshift : shiftToTargetExponent Format.binary64 m e a =
      (ExtendedMantissa.ofMantissaAndAccuracy m a, e) := by
    rw [shiftToTargetExponent, shiftToExponent, hnone]
    exact congrArg (_, ·) (add_zero e)
  have hround : (ExtendedMantissa.ofMantissaAndAccuracy m a).roundedMantissa =
      a.roundToNearestEven m := by
    rw [ExtendedMantissa.roundedMantissa, mantissa_ofMantissaAndAccuracy,
      accuracy_ofMantissaAndAccuracy]
  have hge := hlo.trans (le_roundToNearestEven m a)
  rcases hup.lt_or_eq with hlt | heq
  · exact ⟨_, 0, _, Nat.zero_le 1, hge, hlt, (Nat.mul_one _).symm,
      roundWithAccuracy_of_shift hge hlt (by omega) hshift (hround.trans (Nat.mul_one _).symm)⟩
  · exact ⟨2 ^ 52, 1, _, le_rfl, le_rfl, by decide, heq,
      roundWithAccuracy_of_shift le_rfl (by decide) (by omega) hshift (hround.trans heq)⟩

theorem unpackSign_packComponents (s : Sign) (e : BitVec 11) (m : BitVec 52) :
    Sign.ofBitVec (unpackSign (packComponents .binary64 s e m)) = s := by
  simp only [unpackSign, packComponents, BitVec.extractLsb]
  rw [BitVec.extractLsb'_append_eq_of_le (by decide),
    BitVec.extractLsb'_append_eq_of_le (by decide)]
  cases s <;> rfl

theorem pack_normal (s : Sign) {m : Nat} (hlo : 2 ^ 52 ≤ m) (hhi : m < 2 ^ 53) {e : Int}
    (he : e ≤ 971) (hm : 0 < m) :
    UnpackedFloat.pack Format.binary64 (.finite s m e hm) =
      packComponents .binary64 s (BitVec.ofNat 11 (e + 1023 + 52).toNat) (BitVec.ofNat 52 m) := by
  have hlog : m.log2 + 1 = Format.binary64.mantissaBits := by
    rw [log2_of_normal hlo hhi]
    rfl
  have hfits : ¬ 2 ^ 11 ≤ (e + 1023 + 52).toNat + 1 := by omega
  exact (if_neg hfits).trans (if_pos hlog)

/-- A full significand is stored as it is. -/
theorem stored_normal (s : Sign) {m : Nat} (hlo : 2 ^ 52 ≤ m) (hhi : m < 2 ^ 53) {e : Int}
    (he : -1074 ≤ e) (he' : e ≤ 971) (hm : 0 < m) :
    stored (.finite s m e hm) = .finite s m e hm := by
  obtain ⟨b, hb⟩ : ∃ b : Nat, (b : Int) = e + 1023 + 52 := ⟨(e + 1023 + 52).toNat, by omega⟩
  have hbiased : (e + 1023 + 52).toNat = b := by omega
  have hexponent : (BitVec.ofNat 11 b).toNat = b := by
    rw [BitVec.toNat_ofNat, Nat.mod_eq_of_lt (by omega)]
  have hne {c : BitVec 11} (hc : c.toNat ≠ b) : BitVec.ofNat 11 b ≠ c := fun h =>
    hc (h ▸ hexponent)
  have hmantissa : (1#1 ++ BitVec.ofNat 52 m).toNat = m := by
    rw [toNat_one_append, BitVec.toNat_ofNat]
    omega
  have hmax : (-1#11).toNat = 2047 := rfl
  have hmin : (0#11).toNat = 0 := rfl
  have hback : (b : Int) - ((1023 : Nat) + (52 : Nat)) = e := by omega
  rw [stored, pack_normal s hlo hhi he' hm, hbiased, UnpackedFloat.unpack]
  simp only [unpackMantissa_packComponents, unpackExponent_packComponents,
    unpackSign_packComponents]
  rw [if_neg (hne (by omega)), if_neg (hne (by omega))]
  simp only [hmantissa, hexponent, exponentBias_eq, hback]

/-! ### Whole numbers -/

section WholeNumbers

variable {n : Nat}

/-- How many places a whole number leaves free in a significand. -/
def freePlaces (n : Nat) : Nat :=
  52 - n.log2

theorem log2_add_freePlaces (hpos : 0 < n) (hn : n < 2 ^ 53) : n.log2 + freePlaces n = 52 := by
  have hlog : n.log2 < 53 := (Nat.log2_lt hpos.ne').2 hn
  rw [freePlaces]
  omega

/-- With zeros in its free places a whole number is a full significand. -/
theorem normal_natCast (hpos : 0 < n) (hn : n < 2 ^ 53) :
    2 ^ 52 ≤ n * 2 ^ freePlaces n ∧ n * 2 ^ freePlaces n < 2 ^ 53 := by
  have hplaces := log2_add_freePlaces hpos hn
  have hlo := Nat.mul_le_mul_right (2 ^ freePlaces n) (Nat.log2_self_le hpos.ne')
  have hhi := Nat.mul_lt_mul_of_pos_right (Nat.lt_log2_self (n := n))
    (Nat.two_pow_pos (freePlaces n))
  rw [← Nat.pow_add, hplaces] at hlo
  rw [← Nat.pow_add, Nat.add_right_comm, hplaces] at hhi
  exact ⟨hlo, hhi⟩

/-- A whole number of up to 53 digits is rounded to itself. -/
theorem round_natCast (s : Sign) (hpos : 0 < n) (hn : n < 2 ^ 53) :
    UnpackedFloat.round Format.binary64 s n 0 = .finite s (n * 2 ^ freePlaces n)
      (-(freePlaces n : Int)) (Nat.mul_pos hpos (Nat.two_pow_pos _)) := by
  have hplaces := log2_add_freePlaces hpos hn
  obtain ⟨hlo, hhi⟩ := normal_natCast hpos hn
  have htarget : Format.binary64.targetExponent (totalExponent n 0) = -(freePlaces n : Int) := by
    rw [targetExponent_eq, totalExponent]
    omega
  have hshift : (0 - -(freePlaces n : Int)).toNat = freePlaces n := by omega
  have hexact := roundWithAccuracy_exact s hlo hhi 0 (e := -(freePlaces n : Int)) (by omega)
  rw [Nat.pow_zero, Nat.mul_one, Nat.cast_zero, add_zero] at hexact
  rw [UnpackedFloat.round, decreaseExponent, htarget, hshift, zero_sub, Nat.shiftLeft_eq]
  exact hexact

theorem unpacked_toFloat (hpos : 0 < n) (hn : n < 2 ^ 53) :
    unpacked n.toUInt64.toFloat = .finite .positive (n * 2 ^ freePlaces n)
      (-(freePlaces n : Int)) (Nat.mul_pos hpos (Nat.two_pow_pos _)) := by
  have hplaces := log2_add_freePlaces hpos hn
  obtain ⟨hlo, hhi⟩ := normal_natCast hpos hn
  have hword : n.toUInt64.toNat = n := Nat.mod_eq_of_lt (hn.trans (by decide))
  have hstored : unpacked n.toUInt64.toFloat =
      stored (UnpackedFloat.normalize Format.binary64 n.toUInt64.toNat 0 .positive) := rfl
  have hpositive : compare (n : Int) 0 = .gt := Int.compare_eq_gt.2 (by omega)
  rw [hstored, hword, UnpackedFloat.normalize, hpositive]
  simp only [Int.toNat_natCast]
  rw [round_natCast _ hpos hn]
  exact stored_normal _ hlo hhi (by omega) (by omega) _

/-- The word of a whole number of up to 53 digits. As a literal without decimals it is multiplied
by one. -/
theorem unpacked_ofNat (hpos : 0 < n) (hn : n < 2 ^ 53) :
    unpacked (Float.ofNat n) = .finite .positive (n * 2 ^ freePlaces n)
      (-(freePlaces n : Int)) (Nat.mul_pos hpos (Nat.two_pow_pos _)) := by
  have hplaces := log2_add_freePlaces hpos hn
  obtain ⟨hlo, hhi⟩ := normal_natCast hpos hn
  have hone : unpacked (Float.ofBits 4607182418800017408) =
      .finite .positive (1 * 2 ^ 52) (-52) (by decide) := rfl
  have hproduct : Float.ofNat n = n.toUInt64.toFloat * Float.ofBits 4607182418800017408 :=
    dif_pos ⟨hn, by decide⟩
  have hexponent : -(freePlaces n : Int) - 52 + (52 : Nat) = -(freePlaces n : Int) := by omega
  have hexact := roundWithAccuracy_exact .positive hlo hhi 52 (e := -(freePlaces n : Int) - 52)
    (by omega)
  simp only [hexponent] at hexact
  rw [hproduct, unpacked_mul, unpacked_toFloat hpos hn, hone]
  refine (congrArg stored ?_).trans (stored_normal _ hlo hhi (by omega) (by omega) _)
  rw [UnpackedFloat.mul, one_mul]
  exact hexact

/-- The whole part of a word is found by dropping its binary places. -/
theorem toUInt64_finite {m k : Nat} (hm : 0 < m) (h : m / 2 ^ k < UInt64.size) :
    (UnpackedFloat.toUInt64 (.finite .positive m (-(k : Int)) hm)).toNat = m / 2 ^ k := by
  have hdrop : (-(k : Int) - 0).toNat = 0 := by omega
  have hplaces : (0 - -(k : Int)).toNat = k := by omega
  have hwhole : roundToInt .positive m (-(k : Int)) = (m / 2 ^ k : Nat) := by
    rw [roundToInt, decreaseExponent, hdrop]
    simp only [Nat.shiftLeft_zero, Nat.cast_zero, sub_zero]
    rw [shiftToExponent, hplaces]
    simp only [mantissa_shiftRight, mantissa_ofMantissaAndAccuracy]
    rfl
  show (UInt64.ofNatClamp (roundToInt .positive m (-(k : Int))).toNat).toNat = _
  rw [hwhole, Int.toNat_natCast, UInt64.ofNatClamp, dif_pos h]
  rfl

end WholeNumbers

/-! ### Nearest roots -/

/-- The whole number nearest to the square root. -/
def nearestRoot (n : Nat) : Nat :=
  if n ≤ n.sqrt * n.sqrt + n.sqrt then n.sqrt else n.sqrt + 1

theorem nearestRoot_le (n : Nat) : nearestRoot n ≤ n.sqrt + 1 := by
  rw [nearestRoot]
  split_ifs
  · exact Nat.le_succ _
  · exact le_rfl

/-- The whole root with the remainder that it leaves is rounded to the nearest root. -/
theorem roundToNearestEven_sqrt (n : Nat) :
    Accuracy.roundToNearestEven n.sqrt (if n - n.sqrt * n.sqrt = 0 then .exact
      else .inexact (if n - n.sqrt * n.sqrt ≤ n.sqrt then .lt else .gt)) = nearestRoot n := by
  have hle := Nat.sqrt_le n
  rw [nearestRoot]
  split_ifs with hzero hup hup hup
  · rfl
  · omega
  · rfl
  · omega
  · omega
  · rfl

theorem sqrt_mul_sq (n : Nat) {d : Nat} (hd : 0 < d) : (n * (d * d)).sqrt / d = n.sqrt := by
  have hle := Nat.sqrt_le (n * (d * d))
  have hlt := Nat.lt_succ_sqrt (n * (d * d))
  rw [Nat.eq_sqrt]
  constructor
  · have h := Nat.mul_self_le_mul_self (Nat.div_mul_le_self (n * (d * d)).sqrt d)
    rw [Nat.mul_mul_mul_comm] at h
    exact Nat.le_of_mul_le_mul_right (h.trans hle) (Nat.mul_pos hd hd)
  · have hnext := Nat.succ_le_of_lt (Nat.lt_mul_div_succ (n * (d * d)).sqrt hd)
    have h := Nat.mul_self_le_mul_self hnext
    rw [Nat.mul_mul_mul_comm, Nat.mul_comm (d * d)] at h
    exact Nat.lt_of_mul_lt_mul_right (hlt.trans_le h)

/-- Rounding does not reach the next whole number, if there are enough places after the point. -/
theorem nearestRoot_mul_sq (n : Nat) {d : Nat} (hd : n.sqrt < d) :
    nearestRoot (n * (d * d)) / d = n.sqrt := by
  have hpos : 0 < d := Nat.zero_lt_of_lt hd
  have hroot := sqrt_mul_sq n hpos
  rw [nearestRoot]
  split_ifs with hup
  · exact hroot
  obtain ⟨r, hr⟩ : ∃ r, r = (n * (d * d)).sqrt := ⟨_, rfl⟩
  rw [← hr] at hup hroot ⊢
  have hbelow := Nat.lt_mul_div_succ r hpos
  have habove := Nat.div_mul_le_self r d
  rw [hroot] at hbelow habove
  rw [Nat.mul_comm] at hbelow
  refine Nat.div_eq_of_lt_le (habove.trans r.le_succ) (Nat.lt_of_le_of_ne hbelow fun hnext => ?_)
  -- the number would be nearer to the next square than to the last number before it
  have hsquare : (n + 1) * (d * d) ≤ (r + 1) * (r + 1) := by
    rw [hnext, Nat.mul_mul_mul_comm]
    exact Nat.mul_le_mul_right _ (Nat.lt_succ_sqrt n)
  have hsmall : r + 1 ≤ d * d := hnext ▸ Nat.mul_le_mul_right d hd
  have hexpand : (r + 1) * (r + 1) = r * r + 2 * r + 1 := by ring
  rw [Nat.succ_mul] at hsquare
  omega

/-! ### Square roots -/

section SquareRoot

variable {n : Nat}

/-- How many binary places the root of a whole number has room for. -/
def rootPlaces (n : Nat) : Nat :=
  52 - n.log2 / 2

/-- With these places the root is a full significand. -/
theorem normal_sqrt (hpos : 0 < n) (hn : n < 2 ^ 53) :
    2 ^ 52 ≤ (n * (2 ^ rootPlaces n * 2 ^ rootPlaces n)).sqrt ∧
      (n * (2 ^ rootPlaces n * 2 ^ rootPlaces n)).sqrt < 2 ^ 53 := by
  have hlog : n.log2 < 53 := (Nat.log2_lt hpos.ne').2 hn
  have hplaces : rootPlaces n = 52 - n.log2 / 2 := rfl
  have hlo := Nat.mul_le_mul_right (2 ^ (rootPlaces n + rootPlaces n)) (Nat.log2_self_le hpos.ne')
  have hhi := Nat.mul_lt_mul_of_pos_right (Nat.lt_log2_self (n := n))
    (Nat.two_pow_pos (rootPlaces n + rootPlaces n))
  rw [← Nat.pow_add] at hlo hhi
  rw [Nat.le_sqrt, Nat.sqrt_lt, ← Nat.pow_add, ← Nat.pow_add, ← Nat.pow_add]
  exact ⟨(Nat.pow_le_pow_right two_pos (by omega)).trans hlo,
    hhi.trans_le (Nat.pow_le_pow_right two_pos (by omega))⟩

theorem sqrt_lt_two_pow_rootPlaces (hn : n < 2 ^ 52) : n.sqrt < 2 ^ rootPlaces n := by
  rcases Nat.eq_zero_or_pos n with rfl | hpos
  · exact Nat.two_pow_pos _
  have hlog : n.log2 < 52 := (Nat.log2_lt hpos.ne').2 hn
  have hplaces : rootPlaces n = 52 - n.log2 / 2 := rfl
  rw [Nat.sqrt_lt, ← Nat.pow_add]
  exact (Nat.lt_log2_self (n := n)).trans_le (Nat.pow_le_pow_right two_pos (by omega))

/-- The root of a word is computed as the whole root of a multiple. -/
theorem sqrtCore_natCast (hpos : 0 < n) (hn : n < 2 ^ 53) :
    ∃ (N : Nat) (a : Accuracy), N = n * (2 ^ rootPlaces n * 2 ^ rootPlaces n) ∧
      Accuracy.roundToNearestEven N.sqrt a = nearestRoot N ∧
      sqrtCore Format.binary64 (n * 2 ^ freePlaces n) (-(freePlaces n : Int)) =
        (N.sqrt, -(rootPlaces n : Int), a) := by
  have hfree := log2_add_freePlaces hpos hn
  obtain ⟨hlo, hhi⟩ := normal_natCast hpos hn
  have hplaces : rootPlaces n = 52 - n.log2 / 2 := rfl
  have htarget : min (Int.ediv (-(freePlaces n : Int)) 2) (Format.binary64.targetExponent
      (Int.ediv (totalExponent (n * 2 ^ freePlaces n) (-(freePlaces n : Int)) + 1) 2)) =
      -(rootPlaces n : Int) := by
    rw [targetExponent_eq, totalExponent, log2_of_normal hlo hhi]
    show min (-(freePlaces n : Int) / 2)
      (max ((((52 : Nat) : Int) + 1 + -(freePlaces n : Int) + 1) / 2 - 53) (-1074)) = _
    omega
  have hshift : (-(freePlaces n : Int) - 2 * -(rootPlaces n : Int)).toNat + freePlaces n =
      rootPlaces n + rootPlaces n := by omega
  have hradicand :
      (n * 2 ^ freePlaces n) <<< (-(freePlaces n : Int) - 2 * -(rootPlaces n : Int)).toNat =
        n * (2 ^ rootPlaces n * 2 ^ rootPlaces n) := by
    rw [Nat.shiftLeft_eq, Nat.mul_assoc, ← Nat.pow_add, ← Nat.pow_add, Nat.add_comm, hshift]
  refine ⟨_, _, rfl, roundToNearestEven_sqrt _, ?_⟩
  unfold sqrtCore
  simp only [htarget, hradicand]

/-- **The rounded square root** of a whole number has the right whole part. -/
theorem toUInt64_sqrt_ofNat (hn : n < 2 ^ 52) : (Float.ofNat n).sqrt.toUInt64.toNat = n.sqrt := by
  rcases Nat.eq_zero_or_pos n with rfl | hpos
  · rfl
  have hn' : n < 2 ^ 53 := hn.trans (by decide)
  obtain ⟨N, a, hN, hround, hcore⟩ := sqrtCore_natCast hpos hn'
  obtain ⟨hlo, hhi⟩ := normal_sqrt hpos hn'
  rw [← hN] at hlo hhi
  have hplaces : rootPlaces n = 52 - n.log2 / 2 := rfl
  have hlog : n.log2 < 52 := (Nat.log2_lt hpos.ne').2 hn
  have hnear := nearestRoot_le N
  obtain ⟨m, k, hm, hk, hmlo, hmhi, hm', hfinite⟩ := roundWithAccuracy_normal .positive hlo hhi
    (e := -(rootPlaces n : Int)) (by omega) a (by omega)
  have hexponent : -(rootPlaces n : Int) + k = -((rootPlaces n - k : Nat) : Int) := by omega
  have hsqrt : unpacked (Float.ofNat n).sqrt =
      .finite .positive m (-((rootPlaces n - k : Nat) : Int)) hm := by
    have hstored : unpacked (Float.ofNat n).sqrt =
      stored (UnpackedFloat.sqrt Format.binary64 (unpacked (Float.ofNat n))) := rfl
    rw [hstored, unpacked_ofNat hpos hn', UnpackedFloat.sqrt]
    simp only [hcore, hfinite, hexponent]
    exact stored_normal _ hmlo hmhi (by omega) (by omega) hm
  have hwhole : m / 2 ^ (rootPlaces n - k) = n.sqrt := by
    have hk' : k ≤ rootPlaces n := by omega
    rw [← nearestRoot_mul_sq n (sqrt_lt_two_pow_rootPlaces hn), ← hN, ← hround, hm',
      ← Nat.sub_add_cancel hk', Nat.pow_add, Nat.mul_div_mul_right _ _ (Nat.two_pow_pos k),
      Nat.sub_add_cancel hk']
  have htoUInt64 : (Float.ofNat n).sqrt.toUInt64 = (unpacked (Float.ofNat n).sqrt).toUInt64 := rfl
  have hfits : m / 2 ^ (rootPlaces n - k) < UInt64.size := by
    rw [hwhole]
    exact (Nat.sqrt_le_self n).trans_lt (hn.trans (by decide))
  rw [htoUInt64, hsqrt, toUInt64_finite hm hfits, hwhole]

end SquareRoot

end RadianceTransfer.Double
