import RadianceTransfer.Number.Single
import RadianceTransfer.Proofs.Exact
import RadianceTransfer.Proofs.Number.SquareRoot

/-!
# Values of words

The bits of a word stand for an exact number: a significand times a power of two with a sign, an
infinity, or no number. The sign of a zero is no part of its value.

Two conversions to double words keep the value: that of whole numbers of up to 53 digits, and that
of single words. Both end in a full significand, to which nothing is done when it is stored.

## Main definitions

* `BinaryClass.value`, `Double.value`, `Single.value`: the value of a word.

## Main statements

* `Double.value_ofInt`: whole numbers.
* `Double.value_ofSingle`: single words.
-/

namespace RadianceTransfer

/-- A value that is not negative, with a sign. -/
def Exact.signed (negative : Bool) (a : Exact ℚ) : Exact ℚ :=
  if negative then a.neg else a

theorem Exact.signed_zero (negative : Bool) : signed negative (.fin 0) = .fin 0 := by
  cases negative with
  | false => rfl
  | true => exact congrArg Exact.fin neg_zero

/-- The value that the bits of a word stand for. -/
def BinaryClass.value : BinaryClass → Exact ℚ
  | .nan => .nan
  | .infinite negative => Exact.signed negative .posInf
  | .finite negative a => Exact.signed negative (.fin (a.m * 2 ^ a.q))

/-- The value of a single word. -/
def Single.value (x : Float32) : Exact ℚ :=
  (BinaryClass.ofSingle x).value

namespace Double

open Float.Model Float.Model.UnpackedFloat

/-- The value of a double word. -/
def value (x : Float) : Exact ℚ :=
  (BinaryClass.ofDouble x).value

/-! ### Bits -/

theorem toNat_unpackMantissa (b : BitVec 64) :
    (@unpackMantissa .binary64 b).toNat = b.toNat % 2 ^ 52 := by
  rw [unpackMantissa, BitVec.toNat_cast, BitVec.extractLsb_toNat]
  rfl

theorem toNat_unpackExponent (b : BitVec 64) :
    (@unpackExponent .binary64 b).toNat = b.toNat / 2 ^ 52 % 2 ^ 11 := by
  rw [unpackExponent, BitVec.toNat_cast, BitVec.extractLsb_toNat, Nat.shiftRight_eq_div_pow]
  rfl

theorem toNat_unpackSign (b : BitVec 64) :
    (@unpackSign .binary64 b).toNat = b.toNat / 2 ^ 63 % 2 := by
  rw [unpackSign, BitVec.toNat_cast, BitVec.extractLsb_toNat, Nat.shiftRight_eq_div_pow]
  rfl

theorem ofBitVec_beq_negative (b : BitVec 1) :
    (Sign.ofBitVec b == .negative) = (b.toNat == 1) := by
  revert b
  decide

/-- The value by the three fields of the bits. -/
theorem value_classify (bits : Nat) {m e : Nat} {negative : Bool} (hm : m = bits % 2 ^ 52)
    (he : e = bits / 2 ^ 52 % 2 ^ 11) (hsign : negative = (bits / 2 ^ 63 % 2 == 1)) :
    (BinaryFormat.double.classify bits).value =
      if e = 2047 then if m = 0 then Exact.signed negative .posInf else .nan
      else if e = 0 then Exact.signed negative (.fin (m * 2 ^ (-1074 : Int)))
      else Exact.signed negative (.fin ((2 ^ 52 + m : Nat) * 2 ^ ((e : Int) - 1075))) := by
  have hclassify : BinaryFormat.double.classify bits =
      if e == 2047 then if m == 0 then .infinite negative else .nan
      else if e == 0 then .finite negative ⟨m, -1074, false⟩
      else .finite negative ⟨2 ^ 52 + m, -1074 + e - 1, m == 0 && decide (1 < e)⟩ := by
    rw [hm, he, hsign]
    rfl
  have hexponent : -1074 + (e : Int) - 1 = e - 1075 := by omega
  rw [hclassify]
  simp only [beq_iff_eq]
  split_ifs
  · rfl
  · rfl
  · rfl
  · rw [BinaryClass.value, hexponent]

/-! ### What a word stands for -/

/-- The value of what a word stands for. -/
def unpackedValue : UnpackedFloat → Exact ℚ
  | .notANumber => .nan
  | .infinity s => Exact.signed (s == .negative) .posInf
  | .zero _ => .fin 0
  | .finite s m e _ => Exact.signed (s == .negative) (.fin (m * 2 ^ e))

theorem value_eq (x : Float) : value x = unpackedValue (unpacked x) := by
  obtain ⟨b, hb⟩ : ∃ b : BitVec 64, b = x.toModel.toBits.toBitVec := ⟨_, rfl⟩
  have hbits : x.toBits.toNat = b.toNat := by rw [hb]; rfl
  have hunpacked : unpacked x = UnpackedFloat.unpack .binary64 b := by rw [hb]; rfl
  have hsign : (Sign.ofBitVec (@unpackSign .binary64 b) == .negative) =
      (b.toNat / 2 ^ 63 % 2 == 1) := by
    rw [ofBitVec_beq_negative, toNat_unpackSign]
  have hall : (@unpackExponent .binary64 b).toNat = 2047 ↔ @unpackExponent .binary64 b = -1#11 :=
    ⟨fun h => BitVec.eq_of_toNat_eq h, fun h => by rw [h]; rfl⟩
  have hnone : (@unpackExponent .binary64 b).toNat = 0 ↔ @unpackExponent .binary64 b = 0#11 :=
    ⟨fun h => BitVec.eq_of_toNat_eq h, fun h => by rw [h]; rfl⟩
  have hempty : (@unpackMantissa .binary64 b).toNat = 0 ↔ @unpackMantissa .binary64 b = 0#52 :=
    ⟨fun h => BitVec.eq_of_toNat_eq h, fun h => by rw [h]; rfl⟩
  rw [value, BinaryClass.ofDouble, hbits, hunpacked, UnpackedFloat.unpack,
    value_classify b.toNat (toNat_unpackMantissa b) (toNat_unpackExponent b) hsign]
  simp only [hall, hnone, hempty]
  split_ifs
  · rfl
  · rfl
  · rename_i hzero
    rw [hempty.2 hzero, Nat.cast_zero, zero_mul, Exact.signed_zero]
    rfl
  · rename_i hexponent _
    rw [unpackedValue, hnone.2 hexponent]
    rfl
  · rw [unpackedValue, toNat_one_append]
    rfl

theorem unpacked_neg (x : Float) : unpacked (-x) = stored (UnpackedFloat.neg (unpacked x)) :=
  rfl

/-- A full significand is only given a sign. -/
theorem value_signed (negative : Bool) {x : Float} {m : Nat} {e : Int} {hm : 0 < m}
    (hx : unpacked x = .finite .positive m e hm) (hlo : 2 ^ 52 ≤ m) (hhi : m < 2 ^ 53)
    (he : -1074 ≤ e) (he' : e ≤ 971) :
    value (signed negative x) = Exact.signed negative (.fin (m * 2 ^ e)) := by
  cases negative with
  | false => exact (value_eq x).trans (congrArg unpackedValue hx)
  | true =>
    refine (value_eq (-x)).trans ?_
    rw [unpacked_neg, hx, UnpackedFloat.neg, stored_normal (-.positive) hlo hhi he he' hm]
    rfl

/-- A zero stays zero. -/
theorem value_signed_zero (negative : Bool) {x : Float} {s : Sign} (hx : unpacked x = .zero s) :
    value (signed negative x) = .fin 0 := by
  cases negative with
  | false => exact (value_eq x).trans (congrArg unpackedValue hx)
  | true =>
    refine (value_eq (-x)).trans ?_
    rw [unpacked_neg, hx, UnpackedFloat.neg, stored_zero]
    rfl

/-! ### Whole numbers -/

theorem unpacked_ofNat_zero : unpacked (Float.ofNat 0) = .zero .positive :=
  rfl

/-- The zeros in the free places of a significand do not change its value. -/
theorem freePlaces_mul_zpow (m : Nat) (q : Int) :
    ((m * 2 ^ freePlaces m : Nat) : ℚ) * 2 ^ (-(freePlaces m : Int) + q) = m * 2 ^ q := by
  rw [zpow_add₀ two_ne_zero, zpow_neg, zpow_natCast, Nat.cast_mul, Nat.cast_pow, Nat.cast_ofNat]
  field_simp

/-- **A whole number** of up to 53 digits is the value of its double word. -/
theorem value_ofInt {n : Int} (hn : n.natAbs < 2 ^ 53) :
    value (Scalar.ofInt n) = .fin (n : ℚ) := by
  have hsigned : (Scalar.ofInt n : Float) = signed (decide (n < 0)) (Float.ofNat n.natAbs) := by
    rw [Scalar.ofInt, signed]
    simp only [decide_eq_true_eq]
    rfl
  have hvalue : Exact.signed (decide (n < 0)) (.fin (n.natAbs : ℚ)) = .fin (n : ℚ) := by
    rw [Exact.signed]
    split_ifs with hneg
    · have habs : (n.natAbs : Int) = -n := Int.ofNat_natAbs_of_nonpos (of_decide_eq_true hneg).le
      rw [← Int.cast_natCast, habs, Int.cast_neg]
      exact congrArg Exact.fin (neg_neg _)
    · have habs : (n.natAbs : Int) = n := by
        rw [decide_eq_true_eq] at hneg
        omega
      rw [← Int.cast_natCast, habs]
  rw [hsigned, ← hvalue]
  rcases Nat.eq_zero_or_pos n.natAbs with hzero | hpos
  · rw [hzero, value_signed_zero _ unpacked_ofNat_zero, Nat.cast_zero, Exact.signed_zero]
  · obtain ⟨hlo, hhi⟩ := normal_natCast hpos hn
    have hplaces := log2_add_freePlaces hpos hn
    rw [value_signed _ (unpacked_ofNat hpos hn) hlo hhi (by omega) (by omega)]
    have h := freePlaces_mul_zpow n.natAbs 0
    rw [add_zero, zpow_zero, mul_one] at h
    rw [h]

/-! ### Single words -/

theorem unpacked_powerOfTwo {q : Int} (hq : -1022 ≤ q) (hq' : q ≤ 1023) :
    unpacked (powerOfTwo q) = .finite .positive (2 ^ 52) (q - 52) (Nat.two_pow_pos 52) := by
  have hbits : ((q + 1023).toNat * twoPow 52).toUInt64.toBitVec =
      UnpackedFloat.pack Format.binary64 (.finite .positive (2 ^ 52) (q - 52)
        (Nat.two_pow_pos 52)) := by
    have hexponent : (q - 52 + 1023 + 52).toNat = (q + 1023).toNat := by omega
    rw [pack_normal .positive le_rfl (by decide) (by omega), hexponent]
    have hpower : twoPow 52 = 2 ^ 52 := rfl
    have hfits : (q + 1023).toNat * 2 ^ 52 < 2 ^ 64 := by omega
    have hword : ((q + 1023).toNat * 2 ^ 52).toUInt64.toNat = (q + 1023).toNat * 2 ^ 52 :=
      UInt64.toNat_ofNat_of_lt' hfits
    have hsign : Sign.positive.toBitVec.toNat = 0 := rfl
    refine BitVec.eq_of_toNat_eq ?_
    rw [packComponents, BitVec.toNat_append, BitVec.toNat_append, BitVec.toNat_ofNat,
      BitVec.toNat_ofNat, hsign, hpower, UInt64.toNat_toBitVec, hword, Nat.mod_self, Nat.or_zero,
      Nat.zero_shiftLeft, Nat.zero_or, Nat.shiftLeft_eq, Nat.mod_eq_of_lt (by omega)]
  have hword : unpacked (powerOfTwo q) = stored (UnpackedFloat.unpack Format.binary64
      ((q + 1023).toNat * twoPow 52).toUInt64.toBitVec) := rfl
  have hstored : stored (.finite .positive (2 ^ 52) (q - 52) (Nat.two_pow_pos 52)) =
      .finite .positive (2 ^ 52) (q - 52) (Nat.two_pow_pos 52) :=
    stored_normal .positive le_rfl (by decide) (by omega) (by omega) _
  rw [hword, hbits]
  exact (congrArg stored hstored).trans hstored

/-- Multiplying a full significand by a power of two changes its exponent only. -/
theorem unpacked_mul_powerOfTwo {x : Float} {m : Nat} {e q : Int} {hm : 0 < m}
    (hx : unpacked x = .finite .positive m e hm) (hlo : 2 ^ 52 ≤ m) (hhi : m < 2 ^ 53)
    (hq : -1022 ≤ q) (hq' : q ≤ 1023) (he : -1074 ≤ e + q) (he' : e + q ≤ 971) :
    unpacked (x * powerOfTwo q) = .finite .positive m (e + q) hm := by
  have hexponent : e + (q - 52) + (52 : Nat) = e + q := by omega
  have hexact := roundWithAccuracy_exact .positive hlo hhi 52 (e := e + (q - 52)) (by omega)
  simp only [hexponent] at hexact
  rw [unpacked_mul, hx, unpacked_powerOfTwo hq hq']
  refine (congrArg stored ?_).trans (stored_normal _ hlo hhi he he' _)
  rw [UnpackedFloat.mul]
  exact hexact

/-- The significands and exponents of single words. -/
theorem bounds_ofSingle {x : Float32} {negative : Bool} {a : Binary}
    (h : BinaryClass.ofSingle x = .finite negative a) : a.m < 2 ^ 24 ∧ -149 ≤ a.q ∧ a.q ≤ 105 := by
  have hfraction : x.toBits.toNat % twoPow 23 < 2 ^ 23 := Nat.mod_lt _ (Nat.two_pow_pos 23)
  have hexponent : x.toBits.toNat / twoPow 23 % twoPow 8 < 2 ^ 8 := Nat.mod_lt _ (Nat.two_pow_pos 8)
  have hpower : twoPow 23 = 2 ^ 23 := rfl
  have hleast : BinaryFormat.single.minExponent = -149 := rfl
  simp only [BinaryClass.ofSingle, BinaryFormat.classify, beq_iff_eq] at h
  split_ifs at h with _ _ hsmall
  · cases h
    exact ⟨hfraction.trans (by decide), hleast.ge, hleast.trans_le (by decide)⟩
  · cases h
    have hpos : 0 < x.toBits.toNat / twoPow 23 % twoPow 8 := Nat.pos_of_ne_zero hsmall
    rw [hleast]
    show twoPow 23 + x.toBits.toNat % twoPow 23 < _ ∧
      -149 ≤ -149 + ((x.toBits.toNat / twoPow 23 % twoPow 8 : Nat) : Int) - 1 ∧
      -149 + ((x.toBits.toNat / twoPow 23 % twoPow 8 : Nat) : Int) - 1 ≤ 105
    omega

/-- **A single word** and the double word that it becomes have one value. -/
theorem value_ofSingle (x : Float32) : value (ofSingle x) = Single.value x := by
  rw [ofSingle, Single.value]
  cases h : BinaryClass.ofSingle x with
  | nan => rfl
  | infinite negative => cases negative <;> rfl
  | finite negative a =>
    obtain ⟨hm, hq, hq'⟩ := bounds_ofSingle h
    show value (signed negative (Float.ofNat a.m * powerOfTwo a.q)) =
      Exact.signed negative (.fin (a.m * 2 ^ a.q))
    rcases Nat.eq_zero_or_pos a.m with hzero | hpos
    · have hproduct : unpacked (Float.ofNat 0 * powerOfTwo a.q) = .zero .positive := by
        rw [unpacked_mul, unpacked_ofNat_zero, unpacked_powerOfTwo (by omega) (by omega)]
        exact stored_zero _
      rw [hzero, value_signed_zero _ hproduct, Nat.cast_zero, zero_mul, Exact.signed_zero]
    · have hn : a.m < 2 ^ 53 := hm.trans (by decide)
      obtain ⟨hlo, hhi⟩ := normal_natCast hpos hn
      have hplaces := log2_add_freePlaces hpos hn
      have hproduct := unpacked_mul_powerOfTwo (unpacked_ofNat hpos hn) hlo hhi (q := a.q)
        (by omega) (by omega) (by omega) (by omega)
      rw [value_signed _ hproduct hlo hhi (by omega) (by omega), freePlaces_mul_zpow]

end Double

end RadianceTransfer
