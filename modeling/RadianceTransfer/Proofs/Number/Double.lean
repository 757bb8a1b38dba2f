import Mathlib
import RadianceTransfer.Scalar

/-!
# Double words

What differences and quotients of double words are, as far as it does not take their exact value:
which of them are numbers at all, and which are zero. A word stands for a sign, a significand and an
exponent, or for zero, an infinity or no number, and every operation computes on these and stores
the rounded result.

A significand that is not zero is not rounded to zero, as long as its exponent is one that a word
can have. So two numbers that differ have a difference that is not zero, whether rounded or not.

## Main definitions

* `Double.unpacked`: what a word stands for.
* `Double.stored`: what becomes of a result when it is stored.
* `Double.Canonical`: significands and exponents of words.

## Main statements

* `Double.sub_ne_zero`: a word less than another one has a difference from it.
* `Double.div_self_of_finite`: a quotient of equal numbers is one.
-/

namespace RadianceTransfer.Double

open Float.Model Float.Model.UnpackedFloat

/-! ### Rounding -/

theorem mantissa_shiftRight (em : ExtendedMantissa) (k : Nat) :
    (em >>> k).mantissa = em.mantissa / 2 ^ k := by
  induction k with
  | zero => exact (Nat.div_one _).symm
  | succ k ih =>
    show (em >>> k).mantissa / 2 = _
    rw [ih, Nat.div_div_eq_div_mul, ← Nat.pow_succ]

theorem mantissa_ofMantissaAndAccuracy (m : Nat) (a : Accuracy) :
    (ExtendedMantissa.ofMantissaAndAccuracy m a).mantissa = m := by
  rcases a with _ | (_ | _ | _) <;> rfl

theorem le_roundToNearestEven (m : Nat) (a : Accuracy) : m ≤ a.roundToNearestEven m := by
  rcases a with _ | (_ | _ | _)
  · exact le_rfl
  · exact le_rfl
  · exact Nat.le_add_right _ _
  · exact Nat.le_succ _

theorem targetExponent_eq (t : Int) :
    Format.binary64.targetExponent t = max (t - 53) (-1074) :=
  rfl

/-- A significand shifted to its exponent stays positive and gets short enough. -/
theorem shiftToTargetExponent_bounds {m : Nat} (hm : 0 < m) {e : Int} (he : -1074 ≤ e)
    (a : Accuracy) : 0 < (shiftToTargetExponent Format.binary64 m e a).1.mantissa ∧
      (shiftToTargetExponent Format.binary64 m e a).1.mantissa < 2 ^ 53 ∧
      -1074 ≤ (shiftToTargetExponent Format.binary64 m e a).2 := by
  have hmantissa : (shiftToTargetExponent Format.binary64 m e a).1.mantissa =
      m / 2 ^ (Format.binary64.targetExponent (totalExponent m e) - e).toNat := by
    rw [shiftToTargetExponent, shiftToExponent, mantissa_shiftRight, mantissa_ofMantissaAndAccuracy]
  have hexponent : (shiftToTargetExponent Format.binary64 m e a).2 =
      e + (Format.binary64.targetExponent (totalExponent m e) - e).toNat := rfl
  have hshift : (Format.binary64.targetExponent (totalExponent m e) - e).toNat = m.log2 - 52 := by
    rw [targetExponent_eq, totalExponent]
    omega
  have hlow : 2 ^ (m.log2 - 52) ≤ m :=
    (Nat.pow_le_pow_right Nat.two_pos (Nat.sub_le _ _)).trans (Nat.log2_self_le hm.ne')
  have hhigh : m < 2 ^ 53 * 2 ^ (m.log2 - 52) := by
    rw [← Nat.pow_add]
    exact Nat.lt_log2_self.trans_le (Nat.pow_le_pow_right Nat.two_pos (by omega))
  rw [hmantissa, hexponent, hshift]
  exact ⟨Nat.div_pos hlow (Nat.two_pow_pos _),
    (Nat.div_lt_iff_lt_mul (Nat.two_pow_pos _)).2 hhigh, by omega⟩

theorem exists_roundWithAccuracy (s : Sign) {m : Nat} (hm : 0 < m) {e : Int} (he : -1074 ≤ e)
    (a : Accuracy) : ∃ m' e' h, roundWithAccuracy Format.binary64 s m e a = .finite s m' e' h ∧
      m' < 2 ^ 53 ∧ -1074 ≤ e' := by
  obtain ⟨hpos, -, hexponent⟩ := shiftToTargetExponent_bounds hm he a
  obtain ⟨hpos', hshort, hexponent'⟩ := shiftToTargetExponent_bounds
    (hpos.trans_le (le_roundToNearestEven _ _)) hexponent .exact
  exact ⟨_, _, hpos', dif_neg hpos'.ne', hshort, hexponent'⟩

/-- A number that is not zero is not rounded to zero. -/
theorem exists_round (s : Sign) {m : Nat} (hm : 0 < m) {e : Int} (he : -1074 ≤ e) :
    ∃ m' e' h, round Format.binary64 s m e = .finite s m' e' h ∧ m' < 2 ^ 53 ∧ -1074 ≤ e' := by
  refine exists_roundWithAccuracy s ?_ ?_ .exact
  · show 0 < m <<< (e - Format.binary64.targetExponent (totalExponent m e)).toNat
    rw [Nat.shiftLeft_eq]
    exact Nat.mul_pos hm (Nat.two_pow_pos _)
  · show -1074 ≤ e - ((e - Format.binary64.targetExponent (totalExponent m e)).toNat : Int)
    rw [targetExponent_eq]
    omega

/-! ### What a word stands for -/

/-- What a word stands for. -/
def unpacked (x : Float) : UnpackedFloat :=
  x.toModel.unpack

/-- What becomes of a result when it is stored. -/
def stored (u : UnpackedFloat) : UnpackedFloat :=
  UnpackedFloat.unpack Format.binary64 (UnpackedFloat.pack Format.binary64 u)

theorem unpacked_sub (x y : Float) :
    unpacked (x - y) = stored (UnpackedFloat.sub Format.binary64 (unpacked x) (unpacked y)) :=
  rfl

theorem unpacked_mul (x y : Float) :
    unpacked (x * y) = stored (UnpackedFloat.mul Format.binary64 (unpacked x) (unpacked y)) :=
  rfl

theorem unpacked_div (x y : Float) :
    unpacked (x / y) = stored (UnpackedFloat.div Format.binary64 (unpacked x) (unpacked y)) :=
  rfl

theorem lt_iff (x y : Float) :
    x < y ↔ UnpackedFloat.compare (unpacked x) (unpacked y) = some .lt := by
  show decide (UnpackedFloat.lt (unpacked x) (unpacked y) = true) = true ↔ _
  rw [decide_eq_true_iff, UnpackedFloat.lt, beq_iff_eq]

theorem isFinite_eq (x : Float) : x.isFinite = (unpacked x).isFinite :=
  rfl

/-- A finite word stands for zero or for a significand and an exponent. -/
theorem zero_or_finite {x : Float} (h : x.isFinite = true) :
    (∃ s, unpacked x = .zero s) ∨ ∃ s m e hm, unpacked x = .finite s m e hm := by
  rw [isFinite_eq] at h
  cases hx : unpacked x with
  | notANumber => rw [hx] at h; cases h
  | infinity => rw [hx] at h; cases h
  | zero s => exact .inl ⟨s, rfl⟩
  | finite s m e hm => exact .inr ⟨s, m, e, hm, rfl⟩

theorem unpacked_injective : Function.Injective unpacked := by
  intro x y h
  rw [← Float.toBits_inj, ← UInt64.toBitVec_inj]
  exact (unpack_inj_of_valid x.toModel.valid y.toModel.valid).1 h

theorem stored_notANumber : stored .notANumber = .notANumber :=
  rfl

theorem stored_infinity (s : Sign) : stored (.infinity s) = .infinity s := by
  cases s <;> rfl

theorem stored_zero (s : Sign) : stored (.zero s) = .zero s := by
  cases s <;> rfl

/-- The significands and exponents of words. A short significand has the least exponent. -/
def Canonical : UnpackedFloat → Prop
  | .finite _ m e _ => m < 2 ^ 53 ∧ -1074 ≤ e ∧ (2 ^ 52 ≤ m ∨ e = -1074)
  | _ => True

theorem exponentBias_eq : Format.binary64.exponentBias = 1023 :=
  rfl

/-- A significand with its first digit, which words leave out. -/
theorem toNat_one_append (m : BitVec 52) : (1#1 ++ m).toNat = 2 ^ 52 + m.toNat := by
  rw [BitVec.toNat_append, ← Nat.shiftLeft_add_eq_or_of_lt m.isLt]
  rfl

theorem canonical_unpacked (x : Float) : Canonical (unpacked x) := by
  rw [unpacked, Float.Model.unpack, UnpackedFloat.unpack, exponentBias_eq]
  generalize x.toModel.toBits.toBitVec = b
  split_ifs with _ _ hexponent
  · trivial
  · trivial
  · trivial
  · have hm : (@unpackMantissa .binary64 b).toNat < 2 ^ 52 := BitVec.isLt _
    have he : ((@unpackExponent .binary64 b).toNat : Int) - (1023 + 52) + 1 = -1074 := by
      rw [hexponent]
      rfl
    exact ⟨hm.trans (by decide), he.ge, .inr he⟩
  · have hm : (@unpackMantissa .binary64 b).toNat < 2 ^ 52 := BitVec.isLt _
    have he : (@unpackExponent .binary64 b).toNat ≠ 0 := fun h =>
      hexponent (BitVec.eq_of_toNat_eq h)
    have he' : -1074 ≤ ((@unpackExponent .binary64 b).toNat : Int) - (1023 + 52) := by
      omega
    rw [Canonical, toNat_one_append]
    exact ⟨by omega, he', .inl (Nat.le_add_right _ _)⟩

/-- A short significand that is not zero is not stored as zero. -/
theorem stored_finite_ne_zero (s s' : Sign) {m : Nat} {e : Int} (hm : 0 < m) (hshort : m < 2 ^ 53)
    (he : -1074 ≤ e) : stored (.finite s m e hm) ≠ .zero s' := by
  intro h
  rw [stored, unpack_eq_zero_iff_of_valid valid_pack, UnpackedFloat.pack, exponentBias_eq,
    packedZero] at h
  dsimp only at h
  split_ifs at h with hlarge hnormal
  · have hexponent := congrArg unpackExponent h
    rw [packedInfinity, unpackExponent_packComponents, unpackExponent_packComponents] at hexponent
    exact absurd hexponent (by decide)
  · have hexponent := congrArg unpackExponent h
    rw [unpackExponent_packComponents, unpackExponent_packComponents] at hexponent
    have hnat : (e + 1023 + 52).toNat % 2 ^ 11 = 0 := congrArg BitVec.toNat hexponent
    have hlarge' : ¬ 2 ^ 11 ≤ (e + 1023 + 52).toNat + 1 := hlarge
    omega
  · have hmantissa := congrArg unpackMantissa h
    rw [unpackMantissa_packComponents, unpackMantissa_packComponents] at hmantissa
    have hnat : m % 2 ^ 52 = 0 := congrArg BitVec.toNat hmantissa
    have hnormal' : ¬ m.log2 + 1 = 53 := hnormal
    have hlog : m.log2 < 53 := (Nat.log2_lt hm.ne').2 hshort
    have hm' : m < 2 ^ 52 := (Nat.log2_lt hm.ne').1 (by omega)
    omega

/-! ### Differences -/

theorem exists_normalize {m : Int} (hm : m ≠ 0) {e : Int} (he : -1074 ≤ e) (zeroSign : Sign) :
    ∃ s m' e' h, UnpackedFloat.normalize Format.binary64 m e zeroSign = .finite s m' e' h ∧
      m' < 2 ^ 53 ∧ -1074 ≤ e' := by
  unfold UnpackedFloat.normalize
  split
  case h_1 hlt =>
    exact ⟨_, exists_round .negative (by have := Int.compare_eq_lt.1 hlt; omega) he⟩
  case h_2 heq => exact absurd (Int.compare_eq_eq.1 heq) hm
  case h_3 hgt =>
    exact ⟨_, exists_round .positive (by have := Int.compare_eq_gt.1 hgt; omega) he⟩

/-- Equal values have equal significands, since only a long one has room for another exponent. -/
theorem eq_of_aligned {m₁ m₂ : Nat} {e₁ e₂ : Int} (hshort : m₁ < 2 ^ 53)
    (hlong : 2 ^ 52 ≤ m₂ ∨ e₂ = -1074) (he : -1074 ≤ e₁) (hle : e₁ ≤ e₂)
    (h : m₁ = m₂ * 2 ^ (e₂ - e₁).toNat) : m₁ = m₂ ∧ e₁ = e₂ := by
  obtain ⟨k, hk⟩ : ∃ k, k = (e₂ - e₁).toNat := ⟨_, rfl⟩
  rw [← hk] at h
  cases k with
  | zero => exact ⟨by rw [h, Nat.pow_zero, Nat.mul_one], by omega⟩
  | succ k =>
    have htwo : 2 ≤ 2 ^ (k + 1) := Nat.le_self_pow (Nat.succ_ne_zero k) 2
    have hm₂ : 2 ^ 52 ≤ m₂ := hlong.resolve_right (by omega)
    have := Nat.mul_le_mul hm₂ htwo
    omega

theorem compare_of_apply_eq {s₁ s₂ : Sign} {m₁ m₂ : Nat} {e₁ e₂ : Int} {h₁ : 0 < m₁}
    {h₂ : 0 < m₂} (hu : Canonical (.finite s₁ m₁ e₁ h₁)) (hv : Canonical (.finite s₂ m₂ e₂ h₂))
    (h : s₁.apply (m₁ <<< (e₁ - min e₁ e₂).toNat : Nat) =
      s₂.apply (m₂ <<< (e₂ - min e₁ e₂).toNat : Nat)) :
    UnpackedFloat.compare (.finite s₁ m₁ e₁ h₁) (.finite s₂ m₂ e₂ h₂) = some .eq := by
  obtain ⟨hshort₁, he₁, hlong₁⟩ := hu
  obtain ⟨hshort₂, he₂, hlong₂⟩ := hv
  rw [Nat.shiftLeft_eq, Nat.shiftLeft_eq] at h
  have hpos₁ := Nat.mul_pos h₁ (Nat.two_pow_pos (e₁ - min e₁ e₂).toNat)
  have hpos₂ := Nat.mul_pos h₂ (Nat.two_pow_pos (e₂ - min e₁ e₂).toNat)
  have hsame (h : m₁ * 2 ^ (e₁ - min e₁ e₂).toNat = m₂ * 2 ^ (e₂ - min e₁ e₂).toNat) :
      m₁ = m₂ ∧ e₁ = e₂ := by
    rcases le_total e₁ e₂ with hle | hle
    · rw [min_eq_left hle, sub_self, Int.toNat_zero, Nat.pow_zero, Nat.mul_one] at h
      exact eq_of_aligned hshort₁ hlong₂ he₁ hle h
    · rw [min_eq_right hle, sub_self, Int.toNat_zero, Nat.pow_zero, Nat.mul_one] at h
      exact (eq_of_aligned hshort₂ hlong₁ he₂ hle h.symm).imp Eq.symm Eq.symm
  cases s₁ <;> cases s₂ <;> simp only [Sign.apply] at h
  case negative.positive => omega
  case positive.negative => omega
  all_goals
    obtain ⟨rfl, rfl⟩ := hsame (by omega)
    simp [UnpackedFloat.compare]

/-- A word less than another one has a difference from it. -/
theorem sub_ne_zero {x y : Float} (h : x < y) (s : Sign) : unpacked (y - x) ≠ .zero s := by
  have hx := canonical_unpacked x
  have hy := canonical_unpacked y
  rw [lt_iff] at h
  rw [unpacked_sub]
  generalize unpacked x = u at *
  generalize unpacked y = v at *
  have hinfinity (s' : Sign) : stored (.infinity s') ≠ .zero s := by
    rw [stored_infinity]
    exact nofun
  cases u with
  | notANumber => cases h
  | infinity s₁ =>
    cases v with
    | notANumber => cases s₁ <;> cases h
    | infinity s₂ =>
      rw [UnpackedFloat.sub]
      split_ifs
      · exact hinfinity s₂
      · exact nofun
    | zero => exact hinfinity _
    | finite => exact hinfinity _
  | zero s₁ =>
    cases v with
    | notANumber => cases h
    | infinity s₂ => exact hinfinity s₂
    | zero => cases h
    | finite s₂ m₂ e₂ h₂ => exact stored_finite_ne_zero s₂ s h₂ hy.1 hy.2.1
  | finite s₁ m₁ e₁ h₁ =>
    cases v with
    | notANumber => cases s₁ <;> cases h
    | infinity s₂ => exact hinfinity s₂
    | zero => exact stored_finite_ne_zero (-s₁) s h₁ hx.1 hx.2.1
    | finite s₂ m₂ e₂ h₂ =>
      have hne : s₂.apply (m₂ <<< (e₂ - min e₂ e₁).toNat : Nat) -
          s₁.apply (m₁ <<< (e₁ - min e₂ e₁).toNat : Nat) ≠ 0 := by
        rw [min_comm e₂ e₁]
        intro hzero
        rw [compare_of_apply_eq hx hy (sub_eq_zero.1 hzero).symm] at h
        cases h
      obtain ⟨s', m', e', h', hround, hshort, he⟩ :=
        exists_normalize hne (le_min hy.2.1 hx.2.1) .positive
      have hsub : UnpackedFloat.sub Format.binary64 (.finite s₂ m₂ e₂ h₂) (.finite s₁ m₁ e₁ h₁) =
          .finite s' m' e' h' := hround
      rw [hsub]
      exact stored_finite_ne_zero s' s h' hshort he

theorem sub_self_of_finite {x : Float} (h : x.isFinite = true) :
    unpacked (x - x) = .zero .positive := by
  rw [unpacked_sub]
  rcases zero_or_finite h with ⟨s, hx⟩ | ⟨s, m, e, hm, hx⟩ <;> rw [hx]
  · cases s <;> rfl
  · show stored (UnpackedFloat.normalize Format.binary64 (s.apply _ - s.apply _) _ .positive) = _
    rw [sub_self]
    exact stored_zero .positive

/-- What is no number, or infinite, has no finite difference from anything. -/
theorem isFinite_of_sub {x y : Float} (h : (y - x).isFinite = true) : x.isFinite = true := by
  rw [isFinite_eq, unpacked_sub] at h
  rw [isFinite_eq]
  have hnan : (stored .notANumber).isFinite ≠ true := nofun
  have hinfinity (s : Sign) : (stored (.infinity s)).isFinite ≠ true := by
    rw [stored_infinity]
    exact nofun
  generalize unpacked x = u at *
  generalize unpacked y = v at *
  cases u with
  | notANumber => exact absurd h (by cases v <;> exact hnan)
  | infinity s =>
    cases v with
    | notANumber => exact absurd h hnan
    | infinity s' =>
      rw [UnpackedFloat.sub] at h
      split_ifs at h
      · exact absurd h (hinfinity s')
      · exact absurd h hnan
    | zero => exact absurd h (hinfinity _)
    | finite => exact absurd h (hinfinity _)
  | zero => rfl
  | finite => rfl

/-! ### Quotients -/

/-- A quotient of equal numbers is one. -/
theorem div_self_of_finite {x : Float} (h : x.isFinite = true)
    (hzero : ∀ s, unpacked x ≠ .zero s) : x / x = Float.ofNat 1 := by
  refine unpacked_injective ?_
  obtain ⟨s, hx⟩ | ⟨s, m, e, hm, hx⟩ := zero_or_finite h
  · exact absurd hx (hzero s)
  have hcore : divCore Format.binary64 m e m e = (2 ^ 53, -53, .exact) := by
    rw [divCore, sub_self, sub_self, Nat.shiftLeft_eq]
    show (m * 2 ^ 53 / m, (-53 : Int), accuracyOfFraction (m * 2 ^ 53 % m) m) = _
    rw [Nat.mul_div_cancel_left _ hm, Nat.mul_mod_right]
    rfl
  have hsign : s / s = .positive := by cases s <;> rfl
  rw [unpacked_div, hx, UnpackedFloat.div, hcore, hsign]
  rfl

/-- The word stands for zero or for no number. -/
def Vanishes (x : Float) : Prop :=
  unpacked x = .notANumber ∨ ∃ s, unpacked x = .zero s

theorem Vanishes.div {x : Float} (hx : Vanishes x) {y : Float} (hy : ∀ s, unpacked y ≠ .zero s) :
    Vanishes (x / y) := by
  rw [Vanishes, unpacked_div]
  rcases hx with hx | ⟨s, hx⟩ <;> rw [hx]
  · exact .inl stored_notANumber
  · cases huy : unpacked y with
    | notANumber => exact .inl stored_notANumber
    | infinity => exact .inr ⟨_, stored_zero _⟩
    | zero s' => exact absurd huy (hy s')
    | finite => exact .inr ⟨_, stored_zero _⟩

/-- Dividing by what is no number, or infinite. -/
theorem vanishes_div (x : Float) {y : Float} (h : ¬ y.isFinite = true) : Vanishes (x / y) := by
  rw [isFinite_eq] at h
  rw [Vanishes, unpacked_div]
  generalize unpacked x = u
  generalize unpacked y = v at *
  cases v with
  | notANumber => cases u <;> exact .inl stored_notANumber
  | infinity =>
    cases u with
    | notANumber => exact .inl stored_notANumber
    | infinity => exact .inl stored_notANumber
    | zero => exact .inr ⟨_, stored_zero _⟩
    | finite => exact .inr ⟨_, stored_zero _⟩
  | zero => exact absurd rfl h
  | finite => exact absurd rfl h

theorem Vanishes.mul {x : Float} (hx : Vanishes x) (y : Float) (hy : y.isFinite = true) :
    Vanishes (y * x) := by
  rw [Vanishes, unpacked_mul]
  rcases hx with hx | ⟨s, hx⟩ <;> rw [hx]
  · cases unpacked y <;> exact .inl stored_notANumber
  · rcases zero_or_finite hy with ⟨s', hy⟩ | ⟨s', m, e, hm, hy⟩ <;> rw [hy]
    · exact .inr ⟨_, stored_zero _⟩
    · exact .inr ⟨_, stored_zero _⟩

theorem Vanishes.toUInt64 {x : Float} (hx : Vanishes x) : x.toUInt64 = 0 := by
  show (unpacked x).toUInt64 = 0
  rcases hx with hx | ⟨s, hx⟩ <;> rw [hx] <;> rfl

theorem vanishes_sub_nan (x : Float) {y : Float} (hy : unpacked y = .notANumber) :
    Vanishes (x - y) := by
  rw [Vanishes, unpacked_sub, hy]
  cases unpacked x <;> exact .inl stored_notANumber

/-! ### Comparisons -/

theorem not_infinity_lt (x : Float) : ¬ (1.0 / 0.0 : Float) < x := by
  have hinfinity : unpacked (1.0 / 0.0) = .infinity .positive := rfl
  rw [lt_iff, hinfinity]
  generalize unpacked x = u
  rcases u with (_ | _) | _ | _ | _ <;> exact nofun

theorem not_lt_neg_infinity (x : Float) : ¬ x < -(1.0 / 0.0 : Float) := by
  have hinfinity : unpacked (-(1.0 / 0.0)) = .infinity .negative := rfl
  rw [lt_iff, hinfinity]
  generalize unpacked x = u
  rcases u with (_ | _) | _ | _ | (_ | _) <;> exact nofun

/-- Only what is no number differs from itself. -/
theorem unpacked_of_not_beq_self {x : Float} (h : ¬ (x == x) = true) :
    unpacked x = .notANumber := by
  rw [Float.beq_self_iff, not_not] at h
  rw [h]
  rfl

end RadianceTransfer.Double
