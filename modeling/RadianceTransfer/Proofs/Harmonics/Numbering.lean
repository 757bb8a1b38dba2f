import Mathlib
import RadianceTransfer.Proofs.Harmonics.Index

/-!
# Numbers and functions as words

Whether a guess of the degree is too large or too small, the two corrections end at the whole square
root of the number: the first one comes down to it or stays below, the second one goes up to it. So
the function of a number does not depend on the guess. As long as the number is below `2 ^ 62`, the
root is below `2 ^ 31`, and no square, product or difference on the way leaves its word.

## Main statements

* `lowerDegree_eq`, `raiseDegree_eq`: where the corrections end.
* `flatIndex?_eq`, `degreeOrderFrom_eq`: in words the same is computed as with whole numbers.
* `degreeOrder_inverts_flatIndex`: numbers and functions determine each other.
-/

namespace RadianceTransfer.Harmonics

/-! ### Words -/

theorem fitsUnsigned_of_lt {n : Nat} (h : n < 2 ^ 64) : FitsUnsigned 64 n :=
  h.trans_eq (by decide)

theorem fitsSigned_of_lt {i : Int} (h : i.natAbs < 2 ^ 63) : FitsSigned 64 i := by
  have hpow : (twoPow (64 - 1) : Int) = 2 ^ 63 := by decide
  rw [FitsSigned, hpow]
  omega

/-- A number that fits a signed word is what the word holds. -/
theorem signedWord_eq {bits : Nat} {i : Int} (h : 2 * i.natAbs < 2 ^ bits) :
    signedWord bits i = i := by
  rw [signedWord, twoPow, Nat.pow_eq]
  exact Int.bmod_eq_of_le (by omega) (by omega)

/-! ### The degree -/

theorem le_wholeRoot_iff {l i : Nat} : l ≤ wholeRoot i ↔ l * l ≤ i := by
  obtain ⟨hle, hlt⟩ := wholeRoot_spec i
  constructor
  · intro h
    exact (Nat.mul_self_le_mul_self h).trans hle
  · intro h
    exact Nat.lt_succ_iff.1 (Nat.mul_self_lt_mul_self_iff.1 (h.trans_lt hlt))

theorem wholeRoot_lt {i : Nat} (h : i < 2 ^ 62) : wholeRoot i < 2 ^ 31 := by
  rw [← not_le, le_wholeRoot_iff]
  omega

/-- Lowering a guess ends at the root, or at once if the guess is not above it. -/
theorem lowerDegree_eq {guess : Nat} (h : guess < 2 ^ 32) (i : Nat) :
    lowerDegree i guess = .ok (min guess (wholeRoot i)) := by
  induction guess with
  | zero => rw [lowerDegree, Nat.zero_min]
  | succ l ih =>
    have hfits : FitsUnsigned 64 ((l + 1) * (l + 1)) := fitsUnsigned_of_lt (by nlinarith)
    rw [lowerDegree, if_neg (not_not.2 hfits)]
    by_cases hlow : i < (l + 1) * (l + 1)
    · have hroot : wholeRoot i ≤ l := by
        rw [← Nat.lt_succ_iff, ← not_le, Nat.succ_eq_add_one, le_wholeRoot_iff]
        exact not_le.2 hlow
      rw [if_pos hlow, ih (by omega), Nat.min_eq_right hroot, Nat.min_eq_right (by omega)]
    · rw [if_neg hlow, Nat.min_eq_left (le_wholeRoot_iff.2 (not_lt.1 hlow))]

/-- Raising a degree that is not above the root ends at the root. -/
theorem raiseDegree_eq {i l : Nat} (hi : i < 2 ^ 62) (hl : l ≤ wholeRoot i) :
    raiseDegree i l = .ok (wholeRoot i) := by
  have hroot := wholeRoot_lt hi
  have hfits {k : Nat} (hk : k ≤ wholeRoot i) : FitsUnsigned 64 ((k + 1) * (k + 1)) :=
    fitsUnsigned_of_lt (by nlinarith)
  induction hl using Nat.decreasingInduction with
  | of_succ l hl ih =>
    rw [raiseDegree, if_neg (not_not.2 (hfits (Nat.le_of_succ_le hl))),
      dif_pos (le_wholeRoot_iff.1 hl), ih]
  | self =>
    rw [raiseDegree, if_neg (not_not.2 (hfits le_rfl)), dif_neg (not_le.2 (wholeRoot_spec i).2)]

/-! ### Numbers and functions -/

/-- The function of a number has this number. -/
theorem flatIndex_degreeOrder (i : Nat) :
    (degreeOrder i).2.natAbs ≤ (degreeOrder i).1 ∧
      flatIndex (degreeOrder i).1 (degreeOrder i).2 = i := by
  have hi : i < coefficientCount i := Nat.lt_of_lt_of_le i.lt_succ_self (Nat.le_mul_self _)
  obtain ⟨l, -, k, hk, rfl⟩ := exists_square_add hi
  rw [degreeOrder_square_add hk]
  exact ⟨by omega, flatIndex_sub l k⟩

theorem flatIndex_lt_of_lt {l : Nat} {m : Int} (hl : l < 2 ^ 31) (hm : m.natAbs ≤ l) :
    flatIndex l m < 2 ^ 62 :=
  (flatIndex_lt hm (Nat.le_pred_of_lt hl)).trans_eq (by decide)

/-- In words a function has the same number. -/
theorem flatIndex?_eq {l : UInt32} {m : Int} (hl : l.toNat < 2 ^ 31) (hm : m.natAbs ≤ l.toNat) :
    flatIndex? l m = .ok (flatIndex l.toNat m) := by
  have hlt := flatIndex_lt_of_lt hl hm
  obtain ⟨k, hk⟩ : ∃ k : Nat, m = k - l.toNat := ⟨(m + l.toNat).toNat, by omega⟩
  have hnumber : (l.toNat : Int) * (l.toNat + 1) + m = flatIndex l.toNat m := by
    rw [hk, flatIndex_sub]
    push_cast
    ring
  unfold flatIndex?
  dsimp only
  rw [if_neg (not_lt.2 hm), if_neg]
  rw [not_or, not_not, not_not, hnumber]
  exact ⟨fitsSigned_of_lt (by omega), fitsSigned_of_lt (by omega)⟩

/-- In words a number has the same function, whatever the guess. -/
theorem degreeOrderFrom_eq {guess i : Nat} (hguess : guess < 2 ^ 32) (hi : i < 2 ^ 62) :
    degreeOrderFrom guess i = .ok (degreeOrder i) := by
  have hroot := wholeRoot_lt hi
  obtain ⟨hle, hlt⟩ := wholeRoot_spec i
  rw [Nat.succ_mul_succ] at hlt
  -- the product as a whole number, which is within a degree of the number itself
  obtain ⟨p, hp⟩ : ∃ p, p = wholeRoot i * (wholeRoot i + 1) := ⟨_, rfl⟩
  have hcast : (wholeRoot i : Int) * (wholeRoot i + 1) = p := by
    rw [hp]
    push_cast
    rfl
  have hnear : p = wholeRoot i * wholeRoot i + wholeRoot i := hp.trans (Nat.mul_succ _ _)
  have hfits : FitsUnsigned 64 (wholeRoot i * (wholeRoot i + 1)) :=
    fitsUnsigned_of_lt (hp ▸ by omega)
  have hdifference : ((i : Int) - p).natAbs < 2 ^ 31 := by omega
  rw [degreeOrderFrom, lowerDegree_eq hguess, Outcome.bind_ok,
    raiseDegree_eq hi (Nat.min_le_right _ _), Outcome.bind_ok, if_neg (not_not.2 hfits), hcast,
    signedWord_eq (by omega), signedWord_eq (by omega)]
  dsimp only
  rw [if_neg (not_not.2 (fitsSigned_of_lt (by omega))), signedWord_eq (by omega), degreeOrder,
    hcast]

theorem coefficientCount?_eq_ok_iff {order : UInt32} {n : Nat} :
    coefficientCount? order = .ok n ↔
      FitsUnsigned 64 (coefficientCount order.toNat) ∧ n = coefficientCount order.toNat := by
  unfold coefficientCount?
  dsimp only
  split
  · rename_i h
    exact ⟨fun hok => by cases hok; exact ⟨h, rfl⟩, fun hn => by rw [hn.2]⟩
  · rename_i h
    exact ⟨fun hok => (nomatch hok), fun hn => absurd hn.1 h⟩

theorem coefficientCount_le_of_lt {order : Nat} (h : order < 2 ^ 31) :
    coefficientCount order ≤ 2 ^ 62 :=
  (coefficientCount_le (Nat.le_pred_of_lt h)).trans_eq (by decide)

theorem coefficientCount?_eq {order : UInt32} (h : order.toNat < 2 ^ 31) :
    coefficientCount? order = .ok (coefficientCount order.toNat) :=
  coefficientCount?_eq_ok_iff.2
    ⟨fitsUnsigned_of_lt ((coefficientCount_le_of_lt h).trans_lt (by decide)), rfl⟩

/-- The function of a number has a degree that is a word. -/
theorem exists_degreeOrder_eq {i : Nat} (h : i < 2 ^ 62) :
    ∃ (l : UInt32) (m : Int), l.toNat < 2 ^ 31 ∧ m.natAbs ≤ l.toNat ∧
      degreeOrder i = (l.toNat, m) ∧ flatIndex? l m = .ok i := by
  obtain ⟨hm, hi⟩ := flatIndex_degreeOrder i
  have hl : (degreeOrder i).1 < 2 ^ 31 := wholeRoot_lt h
  obtain ⟨l, hword⟩ : ∃ l : UInt32, l.toNat = (degreeOrder i).1 :=
    ⟨_, UInt32.toNat_ofNat_of_lt' (hl.trans (by decide))⟩
  rw [← hword] at hm hi hl
  exact ⟨l, _, hl, hm, by rw [hword], by rw [flatIndex?_eq hl hm, hi]⟩

/-- A number below the count belongs to exactly one function up to the degree. -/
theorem existsUnique_function {order : UInt32} (h : order.toNat < 2 ^ 31) {i : Nat}
    (hi : i < coefficientCount order.toNat) :
    ∃! f : UInt32 × Int, f.1 ≤ order ∧ f.2.natAbs ≤ f.1.toNat ∧ flatIndex? f.1 f.2 = .ok i := by
  obtain ⟨l, m, -, hm, hfunction, hnumber⟩ :=
    exists_degreeOrder_eq (hi.trans_le (coefficientCount_le_of_lt h))
  refine ⟨(l, m), ⟨?_, hm, hnumber⟩, ?_⟩
  · obtain ⟨l', hl', k, hk, rfl⟩ := exists_square_add hi
    rw [degreeOrder_square_add hk, Prod.mk.injEq] at hfunction
    exact UInt32.le_iff_toNat_le.2 (hfunction.1 ▸ hl')
  · rintro ⟨l', m'⟩ ⟨hl', hm', hnumber'⟩
    have hlt : l'.toNat < 2 ^ 31 := (UInt32.le_iff_toNat_le.1 hl').trans_lt h
    rw [flatIndex?_eq hlt hm'] at hnumber'
    cases hnumber'
    rw [degreeOrder_flatIndex hm', Prod.mk.injEq] at hfunction
    exact Prod.ext (UInt32.toNat_inj.1 hfunction.1) hfunction.2

/-- **Numbers and functions determine each other.** In words: a function of a degree below `2 ^ 31`
has a number, and it is the function of this number. A number below `2 ^ 62` is that of its
function, whatever guess below `2 ^ 32` the search for the degree starts with, and no word overflows
on the way. So the functions up to a degree below `2 ^ 31` have the numbers below their count, each
exactly one. -/
theorem degreeOrder_inverts_flatIndex :
    (∀ (l : UInt32) (m : Int), l.toNat ≤ 2 ^ 31 - 1 → m.natAbs ≤ l.toNat →
      ∃ i, flatIndex? l m = .ok i ∧ degreeOrder? i = .ok (l.toNat, m) ∧
        ∀ guess < 2 ^ 32, degreeOrderFrom guess i = .ok (l.toNat, m)) ∧
    (∀ i < 2 ^ 62, ∃ (l : UInt32) (m : Int), m.natAbs ≤ l.toNat ∧ flatIndex? l m = .ok i ∧
      ∀ guess < 2 ^ 32, degreeOrderFrom guess i = .ok (l.toNat, m)) ∧
    (∀ order : UInt32, order.toNat < 2 ^ 31 →
      ∃ count, coefficientCount? order = .ok count ∧ count = (order.toNat + 1) ^ 2 ∧
        (∀ (l : UInt32) (m : Int), l ≤ order → m.natAbs ≤ l.toNat →
          ∃ i < count, flatIndex? l m = .ok i) ∧
        ∀ i < count, ∃! f : UInt32 × Int,
          f.1 ≤ order ∧ f.2.natAbs ≤ f.1.toNat ∧ flatIndex? f.1 f.2 = .ok i) := by
  refine ⟨fun l m hl hm => ?_, fun i hi => ?_, fun order horder => ?_⟩
  · have hl' : l.toNat < 2 ^ 31 := by omega
    have hi := flatIndex_lt_of_lt hl' hm
    have hguess (guess : Nat) (h : guess < 2 ^ 32) :
        degreeOrderFrom guess (flatIndex l.toNat m) = .ok (l.toNat, m) := by
      rw [degreeOrderFrom_eq h hi, degreeOrder_flatIndex hm]
    exact ⟨_, flatIndex?_eq hl' hm, hguess _ ((wholeRoot_lt hi).trans (by decide)), hguess⟩
  · obtain ⟨l, m, -, hm, hfunction, hnumber⟩ := exists_degreeOrder_eq hi
    refine ⟨l, m, hm, hnumber, fun guess hguess => ?_⟩
    rw [degreeOrderFrom_eq hguess hi, hfunction]
  · refine ⟨_, coefficientCount?_eq horder, (Nat.pow_two _).symm, fun l m hl hm => ?_,
      fun i hi => existsUnique_function horder hi⟩
    have hl' : l.toNat ≤ order.toNat := UInt32.le_iff_toNat_le.1 hl
    exact ⟨_, flatIndex_lt hm hl', flatIndex?_eq (hl'.trans_lt horder) hm⟩

/-- The last function that is allowed is found back, be the guess zero or as large as a word can
be, and its number is the last one. -/
theorem degreeOrder_inverts_flatIndex_last :
    flatIndex? 2147483647 2147483647 = .ok 4611686018427387903 ∧
      degreeOrderFrom 0 4611686018427387903 = .ok (2147483647, 2147483647) ∧
      degreeOrderFrom 4294967295 4611686018427387903 = .ok (2147483647, 2147483647) ∧
      coefficientCount? 2147483647 = .ok 4611686018427387904 := by
  obtain ⟨hfunctions, -, hcounts⟩ := degreeOrder_inverts_flatIndex
  obtain ⟨i, hi, -, hguess⟩ := hfunctions 2147483647 2147483647 (by decide) (by decide)
  obtain ⟨count, hcount, rfl, -⟩ := hcounts 2147483647 (by decide)
  have hnumber : flatIndex? 2147483647 2147483647 = .ok 4611686018427387903 :=
    (flatIndex?_eq (by decide) (by decide)).trans (congrArg Except.ok (by decide))
  cases hnumber.symm.trans hi
  exact ⟨hnumber, hguess 0 (by decide), hguess 4294967295 (by decide),
    hcount.trans (congrArg Except.ok (by decide))⟩

end RadianceTransfer.Harmonics
