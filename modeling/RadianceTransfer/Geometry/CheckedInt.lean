import RadianceTransfer.Scalar

/-!
# Whole numbers of a word with checked arithmetic

A result that leaves the range of a signed word of 64 bits is no number any more, and neither is
anything computed from it.

## Main definitions

* `CheckedInt`: a whole number of the word, or the mark of an overflow.
* `CheckedInt.ofInt`: an exact result, if the word holds it.
-/

namespace RadianceTransfer

/-- A whole number of a signed word of 64 bits, or the mark that some operation overflowed. -/
structure CheckedInt where
  /-- The number, unless an operation overflowed. -/
  toInt? : Option Int
  deriving DecidableEq

namespace CheckedInt

/-- An exact result, if the word holds it. -/
def ofInt (i : Int) : CheckedInt :=
  ⟨if FitsSigned 64 i then some i else none⟩

/-- An operation of exact whole numbers on words. -/
@[inline] def lift₂ (f : Int → Int → Int) (a b : CheckedInt) : CheckedInt :=
  match a.toInt?, b.toInt? with
  | some a, some b => ofInt (f a b)
  | _, _ => ⟨none⟩

/-- An operation of one exact whole number on a word. -/
@[inline] def lift (f : Int → Int) (a : CheckedInt) : CheckedInt :=
  match a.toInt? with
  | some a => ofInt (f a)
  | none => ⟨none⟩

instance : Add CheckedInt := ⟨lift₂ (· + ·)⟩
instance : Sub CheckedInt := ⟨lift₂ (· - ·)⟩
instance : Mul CheckedInt := ⟨lift₂ (· * ·)⟩
instance : Neg CheckedInt := ⟨lift (- ·)⟩
instance : OfNat CheckedInt n := ⟨ofInt n⟩
instance : BEq CheckedInt := ⟨fun a b => a.toInt? == b.toInt?⟩

/-- Words compare as the numbers they hold; an overflow compares with nothing. -/
protected def lt (a b : CheckedInt) : Prop :=
  match a.toInt?, b.toInt? with
  | some a, some b => a < b
  | _, _ => False

instance : LT CheckedInt := ⟨CheckedInt.lt⟩

instance : DecidableLT CheckedInt := fun a b =>
  match ha : a.toInt?, hb : b.toInt? with
  | some m, some n =>
    decidable_of_iff (m < n) (by show _ ↔ CheckedInt.lt a b; simp [CheckedInt.lt, ha, hb])
  | none, _ => .isFalse (by show ¬ CheckedInt.lt a b; simp [CheckedInt.lt, ha])
  | some _, none => .isFalse (by show ¬ CheckedInt.lt a b; simp [CheckedInt.lt, ha, hb])

instance : Signed CheckedInt where
  abs := lift fun i => if i < 0 then -i else i
  isNegative a := a.toInt?.any (· < 0)

end CheckedInt

end RadianceTransfer
