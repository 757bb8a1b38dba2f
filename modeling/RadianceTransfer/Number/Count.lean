import RadianceTransfer.Failure
import RadianceTransfer.Number.Text

/-!
# Counts as text

A count is a whole number of an unsigned word, written with decimal digits and possibly a plus sign
in front.
-/

namespace RadianceTransfer

/-- The value of a run of digits, each of which has to be one, within a word of 64 bits. The fault
that comes first wins. -/
def readDigits : Nat → List Char → Except CountError Nat
  | n, [] => .ok n
  | n, c :: cs =>
    if !isDigit c then .error .notADigit
    else
      let n := 10 * n + (c.toNat - '0'.toNat)
      if FitsUnsigned 64 n then readDigits n cs else .error .tooLarge

/-- Reads a whole text as a count. A lone sign is no digit. -/
def readCount (s : String) : Except CountError Nat :=
  match s.toList with
  | [] => .error .empty
  | ['+'] => .error .notADigit
  | ['-'] => .error .notADigit
  | '+' :: cs => readDigits 0 cs
  | cs => readDigits 0 cs

end RadianceTransfer
