import RadianceTransfer.Number.Text

/-!
# Blank characters and lines

Which characters count as white space, and how a text falls into lines and words.

## Main definitions

* `isBlank`: the characters of the Unicode property White_Space.
* `lines`: the lines of a text.
* `words`: the words of a line, between ASCII white space.
-/

namespace RadianceTransfer.Text

/-- The ranges of the Unicode property White_Space, in ascending order. -/
def blankRanges : List (Nat × Nat) :=
  [(0x9, 0xd), (0x20, 0x20), (0x85, 0x85), (0xa0, 0xa0), (0x1680, 0x1680), (0x2000, 0x200a),
    (0x2028, 0x2029), (0x202f, 0x202f), (0x205f, 0x205f), (0x3000, 0x3000)]

/-- Whether a character is white space. -/
def isBlank (c : Char) : Bool :=
  blankRanges.any fun (low, high) => low ≤ c.toNat && c.toNat ≤ high

/-- Whether a character is ASCII white space: a space, a tabulator or one of three ends of lines
and pages. -/
def isAsciiBlank (c : Char) : Bool :=
  c == ' ' || c == '\t' || c == '\n' || c == '\x0c' || c == '\r'

/-- A text without white space at its ends. -/
def trim (cs : List Char) : List Char :=
  ((cs.dropWhile isBlank).reverse.dropWhile isBlank).reverse

/-- The pieces of a list between the elements that satisfy a test. -/
def splitOn (p : β → Bool) : List β → List (List β)
  | [] => [[]]
  | x :: xs =>
    if p x then [] :: splitOn p xs
    else
      match splitOn p xs with
      | [] => [[x]]
      | piece :: pieces => (x :: piece) :: pieces

/-- A line without the carriage return that may end it. -/
def dropReturn (cs : List Char) : List Char :=
  if cs.getLast? == some '\r' then cs.dropLast else cs

/-- The lines of a text. A line feed ends a line, and a carriage return before it belongs to the
end. What follows the last line feed is a line unless it is empty. -/
def lines (cs : List Char) : List (List Char) :=
  let pieces := splitOn (· == '\n') cs
  let last := pieces.getLast?.getD []
  pieces.dropLast.map dropReturn ++ (if last.isEmpty then [] else [last])

/-- The words of a line. -/
def words (cs : List Char) : List (List Char) :=
  (splitOn isAsciiBlank cs).filter fun w => !w.isEmpty

end RadianceTransfer.Text
