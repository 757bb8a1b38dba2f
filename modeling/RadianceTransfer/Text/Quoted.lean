import RadianceTransfer.Number.Text

/-!
# Quoted text

How a text or a character is written where its ends have to be seen: between quotes, with escapes
for what is not visible by itself.

## Escapes

The quote and the backslash stand behind a backslash. The ends of lines, the tabulator and the zero
character have a letter or a digit of their own. Any other character that leaves no mark, or that
changes the mark of the one in front of it, is written by its hexadecimal number.

## Main definitions

* `hiddenRanges`: the characters that are written by their number.
* `escaped`: a character between quotes.
* `inDoubleQuotes`, `inSingleQuotes`: a text and a character in quotes.
-/

namespace RadianceTransfer.Text

/-- The ranges of characters without a mark of their own, in ascending order: controls, blanks other
than the space, marks of direction and format, combining marks, private and unused numbers. -/
def hiddenRanges : List (Nat × Nat) :=
  [(0x0, 0x1f), (0x7f, 0xa0), (0xad, 0xad), (0x300, 0x36f), (0x483, 0x489), (0x591, 0x5bd),
    (0x600, 0x605), (0x610, 0x61a), (0x61c, 0x61c), (0x64b, 0x65f), (0x6dd, 0x6dd), (0x70f, 0x70f),
    (0x890, 0x891), (0x8e2, 0x8e2), (0x1680, 0x1680), (0x180b, 0x180f), (0x1ab0, 0x1ace),
    (0x1dc0, 0x1dff), (0x2000, 0x200f), (0x2028, 0x202f), (0x205f, 0x206f), (0x20d0, 0x20f0),
    (0x3000, 0x3000), (0x302a, 0x302f), (0x3099, 0x309a), (0xd800, 0xf8ff), (0xfdd0, 0xfdef),
    (0xfe00, 0xfe0f), (0xfe20, 0xfe2f), (0xfeff, 0xfeff), (0xfff0, 0xfffb), (0xfffe, 0xffff),
    (0x110bd, 0x110bd), (0x110cd, 0x110cd), (0x13430, 0x13438), (0x1bca0, 0x1bca3),
    (0x1d165, 0x1d169), (0x1d16d, 0x1d182), (0xe0000, 0x10ffff)]

/-- Whether a character is written by its number. -/
def isHidden (c : Char) : Bool :=
  hiddenRanges.any fun (low, high) => low ≤ c.toNat && c.toNat ≤ high

/-- What stands for a character between quotes of a given kind. -/
def escaped (quote c : Char) : List Char :=
  if c == quote || c == '\\' then ['\\', c]
  else if c == '\n' then ['\\', 'n']
  else if c == '\r' then ['\\', 'r']
  else if c == '\t' then ['\\', 't']
  else if c == '\x00' then ['\\', '0']
  else if isHidden c then '\\' :: 'u' :: '{' :: Nat.toDigits 16 c.toNat ++ ['}']
  else [c]

/-- A text in double quotes. -/
def inDoubleQuotes (s : String) : String :=
  String.ofList ('"' :: s.toList.flatMap (escaped '"') ++ ['"'])

/-- A character in single quotes. -/
def inSingleQuotes (c : Char) : String :=
  String.ofList ('\'' :: escaped '\'' c ++ ['\''])

end RadianceTransfer.Text
