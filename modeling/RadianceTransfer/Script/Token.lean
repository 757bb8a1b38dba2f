import RadianceTransfer.Number.Text
import RadianceTransfer.Number.Word
import RadianceTransfer.Text.Blank

/-!
# Words of a scene script

A script is cut into words before it is parsed. ASCII white space and comments separate words. A
comment behind two slashes ends with its line, also at a carriage return; a comment in slashes and
stars may hold further ones.

## Numbers

A run of digits, in which underscores are skipped, is a whole number. With a fraction or an exponent
it is a decimal. A point that no letter, no underscore and no second point follows belongs to the
number, so `1.` is one in `1. + 2` and the point of `1.x` stands by itself. A whole number that is
too large for a signed word of 64 bits is a decimal, too. Behind `0x`, `0o` and `0b` the digits are
those of an unsigned word in another base, whose highest bit is the sign.

A minus right in front of a digit belongs to the number where an operand is due, so that the least
whole number can be written and `-1.x` means `(-1).x`.

## Texts

A text ends in the line in which it starts, unless a backslash stands in front of the end of the
line. The text goes on in the next line then, and blanks in that line which are not to the right of
the opening quote are left out.

## Main definitions

* `Token`: the words.
* `tokenize`: the words of a script.
-/

namespace RadianceTransfer.Script

/-- The words that have a meaning of their own. -/
inductive Keyword where
  /-- Introduces a variable. -/
  | letKeyword
  /-- Introduces a choice. -/
  | ifKeyword
  /-- Introduces the other side of a choice. -/
  | elseKeyword
  /-- The truth value of what holds. -/
  | trueKeyword
  /-- The truth value of what does not hold. -/
  | falseKeyword
  deriving DecidableEq

/-- A word of a script. -/
inductive Token where
  /-- The name of a variable, a function or a property. -/
  | name (s : String)
  /-- A word with a meaning of its own. -/
  | keyword (k : Keyword)
  /-- A whole number. -/
  | int (i : Int)
  /-- A number with a fraction or an exponent. -/
  | decimal (digits : String)
  /-- A text between double quotes. -/
  | text (s : String)
  /-- A character between single quotes. -/
  | char (c : Char)
  /-- A sign of punctuation or an operator. Two parentheses without anything between them are one
  sign. -/
  | symbol (s : String)
  deriving DecidableEq

/-- The signs behind which an operand is due. -/
def operandSigns : List String :=
  [";", ":", ",", "\x7b", "(", "[", "+", "-", "*", "/", "%", "!", "<", ">", "="]

/-- Whether an operand is due behind a word, or at the start of a script. -/
def operandDue : Option Token → Bool
  | none => true
  | some (.symbol s) => operandSigns.contains s
  | some (.keyword k) => k == .ifKeyword
  | some _ => false

/-- What follows a comment behind two slashes. A carriage return and a line feed are one end of a
line. -/
def skipLine : List Char → List Char
  | [] => []
  | '\r' :: '\n' :: cs => cs
  | c :: cs => if c == '\r' || c == '\n' then cs else skipLine cs

/-- What follows a comment in slashes and stars, given how many of them are open. One that is not
closed reaches to the end. -/
def skipComment : Nat → List Char → List Char
  | 0, cs => cs
  | depth + 1, '*' :: '/' :: cs => skipComment depth cs
  | depth + 1, '/' :: '*' :: cs => skipComment (depth + 2) cs
  | depth + 1, _ :: cs => skipComment (depth + 1) cs
  | _ + 1, [] => []

/-- Whether a name can start with a character. -/
def startsName (c : Char) : Bool :=
  c.isAlpha || c == '_'

/-- Whether a name can go on with a character. -/
def continuesName (c : Char) : Bool :=
  startsName c || isDigit c

/-- Whether a run of letters, digits and underscores is a name: its first character besides
underscores is a letter. -/
def isName (cs : List Char) : Bool :=
  match cs.dropWhile (· == '_') with
  | c :: _ => c.isAlpha
  | [] => false

/-- Words that are kept for statements which scenes do not use. -/
def reserved : List String :=
  ["const", "switch", "do", "while", "until", "loop", "for", "in", "continue", "break", "fn",
    "private", "return", "throw", "try", "catch", "import", "export", "as", "this", "var", "static",
    "shared", "goto", "match", "case", "public", "protected", "new", "use", "with", "is", "module",
    "package", "super", "thread", "spawn", "go", "await", "async", "sync", "yield", "default",
    "void", "null", "nil", "Fn", "call", "curry", "is_shared", "is_def_fn", "is_def_var", "type_of",
    "print", "debug", "eval"]

/-- The word that a run of letters, digits and underscores is. -/
def word? (cs : List Char) : Option Token :=
  let s := String.ofList cs
  if !isName cs || reserved.contains s then none
  else if s == "let" then some (.keyword .letKeyword)
  else if s == "if" then some (.keyword .ifKeyword)
  else if s == "else" then some (.keyword .elseKeyword)
  else if s == "true" then some (.keyword .trueKeyword)
  else if s == "false" then some (.keyword .falseKeyword)
  else some (.name s)

/-- The characters of a number, given those found so far in reverse, and what follows it. A number
has one point at most, none behind its exponent, and one exponent at most. -/
def numberChars : (point exponent : Bool) → (found : List Char) → List Char → List Char × List Char
  | _, _, found, [] => (found, [])
  | point, exponent, found, '_' :: cs => numberChars point exponent found cs
  | point, exponent, found, '.' :: cs =>
    if point || cs.head?.all fun c => startsName c || c == '.' then (found, '.' :: cs)
    else if cs.head?.any isDigit then numberChars true exponent ('.' :: found) cs
    else numberChars true exponent ('0' :: '.' :: found) cs
  | point, exponent, found, c :: sign :: cs =>
    if isDigit c then numberChars point exponent (c :: found) (sign :: cs)
    else if (c == 'e' || c == 'E') && !exponent then
      if sign == '+' || sign == '-' then numberChars true true (sign :: 'e' :: found) cs
      else if isDigit sign then numberChars true true ('e' :: found) (sign :: cs)
      else (found, c :: sign :: cs)
    else (found, c :: sign :: cs)
  | _, _, found, [c] => if isDigit c then (c :: found, []) else (found, [c])

/-- The number that some characters without a sign are, given whether a minus is in front of
them. -/
def number? (negative : Bool) (cs : List Char) : Option Token :=
  let i : Int := if negative then -(digitsValue cs : Int) else digitsValue cs
  if cs.all isDigit && FitsSigned 64 i then some (.int i)
  else if (readDecimal? cs).isSome then
    some (.decimal (String.ofList (if negative then '-' :: cs else cs)))
  else none

/-- The value of a hexadecimal digit. -/
def hexValue? (c : Char) : Option Nat :=
  if isDigit c then some (c.toNat - '0'.toNat)
  else if 'a' ≤ c && c ≤ 'f' then some (c.toNat - 'a'.toNat + 10)
  else if 'A' ≤ c && c ≤ 'F' then some (c.toNat - 'A'.toNat + 10)
  else none

/-- The value of some digits in a base of up to sixteen. -/
def inBase? (base : Nat) (cs : List Char) : Option Nat := do
  let digits ← cs.mapM hexValue?
  if digits.isEmpty || digits.any (base ≤ ·) then none
  else some (digits.foldl (fun n d => base * n + d) 0)

/-- The base that a letter behind a zero stands for. -/
def base? (c : Char) : Option Nat :=
  if c == 'x' || c == 'X' then some 16
  else if c == 'o' || c == 'O' then some 8
  else if c == 'b' || c == 'B' then some 2
  else none

/-- The base of the number whose first digit is in front of a text, if it is not ten, and what
follows the letter that stands for it. -/
def baseNumber? (first : Char) (cs : List Char) : Option (Nat × List Char) :=
  match cs.dropWhile (· == '_') with
  | c :: rest => if first == '0' then (base? c).map fun base => (base, rest) else none
  | [] => none

/-- The number whose first digit is in front of a text, given whether a minus is in front of it, and
what follows it. A number in a base other than ten has no minus. -/
def anyNumber? (negative : Bool) (first : Char) (cs : List Char) : Option (Token × List Char) :=
  match baseNumber? first cs with
  | some (base, rest) =>
    let isPart (c : Char) : Bool :=
      c == '_' || (if base == 16 then (hexValue? c).isSome else isDigit c)
    match inBase? base ((rest.takeWhile isPart).filter (· != '_')) with
    | some n =>
      if negative || twoPow 64 ≤ n then none
      else some (.int (if twoPow 63 ≤ n then (n : Int) - twoPow 64 else n), rest.dropWhile isPart)
    | none => none
  | none =>
    let (found, rest) := numberChars false false [first] cs
    (number? negative found.reverse).map fun t => (t, rest)

/-- The character whose number is written with a given count of hexadecimal digits, and what follows
them. -/
def hexChar? (count : Nat) (cs : List Char) : Option (Char × List Char) := do
  if cs.length < count then none
  else
    let n ← inBase? 16 (cs.take count)
    if n.isValidChar then some (Char.ofNat n, cs.drop count) else none

/-- The character that an escape behind a backslash stands for, and what follows it. -/
def escape? (quote : Char) : List Char → Option (Char × List Char)
  | '\\' :: cs => some ('\\', cs)
  | 't' :: cs => some ('\t', cs)
  | 'n' :: cs => some ('\n', cs)
  | 'r' :: cs => some ('\r', cs)
  | 'x' :: cs => hexChar? 2 cs
  | 'u' :: cs => hexChar? 4 cs
  | 'U' :: cs => hexChar? 8 cs
  | c :: cs => if c == quote then some (c, cs) else none
  | [] => none

/-- What follows the end of a line. -/
def lineEnd? : List Char → Option (List Char)
  | '\n' :: cs => some cs
  | '\r' :: '\n' :: cs => some cs
  | _ => none

/-- How far the characters between quotes are read. -/
structure Quoted where
  /-- The characters, the latest first. -/
  found : List Char
  /-- The column of the last character that was read. -/
  column : Nat
  /-- Whether blanks are left out, because no character of this line was found yet. -/
  indented : Bool

namespace Quoted

/-- Goes over some characters of the line that stand for one. -/
def push (q : Quoted) (count : Nat) (c : Char) : Quoted :=
  ⟨c :: q.found, q.column + count, false⟩

/-- Goes over an escape of some characters. Blanks behind it are treated like those in front. -/
def pushEscape (q : Quoted) (count : Nat) (c : Char) : Quoted :=
  ⟨c :: q.found, q.column + count, q.indented⟩

/-- Goes over a blank that is left out. -/
def skip (q : Quoted) : Quoted :=
  { q with column := q.column + 1 }

/-- Goes to the next line. -/
def nextLine (q : Quoted) : Quoted :=
  { q with column := 0, indented := true }

end Quoted

/-- The characters up to the quote that ends them, in reverse, and what follows it. A doubled quote
is one character. Only double quotes, which are in the column `start`, go on in another line. Every
step takes a character, so as many steps as there are characters are enough. -/
def quoted? (quote : Char) (start : Nat) :
    (steps : Nat) → Quoted → List Char → Option (List Char × List Char)
  | 0, _, _ => none
  | _ + 1, _, [] => none
  | steps + 1, q, c :: cs =>
    if c == '\\' then
      match lineEnd? cs with
      | some rest => if quote == '"' then quoted? quote start steps q.nextLine rest else none
      | none =>
        match escape? quote cs with
        | some (e, rest) =>
          quoted? quote start steps (q.pushEscape (cs.length + 1 - rest.length) e) rest
        | none => none
    else if c == quote then
      match cs with
      | d :: rest =>
        if d == quote then quoted? quote start steps (q.push 2 d) rest else some (q.found, cs)
      | [] => some (q.found, [])
    else if (lineEnd? (c :: cs)).isSome then none
    else if q.indented && q.column < start && Text.isBlank c then
      quoted? quote start steps q.skip cs
    else quoted? quote start steps (q.push 1 c) cs

/-- The characters that are signs by themselves. -/
def signs : List Char :=
  ['+', '-', '*', '/', '%', '!', '<', '>', '=', '(', ')', '[', ']', '{', '}', ',', ';', ':', '.']

/-- Pairs of signs that are not two signs. -/
def forbiddenPairs : List (Char × Char) :=
  [('+', '+'), ('-', '-'), ('<', '-')]

/-- The sign in front of a text, and what follows it. -/
def sign? : List Char → Option (Token × List Char)
  | '#' :: '{' :: cs => some (.symbol "#\x7b", cs)
  | '(' :: ')' :: cs => some (.symbol "()", cs)
  | c :: cs =>
    let pair := cs.head?.any fun d => forbiddenPairs.contains (c, d)
    if signs.contains c && !pair then some (.symbol (String.singleton c), cs) else none
  | [] => none

/-- The word in front of a text that starts with neither white space nor a comment, and what follows
it, given the column in front of it and whether an operand is due. -/
def nextToken? (column : Nat) (due : Bool) : List Char → Option (Token × List Char)
  | [] => none
  | '-' :: d :: cs => if due && isDigit d then anyNumber? true d cs else sign? ('-' :: d :: cs)
  | '\'' :: '\'' :: _ => none
  | c :: cs =>
    if isDigit c then anyNumber? false c cs
    else if startsName c then
      let (word, rest) := (c :: cs).span continuesName
      (word? word).map fun t => (t, rest)
    else if c == '"' || c == '\'' then
      match quoted? c (column + 1) (cs.length + 1) ⟨[], column + 1, false⟩ cs with
      | some (found, rest) =>
        if c == '"' then some (.text (String.ofList found.reverse), rest)
        else
          match found with
          | [d] => some (.char d, rest)
          | _ => none
      | none => none
    else sign? (c :: cs)

/-- The column behind some characters, given the one in front of them. -/
def columnAfter (column : Nat) (cs : List Char) : Nat :=
  cs.foldl (fun n c => if c == '\n' then 0 else n + 1) column

/-- The words of a text, given the column in front of it and the word before it. Every step takes at
least one character, so one step more than there are characters is enough. -/
def tokensWithin : (steps : Nat) → (column : Nat) → (last : Option Token) → List Char →
    Option (List Token)
  | 0, _, _, _ => none
  | _ + 1, _, _, [] => some []
  | steps + 1, _, last, '/' :: '/' :: cs => tokensWithin steps 0 last (skipLine cs)
  | steps + 1, column, last, '/' :: '*' :: cs =>
    let rest := skipComment 1 cs
    tokensWithin steps (columnAfter (column + 2) (cs.take (cs.length - rest.length))) last rest
  | steps + 1, column, last, c :: cs =>
    if Text.isAsciiBlank c then tokensWithin steps (columnAfter column [c]) last cs
    else
      match nextToken? column (operandDue last) (c :: cs) with
      | some (t, rest) =>
        let taken := (c :: cs).take (cs.length + 1 - rest.length)
        (tokensWithin steps (columnAfter column taken) (some t) rest).map (t :: ·)
      | none => none

/-- The words of a script, if it has nothing but words. -/
def tokenize (script : String) : Option (List Token) :=
  let cs := script.toList
  tokensWithin (cs.length + 1) 0 none cs

end RadianceTransfer.Script
