import RadianceTransfer.Ply.Payload
import RadianceTransfer.Text.Blank

/-!
# Headers of mesh files

A mesh file starts with lines of text that say how the records are written and what they hold.

## The grammar

The first line is the word `ply`. Then, in any order, come a line with the encoding and its version,
which is required and may be repeated, comments, and declarations of the kinds of records, each
followed by those of its properties. The line `end_header` ends the header. Words are separated by
spaces and tabulators, which may also end a line but not start it.

Versions and counts of records have to fit a word of 64 bits, whatever follows them in the line. Of
a version the lower 16 bits count.

## Main definitions

* `Encoding`, `PropertyType`, `Element`, `Header`: what a header says.
* `Line`, `readLine`: one line of a header.
* `Header.read`: the header at the front of some bytes.
-/

namespace RadianceTransfer.Ply

/-- How records are written. -/
inductive Encoding where
  /-- A line of text for each record. -/
  | text
  /-- Bytes, the low ones first. -/
  | littleEndian
  /-- Bytes, the high ones first. -/
  | bigEndian
  deriving DecidableEq

/-- An encoding with its version. -/
structure Format where
  /-- The encoding. -/
  encoding : Encoding
  /-- The number before the point. -/
  major : Nat
  /-- The number behind the point. -/
  minor : Nat
  deriving DecidableEq

/-- The type of a property. -/
inductive PropertyType where
  /-- A number. -/
  | scalar (t : ScalarType)
  /-- A count and as many numbers. -/
  | list (count item : ScalarType)

/-- A kind of records. -/
structure Element where
  /-- Its name. -/
  name : String
  /-- How many records there are. -/
  count : Nat
  /-- What each of them holds, in order. -/
  properties : List (String × PropertyType)

/-- What a header says. -/
structure Header where
  /-- How the records are written. -/
  encoding : Encoding
  /-- The kinds of records in order. -/
  elements : List Element

/-- A line of a header. -/
inductive Line where
  /-- The first line. -/
  | magic
  /-- The encoding. -/
  | format (f : Format)
  /-- A remark, which says nothing. -/
  | remark
  /-- A kind of records. -/
  | element (name : String) (count : Nat)
  /-- A property of the last kind. -/
  | property (name : String) (type : PropertyType)
  /-- The last line. -/
  | finish

/-- The bytes up to and including the first line feed, and those behind it. -/
def takeLine : List UInt8 → List UInt8 × List UInt8
  | [] => ([], [])
  | b :: bs =>
    if b == 10 then ([b], bs)
    else
      let (line, rest) := takeLine bs
      (b :: line, rest)

/-- A line without the line feed, carriage return, or both that end it. No further one may be
left. -/
def dropLineEnd? (cs : List Char) : Option (List Char) :=
  let cs := match cs.reverse with
    | '\n' :: '\r' :: rest => rest.reverse
    | '\n' :: rest => rest.reverse
    | '\r' :: rest => rest.reverse
    | _ => cs
  if cs.any fun c => c == '\n' || c == '\r' then none else some cs

/-- The text of a line, if its bytes are text. -/
def lineText? (line : List UInt8) : Option (List Char) := do
  let text ← String.fromUTF8? ⟨line.toArray⟩
  dropLineEnd? text.toList

/-- Whether a character separates words. -/
def isSpace (c : Char) : Bool :=
  c == ' ' || c == '\t'

/-- The words of a line. -/
def spaceWords (cs : List Char) : List (List Char) :=
  (Text.splitOn isSpace cs).filter fun w => !w.isEmpty

/-- The types of numbers by their names. -/
def scalarTypes : List (String × ScalarType) :=
  [("char", .whole .int8), ("int8", .whole .int8), ("uchar", .whole .uint8),
    ("uint8", .whole .uint8), ("short", .whole .int16), ("int16", .whole .int16),
    ("ushort", .whole .uint16), ("uint16", .whole .uint16), ("int", .whole .int32),
    ("int32", .whole .int32), ("uint", .whole .uint32), ("uint32", .whole .uint32),
    ("float", .real .single), ("float32", .real .single), ("double", .real .double),
    ("float64", .real .double)]

/-- A run of digits as a number. -/
def digits? (cs : List Char) : Option Nat :=
  if cs.isEmpty || !cs.all isDigit then none else some (digitsValue cs)

/-- The encoding of a name. -/
def encoding? (s : String) : Option Encoding :=
  if s == "ascii" then some .text
  else if s == "binary_little_endian" then some .littleEndian
  else if s == "binary_big_endian" then some .bigEndian
  else none

/-- A version: two numbers around a point, each of 16 bits. -/
def version? (cs : List Char) : Option (Nat × Nat) :=
  match Text.splitOn (· == '.') cs with
  | [major, minor] => do pure ((← digits? major) % twoPow 16, (← digits? minor) % twoPow 16)
  | _ => none

/-- Whether the digits in front of a text are a number that does not fit a word of 64 bits. -/
def exceedsWord (cs : List Char) : Bool :=
  decide (¬ FitsUnsigned 64 (digitsValue (cs.takeWhile isDigit)))

/-- Whether a word starts with a version one of whose numbers does not fit a word of 64 bits. -/
def versionExceedsWord (cs : List Char) : Bool :=
  exceedsWord cs ||
    match cs.head?.any isDigit, cs.dropWhile isDigit with
    | true, '.' :: minor => exceedsWord minor
    | _, _ => false

/-- Whether a character can start a name. -/
def startsName (c : Char) : Bool :=
  c.isAlpha || c == '_'

/-- A name: a letter or an underscore, then also digits and hyphens. -/
def name? : List Char → Option String
  | [] => none
  | c :: cs =>
    if startsName c && cs.all fun c => startsName c || isDigit c || c == '-' then
      some (String.ofList (c :: cs))
    else none

/-- A line of a header by its text. -/
def parseLine? (cs : List Char) : Option Line := do
  if (cs.head?.any isSpace) then none
  else
    let words := spaceWords cs
    match words.map String.ofList, words with
    | ["ply"], _ => some .magic
    | ["end_header"], _ => some .finish
    | "comment" :: _, _ => some .remark
    | "obj_info" :: _, _ => some .remark
    | ["format", e, _], [_, _, v] =>
      let encoding ← encoding? e
      let (major, minor) ← version? v
      some (.format ⟨encoding, major, minor⟩)
    | ["element", _, _], [_, n, k] => some (.element (← name? n) (← digits? k))
    | ["property", "list", c, t, _], [_, _, _, _, n] =>
      some (.property (← name? n) (.list (← find? c scalarTypes) (← find? t scalarTypes)))
    | ["property", t, _], [_, _, n] =>
      some (.property (← name? n) (.scalar (← find? t scalarTypes)))
    | _, _ => none

/-- Whether a line has a number that does not fit a word of 64 bits where one is due. -/
def numberExceedsWord (cs : List Char) : Bool :=
  match spaceWords cs with
  | word :: about :: number :: _ =>
    let word := String.ofList word
    (word == "element" && (name? about).isSome && exceedsWord number) ||
      (word == "format" && (encoding? (String.ofList about)).isSome && versionExceedsWord number)
  | _ => false

/-- Reads a line of a header, of which the numbers have to fit their words. -/
def readLine (line : List UInt8) : Outcome Line :=
  match lineText? line with
  | none => report .malformedMesh
  | some cs =>
    if !cs.head?.any isSpace && numberExceedsWord cs then violate .overflow
    else
      match parseLine? cs with
      | some l => .ok l
      | none => report .malformedMesh

/-- What has been read of a header so far, the last kind of records first. -/
structure Draft where
  /-- The encoding, once it is known. -/
  format : Option Format
  /-- The kinds of records. -/
  elements : List Element

/-- Adds what a line says. An encoding may be repeated but not changed, and a property needs a kind
of records to belong to. -/
def Draft.add (d : Draft) : Line → Outcome Draft
  | .magic => report .malformedMesh
  | .finish => report .malformedMesh
  | .remark => .ok d
  | .format f =>
    match d.format with
    | none => .ok { d with format := some f }
    | some g => if f = g then .ok d else report .malformedMesh
  | .element name count => .ok { d with elements := ⟨name, count, []⟩ :: d.elements }
  | .property name type =>
    match d.elements with
    | [] => report .malformedMesh
    | e :: es =>
      .ok { d with elements := { e with properties := e.properties ++ [(name, type)] } :: es }

/-- The header that a draft becomes, if it knows the encoding. -/
def Draft.finish (d : Draft) : Outcome Header :=
  match d.format with
  | some f => .ok ⟨f.encoding, d.elements.reverse⟩
  | none => report .malformedMesh

theorem length_takeLine (bs : List UInt8) :
    (takeLine bs).1.length + (takeLine bs).2.length = bs.length := by
  induction bs with
  | nil => rfl
  | cons b bs ih =>
    unfold takeLine
    split
    · simp; omega
    · simp only [List.length_cons]; omega

/-- Reads lines to the end of the header. What follows it comes with it. -/
def readLines (d : Draft) (bs : List UInt8) : Outcome (Header × List UInt8) :=
  match _h : takeLine bs with
  | ([], _) => report .malformedMesh
  | (b :: line, rest) => do
    match ← readLine (b :: line) with
    | .finish => pure (← d.finish, rest)
    | l => readLines (← d.add l) rest
termination_by bs.length
decreasing_by
  have := length_takeLine bs
  simp_all only [List.length_cons]
  omega

/-- Reads the header at the front of some bytes. What follows it comes with it. -/
def Header.read (bs : List UInt8) : Outcome (Header × List UInt8) := do
  let (line, rest) := takeLine bs
  match ← readLine line with
  | .magic => readLines ⟨none, []⟩ rest
  | _ => report .malformedMesh

end RadianceTransfer.Ply
