import RadianceTransfer.Cubemap.Image
import RadianceTransfer.Number.Count
import RadianceTransfer.Text.Blank

/-!
# Images of unbounded radiance

A file of unbounded radiance starts with lines of text, the first of which starts with the name of
the kind of file. An empty line ends them, and one line with the size follows. In between there are
comments, commands, and attributes with values, some of which have to be sound.

## Rows

A pixel has four bytes: three significands and a common exponent. In a row with a mark in front, the
four kinds of bytes come one after the other, each as a sequence of runs: a count above 128 is
followed by one byte that is repeated, another count by as many bytes as it says. In any other row
pixels come as they are, and a pixel whose significands are all one says how often the last pixel is
repeated. If several of those come together, each one has 256 times the weight of the one before.

## Main definitions

* `sharedExponent`: the color of four bytes.
* `readRadiance?`: the picture of a file.
-/

namespace RadianceTransfer.Picture

/-- The color of three significands with a common exponent. -/
def sharedExponent (r g b e : UInt8) : Color Float32 :=
  if e == 0 then Color.black
  else
    let value (m : UInt8) : Float32 :=
      Float32.scaleB (Float32.ofNat m.toNat) ((e.toNat : Int) - 136)
    ⟨value r, value g, value b⟩

/-- A pixel as it stands in a file. -/
structure RadiancePixel where
  /-- The significand of red. -/
  r : UInt8
  /-- The significand of green. -/
  g : UInt8
  /-- The significand of blue. -/
  b : UInt8
  /-- The common exponent. -/
  e : UInt8
  deriving DecidableEq

/-- The color of a pixel. -/
def RadiancePixel.color (p : RadiancePixel) : Color Float32 :=
  sharedExponent p.r p.g p.b p.e

/-- The line at the front of some bytes, and what follows its line feed. The last line needs
none. -/
def headerLine? (bytes : List UInt8) : Option (List UInt8 × List UInt8) :=
  if bytes.isEmpty then none
  else
    let (line, rest) := bytes.span (· != 10)
    some (line, rest.tail)

/-- The characters of a line. If it is no text, bytes beyond ASCII stand for unknown characters. -/
def lineText (line : List UInt8) : List Char :=
  match String.fromUTF8? ⟨line.toArray⟩ with
  | some s => s.toList
  | none => line.map fun b => if b < 128 then Char.ofNat b.toNat else '\ufffd'

/-- The pieces of a line between white space. -/
def lineWords (cs : List Char) : List String :=
  ((Text.splitOn Text.isBlank cs).filter fun w => !w.isEmpty).map String.ofList

/-- Whether a text is a number of the decoder. -/
def isNumber (s : String) : Bool :=
  (NumberText.read? s : Option Float32).isSome

/-- Whether a line of the header is sound: the format is the one that is read here, exposure and
shape of pixels are numbers, and the correction of colors is three. Other attributes, and lines
without a name and a value, say nothing. -/
def isSoundAttribute (line : List Char) : Bool :=
  let (name, rest) := line.span (· != '=')
  let value := rest.tail
  if name.isEmpty || value.isEmpty then true
  else
    let name := String.ofList (Text.trim name)
    if name == "FORMAT" then String.ofList (Text.trim value) == "32-bit_rle_rgbe"
    else if name == "EXPOSURE" || name == "PIXASPECT" then
      isNumber (String.ofList (Text.trim value))
    else if name == "COLORCORR" then
      (lineWords value).length == 3 && (lineWords value).all isNumber
    else true

/-- What follows the empty line that ends the header. Every line takes at least one byte. -/
def skipHeader? : (steps : Nat) → List UInt8 → Option (List UInt8)
  | 0, _ => none
  | steps + 1, bytes => do
    let (line, rest) ← headerLine? bytes
    if line.isEmpty then some rest
    else if line.head? == some 35 || isSoundAttribute (lineText line) then skipHeader? steps rest
    else none

/-- The number of pixels along a side. -/
def sideLength? (s : String) : Option Nat :=
  match readCount s with
  | .ok n => if FitsUnsigned 32 n then some n else none
  | .error _ => none

/-- The width and height in a line: rows from the top, columns from the left. -/
def radianceSize? (line : List UInt8) : Option (Nat × Nat) :=
  match lineWords (lineText line) with
  | ["-Y", height, "+X", width] => do some (← sideLength? width, ← sideLength? height)
  | _ => none

/-- The bytes of some runs, until there are as many as wanted. Every run takes at least one byte. -/
def runs? : (steps : Nat) → (wanted : Nat) → List UInt8 → Option (List UInt8 × List UInt8)
  | _, 0, bytes => some ([], bytes)
  | 0, _ + 1, _ => none
  | steps + 1, wanted, bytes =>
    match bytes with
    | [] => none
    | count :: bytes => do
      let n := if 128 < count then count.toNat - 128 else count.toNat
      let (front, bytes) ← if 128 < count then
          bytes.head?.map fun b => (List.replicate n b, bytes.tail)
        else some (bytes.take n, bytes.drop n)
      if wanted < n ∨ front.length < n then none
      else
        let (rest, bytes) ← runs? steps (wanted - n) bytes
        some (front ++ rest, bytes)

/-- The pixel in front of some bytes. -/
def pixel? : List UInt8 → Option (RadiancePixel × List UInt8)
  | r :: g :: b :: e :: bytes => some (⟨r, g, b, e⟩, bytes)
  | _ => none

/-- How often a pixel says that the last one is repeated, if it does. -/
def RadiancePixel.repetition? (p : RadiancePixel) : Option Nat :=
  if p.r = 1 ∧ p.g = 1 ∧ p.b = 1 then some p.e.toNat else none

/-- Pixels behind a given one, until there are as many as wanted, where a repetition has a given
weight. Every pixel takes four bytes. -/
def plainPixels? (last : RadiancePixel) : (steps : Nat) → (weight wanted : Nat) → List UInt8 →
    Option (List RadiancePixel × List UInt8)
  | _, _, 0, bytes => some ([], bytes)
  | 0, _, _ + 1, _ => none
  | steps + 1, weight, wanted, bytes => do
    let (p, bytes) ← pixel? bytes
    match p.repetition? with
    | some n =>
      if wanted < n * weight then none
      else
        let (rest, bytes) ← plainPixels? last steps (256 * weight) (wanted - n * weight) bytes
        some (List.replicate (n * weight) last ++ rest, bytes)
    | none =>
      let (rest, bytes) ← plainPixels? p steps 1 (wanted - 1) bytes
      some (p :: rest, bytes)

/-- A row of pixels. The first one is no repetition. -/
def radianceRow? (steps width : Nat) (bytes : List UInt8) :
    Option (List RadiancePixel × List UInt8) := do
  let (first, rest) ← pixel? bytes
  if first.r = 2 ∧ first.g = 2 ∧ first.b < 128 then
    let (rs, rest) ← runs? steps width rest
    let (gs, rest) ← runs? steps width rest
    let (bs, rest) ← runs? steps width rest
    let (es, rest) ← runs? steps width rest
    some ((rs.zip (gs.zip (bs.zip es))).map fun (r, g, b, e) => ⟨r, g, b, e⟩, rest)
  else if first.repetition?.isSome then none
  else
    let (others, rest) ← plainPixels? first steps 1 (width - 1) rest
    some (first :: others, rest)

/-- A number of rows. -/
def radianceRows? (steps width : Nat) : (count : Nat) → List UInt8 → Option (List RadiancePixel)
  | 0, _ => some []
  | count + 1, bytes => do
    let (row, bytes) ← radianceRow? steps width bytes
    let rest ← radianceRows? steps width count bytes
    some (row ++ rest)

/-- The most bytes that a picture may take. -/
def maxRadianceBytes : Nat := twoPow 29

/-- The picture of a file. One without pixels is one, too. -/
def readRadiance? (bytes : ByteArray) : Option (ImageFile Float32) := do
  if (bytes.extract 0 10).toList ≠ "#?RADIANCE".toUTF8.toList then none
  else
    let bytes := bytes.toList.drop 10
    let steps := bytes.length + 1
    let (_, rest) := (headerLine? bytes).getD ([], [])
    let rest ← skipHeader? steps rest
    let (size, rest) ← headerLine? rest
    let (width, height) ← radianceSize? size
    if width = 0 ∨ height = 0 then some (.radiance width height #[])
    else if maxRadianceBytes < 3 * width * height then none
    else
      let pixels ← radianceRows? steps width height rest
      some (.radiance width height (pixels.map RadiancePixel.color).toArray)

end RadianceTransfer.Picture
