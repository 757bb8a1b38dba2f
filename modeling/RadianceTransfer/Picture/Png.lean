import RadianceTransfer.Cubemap.Image
import RadianceTransfer.Picture.Chunk
import RadianceTransfer.Picture.Inflate

/-!
# Images of bounded samples

The first chunk of a file gives the size and the layout of the pixels. A palette and a chunk about
transparency may follow. The data of the chunks named `IDAT`, which come one behind the other, is
the compressed picture. Chunks with other names are passed over, and so are damaged ones that the
picture does not need.

## Samples

Gray values of less than eight bits are spread over eight. The samples of a picture with a palette
are places in it, and a place behind its end is black. Where a chunk about transparency is there,
pixels have an opacity, which is not worked out since nothing looks at it.

## Filters

Each row of the picture starts with a byte that says how its bytes were changed before they were
compressed: not at all, or by what was expected from the byte to the left, the one above, or both.
Adding the expected bytes gives the samples back.

## Passes

A picture comes as a whole, or in seven passes over a grid of eight by eight pixels. The pixels of a
pass form a smaller picture with rows of its own.

## Main definitions

* `PngHeader`: size and layout.
* `Pass`: which pixels come together.
* `unfilter`: one row without its filter.
* `readPng?`: the picture of a file.
-/

namespace RadianceTransfer.Picture

/-- What the samples of a pixel stand for in a file. -/
inductive PngColor where
  /-- One gray value. -/
  | gray
  /-- Red, green and blue. -/
  | rgb
  /-- A place in the palette. -/
  | indexed
  /-- One gray value and an opacity. -/
  | grayAlpha
  /-- Red, green, blue and an opacity. -/
  | rgba
  deriving DecidableEq

namespace PngColor

/-- What a number stands for. -/
def ofByte? : UInt8 → Option PngColor
  | 0 => some .gray
  | 2 => some .rgb
  | 3 => some .indexed
  | 4 => some .grayAlpha
  | 6 => some .rgba
  | _ => none

/-- How many samples a pixel has. -/
def samples : PngColor → Nat
  | gray => 1
  | rgb => 3
  | indexed => 1
  | grayAlpha => 2
  | rgba => 4

/-- How many bits a sample may have. -/
def depths : PngColor → List Nat
  | gray => [1, 2, 4, 8, 16]
  | indexed => [1, 2, 4, 8]
  | _ => [8, 16]

/-- The layout of the picture, given whether there is a chunk about transparency. -/
def layout (isTransparent : Bool) : PngColor → PixelLayout
  | gray => if isTransparent then .grayAlpha else .gray
  | rgb | indexed => if isTransparent then .rgba else .rgb
  | grayAlpha => .grayAlpha
  | rgba => .rgba

/-- How many bytes a chunk about transparency has at least, if there may be one. -/
def transparencyBytes? : PngColor → Option Nat
  | gray => some 2
  | rgb => some 6
  | indexed => some 0
  | _ => none

end PngColor

/-- What the first chunk says. -/
structure PngHeader where
  /-- Pixels per row. -/
  width : Nat
  /-- Rows. -/
  height : Nat
  /-- How many bits a sample has. -/
  bits : Nat
  /-- What the samples of a pixel stand for. -/
  color : PngColor
  /-- Whether the picture comes in seven passes. -/
  isInterlaced : Bool

namespace PngHeader

/-- The most bytes that a picture may take. -/
def maxBytes : Nat := twoPow 29

/-- The header in the data of the first chunk. -/
def read? (data : List UInt8) : Option PngHeader :=
  match data.drop 8 with
  | bits :: color :: 0 :: 0 :: interlaced :: _ => do
    let color ← PngColor.ofByte? color
    let width := bigEndian (data.take 4)
    let height := bigEndian ((data.drop 4).take 4)
    if width = 0 ∨ height = 0 ∨ bits.toNat ∉ color.depths ∨ 1 < interlaced then none
    else some ⟨width, height, bits.toNat, color, interlaced == 1⟩
  | _ => none

/-- How many bits a pixel has. -/
def pixelBits (h : PngHeader) : Nat :=
  h.color.samples * h.bits

/-- How far a byte is from the one that its filter takes for its left neighbor. -/
def pixelBytes (h : PngHeader) : Nat :=
  max 1 (h.pixelBits / 8)

/-- How many bytes a row of some pixels has. -/
def rowBytes (h : PngHeader) (width : Nat) : Nat :=
  (width * h.pixelBits + 7) / 8

/-- The depth of the samples of the picture. -/
def depth (h : PngHeader) : SampleDepth :=
  if h.bits = 16 then .sixteen else .eight

end PngHeader

/-- Pixels that come together: those in every so many columns and rows from given ones on. -/
structure Pass where
  /-- The first column. -/
  column : Nat
  /-- The first row. -/
  row : Nat
  /-- From column to column. -/
  columnStep : Nat
  /-- From row to row. -/
  rowStep : Nat

namespace Pass

/-- The passes of a picture. -/
def all (isInterlaced : Bool) : List Pass :=
  if isInterlaced then
    [⟨0, 0, 8, 8⟩, ⟨4, 0, 8, 8⟩, ⟨0, 4, 4, 8⟩, ⟨2, 0, 4, 4⟩, ⟨0, 2, 2, 4⟩, ⟨1, 0, 2, 2⟩,
      ⟨0, 1, 1, 2⟩]
  else [⟨0, 0, 1, 1⟩]

/-- How many columns of a picture a pass has. -/
def columns (p : Pass) (width : Nat) : Nat :=
  (width + p.columnStep - 1 - p.column) / p.columnStep

/-- How many rows of a picture a pass has, none if it has no columns. -/
def rows (p : Pass) (width height : Nat) : Nat :=
  if p.columns width = 0 then 0 else (height + p.rowStep - 1 - p.row) / p.rowStep

/-- The place of a pixel within a pass, if it comes with it. -/
def place? (p : Pass) (x y : Nat) : Option (Nat × Nat) :=
  if p.column ≤ x ∧ p.row ≤ y ∧ (x - p.column) % p.columnStep = 0 ∧
      (y - p.row) % p.rowStep = 0 then
    some ((x - p.column) / p.columnStep, (y - p.row) / p.rowStep)
  else none

end Pass

/-- Of three neighbors of a byte, to the left, above and between them, the one nearest to where the
plane through them would be at the byte. -/
def paeth (left up corner : Nat) : Nat :=
  let expected : Int := (left : Int) + up - corner
  let toLeft := (expected - left).natAbs
  let toUp := (expected - up).natAbs
  let toCorner := (expected - corner).natAbs
  if toLeft ≤ toUp ∧ toLeft ≤ toCorner then left else if toUp ≤ toCorner then up else corner

/-- What a filter expects a byte to be, from its neighbors. -/
def expected? (filter : UInt8) (left up corner : Nat) : Option Nat :=
  match filter with
  | 0 => some 0
  | 1 => some left
  | 2 => some up
  | 3 => some ((left + up) / 2)
  | 4 => some (paeth left up corner)
  | _ => none

/-- A row without its filter, given the row above. Neighbors outside the picture are zero. -/
def unfilter (pixelBytes : Nat) (filter : UInt8) (above row : ByteArray) : Option ByteArray :=
  (List.range row.size).foldlM (fun out i => do
    let before (bytes : ByteArray) : Nat :=
      if i < pixelBytes then 0 else ((bytes[i - pixelBytes]?).getD 0).toNat
    let up := ((above[i]?).getD 0).toNat
    let e ← expected? filter (before out) up (before above)
    some (out.push (((row[i]?).getD 0).toNat + e).toUInt8)) ByteArray.empty

/-- The rows of a picture from a position on, given the row above, and where they end. -/
def rows? (h : PngHeader) (rowBytes : Nat) (data : ByteArray) :
    (count start : Nat) → (above : ByteArray) → Option (List ByteArray × Nat)
  | 0, start, _ => some ([], start)
  | count + 1, start, above => do
    let stop := start + 1 + rowBytes
    if data.size < stop then none
    else
      let filter ← data[start]?
      let row ← unfilter h.pixelBytes filter above (data.extract (start + 1) stop)
      let (rest, stop) ← rows? h rowBytes data count stop row
      some (row :: rest, stop)

/-- The rows of some passes from a position on. -/
def passRows? (h : PngHeader) (data : ByteArray) :
    (start : Nat) → List Pass → Option (List (Pass × Array ByteArray))
  | _, [] => some []
  | start, p :: passes => do
    let rowBytes := h.rowBytes (p.columns h.width)
    let (rows, start) ← rows? h rowBytes data (p.rows h.width h.height) start ByteArray.empty
    let rest ← passRows? h data start passes
    some ((p, rows.toArray) :: rest)

/-- A sample of a row. -/
def sampleAt (h : PngHeader) (row : ByteArray) (i : Nat) : Nat :=
  let byte (k : Nat) : Nat := ((row[k]?).getD 0).toNat
  if h.bits = 16 then 256 * byte (2 * i) + byte (2 * i + 1)
  else
    let perByte := 8 / h.bits
    byte (i / perByte) / twoPow (8 - h.bits * (i % perByte + 1)) % twoPow h.bits

/-- The samples of a pixel of a row. -/
def pixelSamples (h : PngHeader) (row : ByteArray) (x : Nat) : List Nat :=
  (List.range h.color.samples).map fun c => sampleAt h row (h.color.samples * x + c)

/-- The colors of a palette, three bytes each. -/
structure Palette where
  /-- The bytes. -/
  bytes : ByteArray

namespace Palette

/-- The samples at a place. Bytes that do not make up a color are no place. -/
def color (p : Palette) (i : Nat) : List Nat :=
  if p.bytes.size < 3 * i + 3 then [0, 0, 0]
  else (p.bytes.extract (3 * i) (3 * i + 3)).toList.map UInt8.toNat

end Palette

/-- What stands between the first chunk and the picture. -/
structure PngTables where
  /-- The palette. -/
  palette? : Option Palette
  /-- Whether there is a chunk about transparency. -/
  isTransparent : Bool

namespace PngTables

/-- What a chunk adds. There is one palette and one chunk about transparency at most, and the latter
comes behind the palette if pixels are places in it. -/
def add? (h : PngHeader) (t : PngTables) (c : Chunk) : Option PngTables :=
  if c.name == Chunk.named "PLTE" then
    if t.palette?.isSome then none else some { t with palette? := some ⟨c.data⟩ }
  else if c.name == Chunk.named "tRNS" then
    match h.color.transparencyBytes? with
    | some least =>
      let isEarly := h.color == .indexed && t.palette?.isNone
      if t.isTransparent || c.data.size < least || isEarly then none
      else some { t with isTransparent := true }
    | none => none
  else some t

/-- What stands in front of the picture, and where that starts, from a position on. Every chunk
takes at least twelve bytes. -/
def read? (h : PngHeader) (bytes : ByteArray) :
    (steps : Nat) → PngTables → (start : Nat) → Option (PngTables × Nat)
  | 0, _, _ => none
  | steps + 1, t, start => do
    let name ← chunkNameAt? bytes start
    if name == Chunk.named "IDAT" then some (t, start)
    else
      let (c, stop) ← chunkAt? bytes start
      if c.isIntact then
        if name == Chunk.named "IHDR" || name == Chunk.named "IEND" then none
        else read? h bytes steps (← t.add? h c) stop
      else if Chunk.isCritical name then none
      else read? h bytes steps t stop

end PngTables

/-- The compressed picture from a position on, behind what is there already. The name of another
chunk ends it. -/
def pictureData? (bytes : ByteArray) : (steps : Nat) → (start : Nat) → ByteArray → Option ByteArray
  | 0, _, _ => none
  | steps + 1, start, found => do
    let name ← chunkNameAt? bytes start
    if name == Chunk.named "IDAT" then
      let (c, stop) ← chunkAt? bytes start
      if c.isIntact then pictureData? bytes steps stop (found ++ c.data) else none
    else some found

/-- The samples of a pixel of the picture, from those in the file. -/
def finished (h : PngHeader) (t : PngTables) (samples : List Nat) : List Nat :=
  match h.color, t.palette? with
  | .indexed, some palette => palette.color (samples.getD 0 0)
  | _, _ => if h.bits < 8 then samples.map (· * (255 / (twoPow h.bits - 1))) else samples

/-- The picture of a file. -/
def readPng? {π : Type} (bytes : ByteArray) : Option (ImageFile π) := do
  if (bytes.extract 0 8).toList ≠ pngSignature then none
  else
    let steps := bytes.size / 12 + 1
    let (first, start) ← chunkAt? bytes 8
    if first.name != Chunk.named "IHDR" || !first.isIntact then none
    else
      let h ← PngHeader.read? first.data.toList
      let (t, start) ← PngTables.read? h bytes steps ⟨none, false⟩ start
      let data ← inflate? (← pictureData? bytes steps start ByteArray.empty)
      let layout := h.color.layout t.isTransparent
      let passes := Pass.all h.isInterlaced
      let needed := passes.foldl (fun n p =>
        n + p.rows h.width h.height * (1 + h.rowBytes (p.columns h.width))) 0
      let sampleBytes := if h.bits = 16 then 2 else 1
      if PngHeader.maxBytes < h.width * h.height * layout.channels * sampleBytes ∨
          data.size < needed ∨ (h.color = .indexed ∧ t.palette? = none) then none
      else
        let found ← passRows? h data 0 passes
        let pixel (i : Nat) : List Nat :=
          let samples? := found.findSome? fun (p, rows) =>
            (p.place? (i % h.width) (i / h.width)).map fun (x, y) =>
              pixelSamples h ((rows[y]?).getD ByteArray.empty) x
          finished h t (samples?.getD [])
        some (.samples layout h.depth h.width h.height
          ((List.range (h.width * h.height)).map pixel).toArray)

end RadianceTransfer.Picture
