import RadianceTransfer.Number.Word

/-!
# Chunks of an image file

A file of bounded samples starts with eight fixed bytes, followed by chunks. A chunk has a length, a
name of four letters, its data and a checksum over name and data. A name that starts with a capital
letter belongs to a chunk without which the picture cannot be shown.

## Main definitions

* `checksum`: the cyclic checksum of some bytes.
* `Chunk`: a chunk, and whether its checksum is right.
* `chunkAt?`, `chunkNameAt?`: what stands at a position of a file.
-/

namespace RadianceTransfer.Picture

/-- The bytes that every file starts with. -/
def pngSignature : List UInt8 :=
  [137, 80, 78, 71, 13, 10, 26, 10]

/-- The number of some bytes, the high ones first. -/
def bigEndian (bytes : List UInt8) : Nat :=
  bytes.foldl (fun n b => 256 * n + b.toNat) 0

/-- Takes one bit into the remainder of the division by the generator of the checksum. -/
def checksumBit (r : UInt32) : UInt32 :=
  if r &&& 1 == 1 then (r >>> 1) ^^^ 0xedb88320 else r >>> 1

/-- Takes one byte into the remainder. -/
def checksumByte (r : UInt32) (b : UInt8) : UInt32 :=
  Nat.repeat checksumBit 8 (r ^^^ b.toUInt32)

/-- The cyclic checksum of some bytes. -/
def checksum (bytes : ByteArray) : UInt32 :=
  bytes.foldl checksumByte 0xffffffff ^^^ 0xffffffff

/-- A chunk of a file. -/
structure Chunk where
  /-- Its name. -/
  name : List UInt8
  /-- Its data. -/
  data : ByteArray
  /-- Whether the checksum behind it is right. -/
  isIntact : Bool

namespace Chunk

/-- The name with given letters. -/
def named (letters : String) : List UInt8 :=
  letters.toUTF8.toList

/-- Whether a chunk with a name is needed to show the picture. -/
def isCritical (name : List UInt8) : Bool :=
  name.head?.any fun b => b &&& 32 == 0

end Chunk

/-- The name of the chunk at a position. -/
def chunkNameAt? (bytes : ByteArray) (start : Nat) : Option (List UInt8) :=
  if bytes.size < start + 8 then none else some (bytes.extract (start + 4) (start + 8)).toList

/-- The chunk at a position, and where the next one starts. -/
def chunkAt? (bytes : ByteArray) (start : Nat) : Option (Chunk × Nat) :=
  let stop := start + 8 + bigEndian (bytes.extract start (start + 4)).toList
  if bytes.size < stop + 4 then none
  else
    let stated := bigEndian (bytes.extract stop (stop + 4)).toList
    let isIntact := (checksum (bytes.extract (start + 4) stop)).toNat == stated
    let name := (bytes.extract (start + 4) (start + 8)).toList
    some (⟨name, bytes.extract (start + 8) stop, isIntact⟩, stop + 4)

end RadianceTransfer.Picture
