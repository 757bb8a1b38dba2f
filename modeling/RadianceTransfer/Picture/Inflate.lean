import RadianceTransfer.Number.Word

/-!
# Inflating

Image files are kept in compressed form. Compressed data is a sequence of blocks of bits, the low
bit of each byte first. A block holds bytes as they are, or symbols in a prefix code: a byte, the
end of the block, or the order to repeat a number of bytes from some way back.

## Prefix codes

A code is given by the length of each symbol's word. Words of one length are numbered through in the
order of their symbols, and shorter words come first. So a word is found by reading bits until the
number read is one of those of its length.

## Main definitions

* `BitSource`: bytes that are read bit by bit.
* `PrefixCode`: a code, by the number of words of each length and the symbols in order.
* `inflate?`: the bytes that compressed data stands for.
-/

namespace RadianceTransfer.Picture

/-- Bytes that are read bit by bit. -/
structure BitSource where
  /-- The bytes. -/
  bytes : ByteArray
  /-- How many bits have been read. -/
  position : Nat

namespace BitSource

/-- The next bit. -/
def bit? (s : BitSource) : Option (Nat × BitSource) :=
  match s.bytes[s.position / 8]? with
  | some b => some (b.toNat / twoPow (s.position % 8) % 2, { s with position := s.position + 1 })
  | none => none

/-- The number of the next bits, the low one first. -/
def bits? : (count : Nat) → BitSource → Option (Nat × BitSource)
  | 0, s => some (0, s)
  | count + 1, s => do
    let (b, s) ← s.bit?
    let (n, s) ← bits? count s
    some (b + 2 * n, s)

/-- The source at the start of the next whole byte. -/
def align (s : BitSource) : BitSource :=
  { s with position := (s.position + 7) / 8 * 8 }

end BitSource

/-- A prefix code. -/
structure PrefixCode where
  /-- How many words there are of each length, from one bit up. -/
  counts : List Nat
  /-- The symbols in the order of their words. -/
  symbols : Array Nat

namespace PrefixCode

/-- The longest word of a code. -/
def maxLength : Nat := 15

/-- The code of given lengths of words. A symbol of length zero has none. -/
def ofLengths (lengths : List Nat) : PrefixCode where
  counts := (List.range maxLength).map fun l => lengths.count (l + 1)
  symbols := ((List.range maxLength).flatMap fun l =>
    (lengths.zipIdx.filter fun (n, _) => n == l + 1).map Prod.snd).toArray

/-- Whether every sequence of bits starts with a word of a code: the words of each length take up
their share of all sequences, and together exactly all of them. -/
def isComplete (c : PrefixCode) : Bool :=
  let taken := c.counts.zipIdx.foldl (fun n (count, l) => n + count * twoPow (maxLength - 1 - l)) 0
  taken == twoPow maxLength

/-- Whether a code has no words, or a single one of one bit. -/
def isTrivial (c : PrefixCode) : Bool :=
  c.symbols.isEmpty || (c.symbols.size == 1 && c.counts.head? == some 1)

/-- Reads on in a word, given what has been read of it, the first word of that length and how many
shorter ones there are. -/
def walk? (symbols : Array Nat) : (counts : List Nat) → (read first shorter : Nat) → BitSource →
    Option (Nat × BitSource)
  | [], _, _, _, _ => none
  | count :: counts, read, first, shorter, s => do
    let (b, s) ← s.bit?
    let read := 2 * read + b
    let first := 2 * first
    if read < first + count then
      match symbols[shorter + (read - first)]? with
      | some symbol => some (symbol, s)
      | none => none
    else walk? symbols counts read (first + count) (shorter + count) s

/-- The symbol of the next word. -/
def symbol? (c : PrefixCode) (s : BitSource) : Option (Nat × BitSource) :=
  walk? c.symbols c.counts 0 0 0 s

end PrefixCode

/-- The least length of a repetition for each of its symbols, and how many bits are added to it. -/
def repeatLengths : List (Nat × Nat) :=
  [(3, 0), (4, 0), (5, 0), (6, 0), (7, 0), (8, 0), (9, 0), (10, 0), (11, 1), (13, 1), (15, 1),
    (17, 1), (19, 2), (23, 2), (27, 2), (31, 2), (35, 3), (43, 3), (51, 3), (59, 3), (67, 4),
    (83, 4), (99, 4), (115, 4), (131, 5), (163, 5), (195, 5), (227, 5), (258, 0)]

/-- The least distance of a repetition for each of its symbols, and how many bits are added. -/
def repeatDistances : List (Nat × Nat) :=
  [(1, 0), (2, 0), (3, 0), (4, 0), (5, 1), (7, 1), (9, 2), (13, 2), (17, 3), (25, 3), (33, 4),
    (49, 4), (65, 5), (97, 5), (129, 6), (193, 6), (257, 7), (385, 7), (513, 8), (769, 8),
    (1025, 9), (1537, 9), (2049, 10), (3073, 10), (4097, 11), (6145, 11), (8193, 12), (12289, 12),
    (16385, 13), (24577, 13)]

/-- The number that a symbol of a table and the bits behind it stand for. -/
def extended? (table : List (Nat × Nat)) (symbol : Nat) (s : BitSource) :
    Option (Nat × BitSource) := do
  let (base, extra) ← table[symbol]?
  let (n, s) ← s.bits? extra
  some (base + n, s)

/-- Repeats a number of bytes from some way back, which may be bytes that are repeated already. -/
def repeatBytes (distance : Nat) : (count : Nat) → ByteArray → ByteArray
  | 0, out => out
  | count + 1, out => repeatBytes distance count (out.push ((out[out.size - distance]?).getD 0))

/-- The symbols of a block, added to what is there already. Every step reads at least one bit. -/
def inflateSymbols? (literals distances : PrefixCode) : (steps : Nat) → BitSource → ByteArray →
    Option (ByteArray × BitSource)
  | 0, _, _ => none
  | steps + 1, s, out => do
    let (symbol, s) ← literals.symbol? s
    if symbol < 256 then inflateSymbols? literals distances steps s (out.push symbol.toUInt8)
    else if symbol = 256 then some (out, s)
    else
      let (count, s) ← extended? repeatLengths (symbol - 257) s
      let (symbol, s) ← distances.symbol? s
      let (distance, s) ← extended? repeatDistances symbol s
      if out.size < distance then none
      else inflateSymbols? literals distances steps s (repeatBytes distance count out)

/-- A block of bytes as they are: their number, its complement, and the bytes. -/
def inflateStored? (s : BitSource) (out : ByteArray) : Option (ByteArray × BitSource) := do
  let (count, s) ← s.align.bits? 16
  let (complement, s) ← s.bits? 16
  let start := s.position / 8
  if count + complement ≠ 65535 ∨ s.bytes.size < start + count then none
  else
    some (out ++ s.bytes.extract start (start + count), { s with position := 8 * (start + count) })

/-- The code of literals and repetitions that blocks without one of their own use. -/
def fixedLiterals : PrefixCode :=
  .ofLengths (List.replicate 144 8 ++ List.replicate 112 9 ++ List.replicate 24 7 ++
    List.replicate 8 8)

/-- The code of distances that blocks without one of their own use. -/
def fixedDistances : PrefixCode :=
  .ofLengths (List.replicate 30 5)

/-- The order in which the lengths of the code for lengths are given. -/
def lengthOrder : List Nat :=
  [16, 17, 18, 0, 8, 7, 9, 6, 10, 5, 11, 4, 12, 3, 13, 2, 14, 1, 15]

/-- Reads a number of small numbers of three bits each. -/
def smallNumbers? : (count : Nat) → BitSource → Option (List Nat × BitSource)
  | 0, s => some ([], s)
  | count + 1, s => do
    let (n, s) ← s.bits? 3
    let (ns, s) ← smallNumbers? count s
    some (n :: ns, s)

/-- Reads lengths of words, the last one first, until there are as many as wanted. A symbol is a
length, or says how often the last length or zero is repeated. -/
def codeLengths? (code : PrefixCode) (wanted : Nat) : (steps : Nat) → List Nat → BitSource →
    Option (List Nat × BitSource)
  | 0, _, _ => none
  | steps + 1, found, s =>
    if wanted < found.length then none
    else if found.length = wanted then some (found, s)
    else do
      let (symbol, s) ← code.symbol? s
      if symbol < 16 then codeLengths? code wanted steps (symbol :: found) s
      else if symbol = 16 then
        let (n, s) ← s.bits? 2
        match found with
        | last :: _ => codeLengths? code wanted steps (List.replicate (n + 3) last ++ found) s
        | [] => none
      else if symbol = 17 then
        let (n, s) ← s.bits? 3
        codeLengths? code wanted steps (List.replicate (n + 3) 0 ++ found) s
      else
        let (n, s) ← s.bits? 7
        codeLengths? code wanted steps (List.replicate (n + 11) 0 ++ found) s

/-- The codes in front of a block that has its own. The code for lengths and the one for literals
and repetitions are complete, and the latter has a word for the end of the block. The code for
distances is complete or trivial. -/
def ownCodes? (s : BitSource) : Option ((PrefixCode × PrefixCode) × BitSource) := do
  let (more, s) ← s.bits? 5
  let literalCount := 257 + more
  let (more, s) ← s.bits? 5
  let distanceCount := 1 + more
  let (more, s) ← s.bits? 4
  let (given, s) ← smallNumbers? (4 + more) s
  let order := lengthOrder.zip given
  let length (symbol : Nat) : Nat := ((order.find? fun (k, _) => k == symbol).map Prod.snd).getD 0
  let code := PrefixCode.ofLengths ((List.range 19).map length)
  let wanted := literalCount + distanceCount
  if 286 < literalCount ∨ 30 < distanceCount ∨ !code.isComplete then none
  else
    let (found, s) ← codeLengths? code wanted (wanted + 1) [] s
    let found := found.reverse
    let literals := PrefixCode.ofLengths (found.take literalCount)
    let distances := PrefixCode.ofLengths (found.drop literalCount)
    if !literals.isComplete || found[256]? == some 0 ||
        !(distances.isComplete || distances.isTrivial) then none
    else some ((literals, distances), s)

/-- The blocks of compressed data, added to what is there already. Every block takes at least one
bit. -/
def inflateBlocks? (symbolSteps : Nat) : (steps : Nat) → BitSource → ByteArray →
    Option (ByteArray × BitSource)
  | 0, _, _ => none
  | steps + 1, s, out => do
    let (last, s) ← s.bit?
    let (kind, s) ← s.bits? 2
    let (out, s) ← match kind with
      | 0 => inflateStored? s out
      | 1 => inflateSymbols? fixedLiterals fixedDistances symbolSteps s out
      | 2 => do
        let ((literals, distances), s) ← ownCodes? s
        inflateSymbols? literals distances symbolSteps s out
      | _ => none
    if last = 1 then some (out, s) else inflateBlocks? symbolSteps steps s out

/-- Whether two bytes say that what follows is compressed by blocks, without a dictionary. Together
they are a multiple of 31. -/
def isBlockMethod (method flags : UInt8) : Bool :=
  method % 16 == 8 && method / 16 ≤ 7 && flags &&& 32 == 0 &&
    (256 * method.toNat + flags.toNat) % 31 == 0

/-- The bytes that compressed data stands for. It starts with two bytes about the method, and ends
with a checksum of four, which is not looked at. What follows is no part of it. -/
def inflate? (bytes : ByteArray) : Option ByteArray := do
  let method ← bytes[0]?
  let flags ← bytes[1]?
  if isBlockMethod method flags then
    let steps := 8 * bytes.size + 1
    let (out, s) ← inflateBlocks? steps steps ⟨bytes, 16⟩ ByteArray.empty
    if bytes.size < s.align.position / 8 + 4 then none else some out
  else none

end RadianceTransfer.Picture
