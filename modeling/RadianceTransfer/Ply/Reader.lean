import RadianceTransfer.Number.Count
import RadianceTransfer.Ply.Header
import RadianceTransfer.Storage.Store

/-!
# Reading mesh files

The records of a mesh file follow its header, in the order of the declarations. In text, each record
is a line of numbers; in bytes, the numbers follow each other without gaps. What comes behind the
last record is left out.

## Main definitions

* `wordReader`, `byteReader`: single numbers, in text and in bytes.
* `readTextRecord?`, `readElement`: one record in text, and all records of one kind.
* `Payload.read`: all records of a file.
* `meshOfBytes`, `loadMesh`: the mesh of a file.
-/

namespace RadianceTransfer.Ply

/-- Whether a word is a number: digits after an optional sign, an optional point with digits on both
sides, and an optional exponent with its own sign. -/
def isNumber (cs : List Char) : Bool :=
  let (_, cs) := takeSign cs
  let whole := cs.takeWhile isDigit
  let rest := cs.dropWhile isDigit
  let (fraction, rest) := match rest with
    | '.' :: cs => (some (cs.takeWhile isDigit), cs.dropWhile isDigit)
    | cs => (none, cs)
  !whole.isEmpty && fraction.all (!·.isEmpty) &&
    match rest with
    | [] => true
    | 'e' :: cs =>
      let (_, ds) := takeSign cs
      !ds.isEmpty && ds.all isDigit
    | _ => false

/-- A word as a whole number of a type. Only a signed type takes a minus sign. -/
def readWhole? (t : WholeType) (cs : List Char) : Option t.Number := do
  let (negative, ds) := takeSign cs
  if negative && !t.signed then none
  else
    let n : Int := ← digits? ds
    let n := if negative then -n else n
    if h : t.holds n then some ⟨n, h⟩ else none

/-- A word as a floating-point number of a type. -/
def readReal? (t : RealType) (cs : List Char) : Option t.Number :=
  (NumberToken.read? (String.ofList cs)).map fun token =>
    match t with
    | .single => token.toSingle
    | .double => token.toDouble

/-- Reads a number of things one after the other, handing on what is left. -/
def times (read : σ → Option (β × σ)) : Nat → σ → Option (List β × σ)
  | 0, s => some ([], s)
  | n + 1, s => do
    let (x, s) ← read s
    let (xs, s) ← times read n s
    pure (x :: xs, s)

/-- Reads one thing for each element of a list, handing on what is left. -/
def forEach (read : γ → σ → Option (β × σ)) : List γ → σ → Option (List β × σ)
  | [], s => some ([], s)
  | c :: cs, s => do
    let (x, s) ← read c s
    let (xs, s) ← forEach read cs s
    pure (x :: xs, s)

/-- How single numbers are read, for each type and for counts. -/
structure NumberReader (σ : Type) where
  /-- A whole number. -/
  whole : (t : WholeType) → σ → Option (t.Number × σ)
  /-- A floating-point number. -/
  real : (t : RealType) → σ → Option (t.Number × σ)
  /-- The count of a list, given its type. -/
  count : ScalarType → σ → Option (Nat × σ)

/-- Reads the value of a property. -/
def NumberReader.value (r : NumberReader σ) : PropertyType → σ → Option (Value × σ)
  | .scalar (.whole t), s => (r.whole t s).map fun (n, s) => (.whole t n, s)
  | .scalar (.real t), s => (r.real t s).map fun (x, s) => (.real t x, s)
  | .list c item, s => do
    let (n, s) ← r.count c s
    match item with
    | .whole t =>
      let (ns, s) ← times (r.whole t) n s
      pure (.wholes t ns, s)
    | .real t =>
      let (xs, s) ← times (r.real t) n s
      pure (.reals t xs, s)

/-- Reads a record. -/
def NumberReader.record (r : NumberReader σ) (properties : List (String × PropertyType)) (s : σ) :
    Option (Record × σ) :=
  forEach (fun (name, type) s => (r.value type s).map fun (v, s) => ((name, v), s)) properties s

/-- Takes a word off a line. -/
def nextWord (read : List Char → Option β) : List (List Char) → Option (β × List (List Char))
  | [] => none
  | w :: ws => (read w).map (·, ws)

/-- Numbers as words of a line. A count may have any type. -/
def wordReader : NumberReader (List (List Char)) where
  whole t := nextWord (readWhole? t)
  real t := nextWord (readReal? t)
  count _ := nextWord fun cs => match readCount (String.ofList cs) with
    | .ok n => some n
    | .error _ => none

/-- Reads a record in text. All words of its line have to be numbers, and words that are left over
do no harm. -/
def readTextRecord? (properties : List (String × PropertyType)) (bs : List UInt8) :
    Option (Record × List UInt8) := do
  let (line, rest) := takeLine bs
  let words := spaceWords (← lineText? line)
  if words.all isNumber then
    let (record, _) ← wordReader.record properties words
    pure (record, rest)
  else none

/-- The number of some bytes, the high ones first. -/
def bytesValue (bs : List UInt8) : Nat :=
  bs.foldl (fun n b => 256 * n + b.toNat) 0

/-- Takes the number of a given count of bytes off the front. -/
def takeBytes (bigEndian : Bool) (n : Nat) (bs : List UInt8) : Option (Nat × List UInt8) :=
  let front := bs.take n
  if front.length < n then none
  else some (bytesValue (if bigEndian then front else front.reverse), bs.drop n)

/-- Some bits as a number of a type, whose word holds the low ones of them. -/
def WholeType.wrap (t : WholeType) (n : Nat) : Int :=
  if t.signed then (n : Int).bmod (twoPow (8 * t.bytes)) else (n % twoPow (8 * t.bytes) : Nat)

theorem WholeType.holds_wrap (t : WholeType) (n : Nat) : t.holds (t.wrap n) := by
  have hpos : 0 < twoPow (8 * t.bytes) := Nat.two_pow_pos _
  have hhalf : twoPow (8 * t.bytes) = 2 * twoPow (8 * t.bytes - 1) := by cases t <;> rfl
  rw [holds, wrap]
  cases t.signed with
  | false => exact decide_eq_true ⟨Int.natCast_nonneg _, Nat.mod_lt n hpos⟩
  | true =>
    have hlower := Int.le_bmod (x := n) hpos
    have hupper := Int.bmod_lt (x := n) hpos
    simp only [if_true, decide_eq_true_eq]
    omega

/-- The whole number of a type that some bits stand for. -/
def WholeType.ofBits (t : WholeType) (n : Nat) : t.Number :=
  ⟨t.wrap n, t.holds_wrap n⟩

/-- The floating-point number of a type that some bits stand for. -/
def RealType.ofBits : (t : RealType) → Nat → t.Number
  | .single, n => Float32.ofBits n.toUInt32
  | .double, n => Float.ofBits n.toUInt64

/-- Numbers as bytes. The count of a list is a whole number and not negative. -/
def byteReader (bigEndian : Bool) : NumberReader (List UInt8) where
  whole t bs := (takeBytes bigEndian t.bytes bs).map fun (n, bs) => (t.ofBits n, bs)
  real t bs := (takeBytes bigEndian t.bytes bs).map fun (n, bs) => (t.ofBits n, bs)
  count
    | .real _, _ => none
    | .whole t, bs => do
      let (n, bs) ← takeBytes bigEndian t.bytes bs
      let count := (t.ofBits n).val
      if count < 0 then none else some (count.toNat, bs)

/-- Reads the records of one kind. -/
def readElement (encoding : Encoding) (e : Element) (bs : List UInt8) :
    Option ((String × List Record) × List UInt8) := do
  let read := match encoding with
    | .text => readTextRecord? e.properties
    | .littleEndian => (byteReader false).record e.properties
    | .bigEndian => (byteReader true).record e.properties
  let (records, bs) ← times read e.count bs
  pure ((e.name, records), bs)

/-- The records of a file. -/
def Payload.read (bs : List UInt8) : Outcome Payload := do
  let (header, bs) ← Header.read bs
  match forEach (readElement header.encoding) header.elements bs with
  | some (payload, _) => pure payload
  | none => report .malformedMesh

/-- The mesh of the bytes of a file. -/
def meshOfBytes (bytes : ByteArray) : Outcome (Mesh Float) := do
  let payload ← Payload.read bytes.toList
  payload.toMesh

/-- The mesh of a file. A folder can be opened, but nothing can be read of it. -/
def loadMesh [FileStore σ Float] (s : σ) (path : String) : Outcome (Mesh Float) :=
  match FileStore.read Float s path with
  | .error .isFolder => report (.loadMesh path .malformedMesh)
  | .error e => report (.openMesh path e)
  | .ok bytes =>
    match meshOfBytes bytes with
    | .error (.reported e) => report (.loadMesh path e)
    | o => o

end RadianceTransfer.Ply
