import RadianceTransfer.Scalar

/-!
# Random numbers

A generator is a state from which numbers of `[0, 1)` are drawn one after the other. Each task has
a generator of its own, made from the seed of the run and the number of a stream, so what a task
draws does not depend on what other tasks do.

## Main definitions

* `Generator`: a state that can be drawn from.
* `Pcg`: a linear congruential state of 64 bits with permuted output.
-/

namespace RadianceTransfer

/-- A state from which scalars of `[0, 1)` are drawn. -/
class Generator (γ : Type) (α : Type) where
  /-- The next number and the state after it. -/
  next : γ → α × γ

/-- A linear congruential generator with an odd increment. The increment selects the stream. -/
structure Pcg where
  /-- The current state. -/
  state : UInt64
  /-- What is added in each step. -/
  increment : UInt64
  deriving DecidableEq

namespace Pcg

/-- The factor of the congruence. -/
def multiplier : UInt64 := 6364136223846793005

/-- The increment of a stream. -/
def streamIncrement (stream : UInt64) : UInt64 :=
  (stream <<< 1) ||| 1

/-- The generator of a seed and a stream. -/
def ofSeed (seed stream : UInt64) : Pcg :=
  let increment := streamIncrement stream
  ⟨(seed + increment) * multiplier + increment, increment⟩

/-- A word rotated to the right. -/
@[inline] def rotateRight (x r : UInt32) : UInt32 :=
  (x >>> r) ||| (x <<< ((32 - r) % 32))

/-- The next word: the upper half of the state is folded and rotated by its top five bits. -/
@[inline] def nextWord (g : Pcg) : UInt32 × Pcg :=
  let s := g.state
  let folded := (((s >>> 18) ^^^ s) >>> 27).toUInt32
  (rotateRight folded (s >>> 59).toUInt32, { g with state := s * multiplier + g.increment })

/-- The next two words as one, the first one being the lower half. -/
@[inline] def nextLong (g : Pcg) : UInt64 × Pcg :=
  let (low, g) := g.nextWord
  let (high, g) := g.nextWord
  ((high.toUInt64 <<< 32) ||| low.toUInt64, g)

/-- The upper 53 bits of a double word over `2 ^ 53`. -/
@[inline] def nextUnit [Scalar α] (g : Pcg) : α × Pcg :=
  let (n, g) := g.nextLong
  (Scalar.ofNat (n >>> 11).toNat / Scalar.ofNat (twoPow 53), g)

/-- Drawing from a congruential generator. -/
@[inline] instance [Scalar α] : Generator Pcg α where
  next := nextUnit

end Pcg

end RadianceTransfer
