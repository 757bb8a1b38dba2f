import Mathlib
import RadianceTransfer.Color
import RadianceTransfer.Proofs.Field

/-!
# Colors channel by channel

A color is determined by its channels. In exact arithmetic sums and multiples of colors are those of
the channels, so an equation between colors is one between numbers.
-/

namespace RadianceTransfer

variable {K : Type}

theorem Color.ext_get {c d : Color K} (h : ∀ k, c.get k = d.get k) : c = d :=
  Color.ext (h .red) (h .green) (h .blue)

section

variable [Field K]

theorem get_add (c d : Color K) (k : Channel) : (c + d).get k = c.get k + d.get k := by
  cases k <;> rfl

theorem get_scale (c : Color K) (s : K) (k : Channel) : (c.scale s).get k = c.get k * s := by
  cases k <;> rfl

end

variable [Field K] [LinearOrder K] [FloorSemiring K] [FieldFunctions K]

theorem get_black (k : Channel) : (Color.black : Color K).get k = 0 := by
  cases k <;> exact FieldFunctions.zero_eq

theorem scale_black (s : K) : (Color.black : Color K).scale s = .black := by
  rw [Color.black, FieldFunctions.zero_eq]
  exact Color.ext (zero_mul s) (zero_mul s) (zero_mul s)

end RadianceTransfer
