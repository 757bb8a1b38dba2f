import RadianceTransfer.Failure
import RadianceTransfer.Number.Word

/-!
# Room for tables

The scalars of a table lie one behind the other in memory, eight bytes each, and no piece of memory
has more bytes than a signed word of 64 bits can count. Whoever asks for a table checks first that
there can be one of that size. The check comes before any scalar is computed.
-/

namespace RadianceTransfer

/-- The bytes of a scalar in a table. -/
def scalarBytes : Nat :=
  8

/-- Whether there can be a table of a number of scalars. -/
abbrev HasRoom (scalars : Nat) : Prop :=
  FitsSigned 64 (scalars * scalarBytes : Nat)

/-- Requires that there can be a table of a number of scalars. -/
def requireRoom (scalars : Nat) : Outcome Unit :=
  if HasRoom scalars then .ok () else violate .capacity

end RadianceTransfer
