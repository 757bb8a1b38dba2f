import RadianceTransfer.Sampling.Generator

/-!
# Streams

Every task that draws random numbers has a stream of its own. The number of a stream encodes the
pass, the mesh and the vertex in one word.
-/

namespace RadianceTransfer

/-- The passes over the vertices. No two passes over a vertex may draw the same numbers. -/
inductive Pass where
  /-- The direct transport. -/
  | direct
  /-- A level of interreflection. -/
  | bounce (depth : UInt32)
  deriving DecidableEq

/-- The number of a pass: the levels of interreflection follow the direct transport. -/
def Pass.number : Pass → UInt64
  | .direct => 0
  | .bounce depth => 1 + depth.toUInt64

/-- The stream of a vertex in a pass: the number of the pass in the upper bits, then sixteen bits
of the mesh, then the vertex. -/
def streamId (pass : Pass) (mesh vertex : UInt32) : UInt64 :=
  (pass.number <<< 48) ||| ((mesh.toUInt64 &&& 0xffff) <<< 32) ||| vertex.toUInt64

end RadianceTransfer
