/-!
# Options

What can be set for a snapshot, and what may be wrong with the settings.
-/

namespace Linkage

/-- How many superclass links a single walk follows unless something else is set. Real
hierarchies are hardly ever deeper than twenty; a walk that gets this far is most likely caught
in a cycle. -/
def defaultMaxDepth : UInt32 := 256

/-- The settings of a snapshot. -/
structure Options where
  maxDepth : UInt32 := defaultMaxDepth
  queryTracing : Bool := true
deriving DecidableEq, Repr

instance : Inhabited Options := ⟨{}⟩

end Linkage
