import SourceTally.Path.Basic
import SourceTally.Path.Glob

/-!
# Filters

A filter lets a path through that no excluding pattern matches and some including pattern does; a
filter without including patterns includes everything.
-/

namespace SourceTally

/-- Patterns of the paths to take and of those to leave. -/
structure Filter where
  included : List Glob := []
  excluded : List Glob := []
  deriving DecidableEq, Repr

namespace Filter

/-- The filter lets paths of the given text through. -/
def admits (f : Filter) (text : String) : Bool :=
  !f.excluded.any (·.accepts text) && (f.included.isEmpty || f.included.any (·.accepts text))

/-- The filter lets the path through. -/
def accepts (f : Filter) (p : Path) : Bool :=
  f.admits p.text

end Filter

end SourceTally
