import HalfBinary.Accessor
import HalfBinary.Constraint

/-!
# Parsed clauses
-/

namespace HalfBinary

/-- A clause: its constraint and the one accessor of all its comparisons. -/
structure Clause where
  accessor : ResolvedAccessor
  root : Constraint

end HalfBinary
