import HalfBinary.ClauseError

/-!
# Limits

Bounds on the clauses that are compiled.
-/

namespace HalfBinary

/-- The largest size, parenthesis depth and number of comparisons of a clause. -/
structure Limits where
  maxClauseBytes : Nat := 65536
  maxNesting : Nat := 32
  maxComparisons : Nat := 256
  deriving DecidableEq, Repr

def Limits.checkSize (limits : Limits) (clause : String) : Except ClauseError Unit :=
  if limits.maxClauseBytes < clause.utf8ByteSize then
    .error (.inputTooLarge limits.maxClauseBytes clause.utf8ByteSize)
  else .ok ()

theorem Limits.checkSize_eq_ok_iff {limits : Limits} {clause : String} {u : Unit} :
    limits.checkSize clause = .ok u ↔ clause.utf8ByteSize ≤ limits.maxClauseBytes := by
  by_cases large : limits.maxClauseBytes < clause.utf8ByteSize
  · simp [checkSize, large]
  · simp [checkSize, large, Nat.not_lt.1 large]

end HalfBinary
