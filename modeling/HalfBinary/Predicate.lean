import HalfBinary.Clause.Parser
import HalfBinary.Condition
import HalfBinary.Digest

/-!
# Predicates

A compiled clause: what it reads of a fact, and the condition that this value has to meet.
-/

namespace HalfBinary

/-- A clause ready to be evaluated. -/
structure Predicate where
  /-- The text of the clause as it was written. -/
  source : String
  accessor : ResolvedAccessor
  tree : Constraint
  condition : Condition

namespace Predicate

def digest (p : Predicate) : Digest := .ofText p.source

def leafCount (p : Predicate) : Nat := p.tree.comparisonCount

/-- The normalized text: the accessor once, then the constraint, in parentheses if it is a chain. -/
def render (p : Predicate) : String :=
  match p.tree with
  | .leaf c => p.accessor.path.render ++ " " ++ c.render
  | .chain .. => p.accessor.path.render ++ " (" ++ p.tree.render ++ ")"

def evaluate (p : Predicate) (fact : Json) : Bool := p.condition.holds (p.accessor.read fact)

/-- Resolves the comparisons of a parsed clause. -/
def ofClause (clause : Clause) (source : String) : Except ClauseError Predicate := do
  let condition ← Condition.bind clause.accessor.valueType clause.root
  return ⟨source, clause.accessor, clause.root, condition⟩

/-- Compiles a clause for a subject type. -/
def compile (registry : Registry) (subject : String) (limits : Limits) (source : String) :
    Except ClauseError Predicate := do
  ofClause (← Clause.parse registry subject limits source) source

end Predicate

end HalfBinary
