import HalfBinary.Literal
import HalfBinary.Operator

/-!
# Constraints

Comparisons of one accessed value, joined by chains of `&&` and `||`. The text of a constraint
needs no accessor: every comparison is of the same value.
-/

namespace HalfBinary

/-- A comparison with a literal, and the byte position of its operator. -/
structure Comparison where
  operator : Operator
  literal : Literal
  offset : Nat
  deriving DecidableEq, Repr

/-- The characters of a comparison as clause text. -/
def Comparison.chars (c : Comparison) : List Char :=
  c.operator.symbol.toList ++ ' ' :: c.literal.chars

def Comparison.render (c : Comparison) : String := String.ofList c.chars

/-- A tree of comparisons. The parts of a chain are in the order of the clause, which is also the
order in which they are tested. -/
inductive Constraint where
  | leaf (comparison : Comparison)
  | chain (connective : Connective) (parts : List Constraint)
  deriving Repr

namespace Constraint

/-- Joins parts; a single part stands for itself. -/
def join (connective : Connective) : List Constraint → Constraint
  | [part] => part
  | parts => chain connective parts

mutual

/-- The comparisons from left to right. -/
def comparisons : Constraint → List Comparison
  | leaf c => [c]
  | chain _ parts => comparisonsAll parts

def comparisonsAll : List Constraint → List Comparison
  | [] => []
  | part :: parts => comparisons part ++ comparisonsAll parts

end

mutual

def comparisonCount : Constraint → Nat
  | leaf _ => 1
  | chain _ parts => comparisonCountAll parts

def comparisonCountAll : List Constraint → Nat
  | [] => 0
  | part :: parts => comparisonCount part + comparisonCountAll parts

end

mutual

/-- The height of the tree; a comparison has height one. -/
def depth : Constraint → Nat
  | leaf _ => 1
  | chain _ parts => 1 + depthAll parts

def depthAll : List Constraint → Nat
  | [] => 0
  | part :: parts => max (depth part) (depthAll parts)

end

mutual

/-- The characters of a constraint, without parentheses around it. -/
def chars : Constraint → List Char
  | leaf c => c.chars
  | chain connective parts =>
    (' ' :: connective.symbol.toList ++ [' ']).intercalate (charsOfParts parts)

/-- The characters of each part of a chain; a chain among them stands in parentheses. -/
def charsOfParts : List Constraint → List (List Char)
  | [] => []
  | leaf c :: parts => c.chars :: charsOfParts parts
  | chain connective inner :: parts =>
    ('(' :: chars (chain connective inner) ++ [')']) :: charsOfParts parts

end

/-- A constraint as clause text without its accessor. -/
def render (t : Constraint) : String := String.ofList t.chars

mutual

/-- The count is that of the listed comparisons. -/
theorem comparisonCount_eq : (t : Constraint) → t.comparisonCount = t.comparisons.length
  | leaf _ => rfl
  | chain _ parts => by
    rw [comparisonCount, comparisons]; exact comparisonCountAll_eq parts

private theorem comparisonCountAll_eq :
    (parts : List Constraint) → comparisonCountAll parts = (comparisonsAll parts).length
  | [] => rfl
  | part :: parts => by
    rw [comparisonCountAll, comparisonsAll, List.length_append, comparisonCount_eq part,
      comparisonCountAll_eq parts]

end

end Constraint

end HalfBinary
