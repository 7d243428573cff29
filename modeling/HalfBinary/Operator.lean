/-!
# Operators and connectives

The six comparison operators of a clause, the orderings each accepts, and the two connectives.
-/

namespace HalfBinary

/-- What a comparison asks of the accessed value and its literal. -/
inductive Operator where
  | eq | ne | lt | le | gt | ge
  deriving DecidableEq, Repr

namespace Operator

def all : List Operator := [eq, ne, lt, le, gt, ge]

def symbol : Operator → String
  | eq => "==" | ne => "!=" | lt => "<" | le => "<=" | gt => ">" | ge => ">="

def name : Operator → String
  | eq => "eq" | ne => "ne" | lt => "lt" | le => "le" | gt => "gt" | ge => "ge"

def ofName? (name : String) : Option Operator := all.find? (·.name == name)

/-- Whether the operator needs an order; equality is enough for the other two. -/
def requiresOrdering : Operator → Bool
  | eq | ne => false
  | lt | le | gt | ge => true

/-- Whether `left op right` holds of two values that compare as given. -/
def accepts : Operator → Ordering → Bool
  | eq, o => o.isEq
  | ne, o => o.isNe
  | lt, o => o.isLT
  | le, o => o.isLE
  | gt, o => o.isGT
  | ge, o => o.isGE

theorem ofName?_name (op : Operator) : ofName? op.name = some op := by cases op <;> decide

end Operator

/-- How the parts of a chain are joined. -/
inductive Connective where
  | and | or
  deriving DecidableEq, Repr

namespace Connective

def symbol : Connective → String
  | and => "&&" | or => "||"

def name : Connective → String
  | and => "and" | or => "or"

def ofName? (name : String) : Option Connective := [and, or].find? (·.name == name)

end Connective

end HalfBinary
