import HalfBinary.Comparator

/-!
# Conditions

Constraints whose comparisons have been resolved against the type of the constrained value.
-/

namespace HalfBinary

inductive Condition where
  | leaf (comparator : Comparator)
  | chain (connective : Connective) (parts : List Condition)
  deriving Repr

namespace Condition

mutual

/-- Resolves every comparison of a constraint from left to right; the first that has no comparator
is at fault. -/
def bind (valueType : TypeDescriptor) : Constraint → Except ClauseError Condition
  | .leaf c => do return leaf (← Comparator.resolve valueType c)
  | .chain connective parts => do return chain connective (← bindAll valueType parts)

def bindAll (valueType : TypeDescriptor) : List Constraint → Except ClauseError (List Condition)
  | [] => .ok []
  | part :: parts => do
    let first ← bind valueType part
    return first :: (← bindAll valueType parts)

end

mutual

/-- Whether a value meets the condition. -/
def holds (value : Json) : Condition → Bool
  | leaf c => c.test value
  | chain .and parts => allHold value parts
  | chain .or parts => anyHolds value parts

/-- Whether a value meets all conditions; the first that it does not decides. -/
def allHold (value : Json) : List Condition → Bool
  | [] => true
  | part :: parts => holds value part && allHold value parts

/-- Whether a value meets one of the conditions; the first that it does decides. -/
def anyHolds (value : Json) : List Condition → Bool
  | [] => false
  | part :: parts => holds value part || anyHolds value parts

end

end Condition

end HalfBinary
