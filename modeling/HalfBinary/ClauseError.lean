import HalfBinary.Operator

/-!
# Clause errors

Every way in which a clause fails to compile, with the position that is at fault if there is one.
-/

namespace HalfBinary

/-- Why characters form no token. -/
inductive LexFault where
  | unknownSymbol (symbol : Char)
  | unterminatedString
  | invalidEscape (escaped : Char)
  | invalidNumber (lexeme : String)
  | emptyPathSegment
  | incompleteOperator (expected : String)
  deriving DecidableEq, Repr

def LexFault.message : LexFault → String
  | unknownSymbol symbol => s!"unknown symbol `{symbol}`"
  | unterminatedString => "unterminated string literal"
  | invalidEscape escaped => s!"invalid escape `\\{escaped}`"
  | invalidNumber lexeme => s!"invalid number `{lexeme}`"
  | emptyPathSegment => "empty path segment"
  | incompleteOperator expected => s!"incomplete operator, expected `{expected}`"

/-- Why a clause does not compile. -/
inductive ClauseError where
  | emptyExpression
  | inputTooLarge (maxBytes actualBytes : Nat)
  | lex (fault : LexFault) (offset : Nat)
  | unexpectedToken (expected found : String) (offset : Nat)
  | unmatchedParen (offset : Nat)
  | danglingOperator (op : Operator) (offset : Nat)
  | nestingTooDeep (maxDepth actualDepth offset : Nat)
  | tooManyComparisons (maxComparisons offset : Nat)
  | unknownType (name : String)
  | unknownProperty (typeName segment : String)
  | accessorConflict (bound found : String) (offset : Nat)
  | incomparableTypes (op : Operator) (valueType literalType : String)
  | invalidLiteral (literal expected : String) (offset : Nat)
  deriving DecidableEq, Repr

namespace ClauseError

/-- A label that holds no text of the clause. -/
def kind : ClauseError → String
  | emptyExpression => "empty_expression"
  | inputTooLarge .. => "input_too_large"
  | lex .. => "lex_error"
  | unexpectedToken .. => "unexpected_token"
  | unmatchedParen .. => "unmatched_paren"
  | danglingOperator .. => "dangling_operator"
  | nestingTooDeep .. => "nesting_too_deep"
  | tooManyComparisons .. => "too_many_comparisons"
  | unknownType .. => "unknown_type"
  | unknownProperty .. => "unknown_property"
  | accessorConflict .. => "accessor_conflict"
  | incomparableTypes .. => "incomparable_types"
  | invalidLiteral .. => "invalid_literal"

/-- The byte position at fault. -/
def offset? : ClauseError → Option Nat
  | lex _ offset | unexpectedToken _ _ offset | unmatchedParen offset
  | danglingOperator _ offset | nestingTooDeep _ _ offset | tooManyComparisons _ offset
  | accessorConflict _ _ offset | invalidLiteral _ _ offset => some offset
  | emptyExpression | inputTooLarge .. | unknownType _ | unknownProperty ..
  | incomparableTypes .. => none

def message : ClauseError → String
  | emptyExpression => "clause is empty"
  | inputTooLarge maxBytes actualBytes =>
    s!"clause exceeds size limit: {actualBytes} bytes (max {maxBytes})"
  | lex fault offset => s!"malformed token at {offset}: {fault.message}"
  | unexpectedToken expected found offset =>
    s!"unexpected token `{found}` at {offset}, expected {expected}"
  | unmatchedParen offset => s!"unmatched parenthesis at {offset}"
  | danglingOperator op offset => s!"operator `{op.symbol}` at {offset} has no literal operand"
  | nestingTooDeep maxDepth actualDepth offset =>
    s!"clause nesting exceeds limit: depth {actualDepth} (max {maxDepth}) at {offset}"
  | tooManyComparisons maxComparisons offset =>
    s!"clause exceeds comparison limit of {maxComparisons} at {offset}"
  | unknownType name => s!"unknown type `{name}`"
  | unknownProperty typeName segment => s!"type `{typeName}` has no property `{segment}`"
  | accessorConflict bound found offset =>
    s!"accessor `{found}` at {offset} conflicts with clause accessor `{bound}`"
  | incomparableTypes op valueType literalType =>
    s!"operator `{op.symbol}` cannot order `{valueType}` against `{literalType}`"
  | invalidLiteral literal expected offset =>
    s!"literal `{literal}` at {offset} is not a valid {expected}"

end ClauseError

/-- A step succeeds after another if both do. -/
theorem bind_eq_ok_iff {x : Except ε α} {f : α → Except ε β} {b : β} :
    x >>= f = .ok b ↔ ∃ a, x = .ok a ∧ f a = .ok b := by
  cases x with
  | error e => simp [bind, Except.bind]
  | ok a => simp [bind, Except.bind]

/-- A step fails after another if the first fails, or succeeds and the second fails. -/
theorem bind_eq_error_iff {x : Except ε α} {f : α → Except ε β} {e : ε} :
    x >>= f = .error e ↔ x = .error e ∨ ∃ a, x = .ok a ∧ f a = .error e := by
  cases x with
  | error e => simp [bind, Except.bind]
  | ok a => simp [bind, Except.bind]

end HalfBinary
