import HalfBinary.Literal
import HalfBinary.Operator

/-!
# Tokens

The words of a clause, each with the byte position where it starts.
-/

namespace HalfBinary

inductive Token where
  /-- A property path, one segment per identifier. -/
  | accessor (segments : List String)
  | operator (op : Operator)
  | connective (c : Connective)
  | openParen
  | closeParen
  | literal (value : Literal)
  deriving DecidableEq, Repr

/-- The text of a token: the source text of all but literals, which are rendered anew. -/
def Token.render : Token → String
  | accessor segments => ".".intercalate segments
  | operator op => op.symbol
  | connective c => c.symbol
  | openParen => "("
  | closeParen => ")"
  | literal value => value.render

structure Located where
  token : Token
  offset : Nat
  deriving DecidableEq, Repr

/-- The tokens of a clause in order, and the position of its end. -/
structure TokenStream where
  tokens : List Located
  stop : Nat
  deriving DecidableEq, Repr

/-- How the end of a clause is named in diagnostics. -/
def endOfInput : String := "end of input"

end HalfBinary
