import HalfBinary.Text.Digits

/-!
# Configuration documents

The parts of a TOML document: tokens, values as they are written, and sections of assignments.
-/

namespace HalfBinary.Toml

inductive Fault where
  | unexpectedEnd
  | unexpected (found : String)
  | controlCharacter (c : Char)
  | unterminatedText
  | invalidEscape
  | invalidValue (written : String)
  | tooDeep
  | redefined (key : String)
  deriving DecidableEq, Repr

def Fault.message : Fault → String
  | unexpectedEnd => "unexpected end of document"
  | unexpected found => s!"unexpected {found}"
  | controlCharacter c => s!"control character {c.toNat}"
  | unterminatedText => "unterminated string"
  | invalidEscape => "invalid escape"
  | invalidValue written => s!"invalid value {written}"
  | tooDeep => "nesting too deep"
  | redefined key => s!"key {key} cannot be defined here"

/-- A token of a document. Comments are dropped. -/
inductive Token where
  | openBracket
  | closeBracket
  | openBrace
  | closeBrace
  | comma
  | equals
  | dot
  | blank (characters : List Char)
  | newline
  /-- A quoted text, on one line or several. -/
  | text (value : String) (multiline : Bool)
  /-- Other characters: a bare key or a part of a value. -/
  | atom (characters : List Char)
  deriving DecidableEq, Repr

def Token.render : Token → String
  | openBracket => "`[`"
  | closeBracket => "`]`"
  | openBrace => "`\x7b`"
  | closeBrace => "`\x7d`"
  | comma => "`,`"
  | equals => "`=`"
  | dot => "`.`"
  | blank _ => "blank"
  | newline => "end of line"
  | text .. => "string"
  | atom characters => "`" ++ String.ofList characters ++ "`"

/-- The fault that the next token, or the end, does not continue a document. -/
def Fault.at : List Token → Fault
  | [] => unexpectedEnd
  | t :: _ => unexpected t.render

/-- A value that is not made of others. -/
inductive Scalar where
  | text (value : String)
  | whole (value : Int)
  /-- A number with a fraction or a power of ten, or a special one. -/
  | real
  | flag (value : Bool)
  /-- A date, a time of day or both, as it is written. -/
  | moment (written : String)
  deriving DecidableEq, Repr

/-- A dotted key: the tables it leads through, and its last name. -/
structure Key where
  path : List String
  last : String
  deriving DecidableEq, Repr

inductive Expression where
  | scalar (value : Scalar)
  | array (items : List Expression)
  | inlineTable (entries : List (Key × Expression))
  deriving Repr

/-- The line in brackets that opens a section. -/
inductive Header where
  | table (key : Key)
  /-- One more element of an array of tables. -/
  | element (key : Key)
  deriving DecidableEq, Repr

/-- The assignments under a header; those before the first header have none. -/
structure Section where
  header : Option Header
  assignments : List (Key × Expression)
  deriving Repr

end HalfBinary.Toml
