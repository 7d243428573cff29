import HalfBinary.Json
import HalfBinary.Toml.Document

/-!
# Settings

The values of a configuration, whether it is written in TOML or in JSON.
-/

namespace HalfBinary

/-- A written value of a configuration. -/
inductive Setting where
  | null
  | flag (value : Bool)
  | whole (value : Int)
  | text (value : String)
  | list (items : List Setting)
  | table (entries : List (String × Setting))
  /-- A number that is not whole. -/
  | real
  deriving Inhabited, Repr

namespace Setting

/-- The name under which the text of a date or time stands in a table of its own. -/
def momentName : String := "$__toml_private_datetime"

/-- The setting of an unquoted or quoted value. -/
def ofScalar : Toml.Scalar → Setting
  | .text value => text value
  | .whole value => whole value
  | .real => real
  | .flag value => flag value
  | .moment written => table [(momentName, text written)]

mutual

def ofNode : Toml.Node → Setting
  | .scalar value => ofScalar value
  | .array items => list (ofNodes items)
  | .table _ entries => table (ofEntries entries)
  | .tables last earlier => list (table (ofEntries last) :: ofTables earlier).reverse

def ofNodes : List Toml.Node → List Setting
  | [] => []
  | item :: items => ofNode item :: ofNodes items

def ofEntries : List (String × Toml.Node) → List (String × Setting)
  | [] => []
  | (name, node) :: entries => (name, ofNode node) :: ofEntries entries

def ofTables : List (List (String × Toml.Node)) → List Setting
  | [] => []
  | entries :: tables => table (ofEntries entries) :: ofTables tables

end

mutual

def ofJson : Json → Setting
  | .null => null
  | .boolean value => flag value
  | .number (.whole value) => whole value
  | .number (.double _) => real
  | .text value => text value
  | .array items => list (ofJsonItems items)
  | .object fields => table (ofJsonFields fields)

def ofJsonItems : List Json → List Setting
  | [] => []
  | item :: items => ofJson item :: ofJsonItems items

def ofJsonFields : List (String × Json) → List (String × Setting)
  | [] => []
  | (name, value) :: fields => (name, ofJson value) :: ofJsonFields fields

end

end Setting

end HalfBinary
