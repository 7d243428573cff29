import HalfBinary.Named
import HalfBinary.Toml.Grammar

/-!
# Assembling documents

Sections become one tree of tables. What a key may add to depends on how each table on its way came
about, so that no table is defined twice and no value changed.
-/

namespace HalfBinary.Toml

/-- How a table came about. -/
inductive Origin where
  /-- By a header of its own, or as the document. -/
  | header
  /-- On the way of a header. -/
  | implied
  /-- On the way of a dotted key. -/
  | dotted
  /-- Between braces, and complete. -/
  | inline
  deriving DecidableEq, Repr

/-- A value of an assembled document. The names in a table are distinct; the entries that were added
last come first. -/
inductive Node where
  | scalar (value : Scalar)
  | array (items : List Node)
  | table (origin : Origin) (entries : List (String × Node))
  /-- An array of tables, of which the last is still open; those before it are in reverse order. -/
  | tables (last : List (String × Node)) (earlier : List (List (String × Node)))
  deriving Repr

abbrev Entries := List (String × Node)

namespace Entries

/-- Assigns a value to a dotted key. The tables on its way must be open to dotted keys, as the last
table of an array is, and the one that takes the value must have come about by them, unless it is
the table at the start. -/
def assign (last : String) (node : Node) : List String → Entries → Except Fault Entries
  | [], entries =>
    if entries.any (·.1 == last) then .error (.redefined last) else .ok ((last, node) :: entries)
  | name :: path, entries =>
    match entries.lookup name with
    | none => do return (name, .table .dotted (← assign last node path [])) :: entries
    | some (.table origin inner) =>
      if origin = .dotted ∨ (origin = .implied ∧ path ≠ []) then
        do return Named.put entries name (.table origin (← assign last node path inner))
      else .error (.redefined name)
    | some (.tables inner earlier) =>
      if path = [] then .error (.redefined name)
      else do return Named.put entries name (.tables (← assign last node path inner) earlier)
    | some _ => .error (.redefined name)

/-- Changes what a header names, on a way through tables that are not complete and the last tables
of arrays. -/
def define (last : String) (change : Option Node → Except Fault Node) :
    List String → Entries → Except Fault Entries
  | [], entries =>
    match entries.lookup last with
    | none => do return (last, ← change none) :: entries
    | some node => do return Named.put entries last (← change (some node))
  | name :: path, entries =>
    match entries.lookup name with
    | none => do return (name, .table .implied (← define last change path [])) :: entries
    | some (.table origin inner) =>
      if origin = .inline then .error (.redefined name)
      else do return Named.put entries name (.table origin (← define last change path inner))
    | some (.tables inner earlier) => do
      return Named.put entries name (.tables (← define last change path inner) earlier)
    | some _ => .error (.redefined name)

end Entries

mutual

def Node.ofExpression : Expression → Except Fault Node
  | .scalar value => .ok (.scalar value)
  | .array items => do return .array (← ofItems items)
  | .inlineTable entries => do return .table .inline (← ofEntries [] entries)

def Node.ofItems : List Expression → Except Fault (List Node)
  | [] => .ok []
  | item :: items => do
    let first ← ofExpression item
    return first :: (← ofItems items)

/-- Adds assignments to a table. -/
def Node.ofEntries (table : Entries) : List (Key × Expression) → Except Fault Entries
  | [] => .ok table
  | (key, value) :: entries => do
    ofEntries (← table.assign key.last (← ofExpression value) key.path) entries

end

/-- Adds a section to a document. A table may be defined once, also where headers have led through
it before; an array of tables gets one more. -/
def Section.addTo (document : Entries) (s : Section) : Except Fault Entries :=
  match s.header with
  | none => Node.ofEntries document s.assignments
  | some (.table key) =>
    document.define key.last (fun
      | none => do return .table .header (← Node.ofEntries [] s.assignments)
      | some (.table .implied entries) => do
        return .table .header (← Node.ofEntries entries s.assignments)
      | some _ => .error (.redefined key.last)) key.path
  | some (.element key) =>
    document.define key.last (fun
      | none => do return .tables (← Node.ofEntries [] s.assignments) []
      | some (.tables last earlier) => do
        return .tables (← Node.ofEntries [] s.assignments) (last :: earlier)
      | some _ => .error (.redefined key.last)) key.path

def read (document : String) : Except Fault Entries := do
  (← sections document).foldlM Section.addTo []

end HalfBinary.Toml
