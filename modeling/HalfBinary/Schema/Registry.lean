import HalfBinary.Schema
import HalfBinary.ClauseError

/-!
# Type registries

Named types in the order of their names' bytes. A registry is valid if every property of its types
leads to one of them.
-/

namespace HalfBinary

/-- Shapes by type name. -/
structure Registry where
  shapes : Std.TreeMap String Shape

namespace Registry

def empty : Registry := ⟨∅⟩

/-- The names and kinds of the built-in types. -/
def builtinScalars : List (String × ScalarKind) :=
  [("Integer", .integer), ("Long", .integer), ("Short", .integer), ("Byte", .integer),
    ("Double", .decimal), ("Float", .decimal), ("BigDecimal", .decimal), ("String", .text),
    ("Boolean", .boolean), ("LocalDate", .date), ("OffsetDateTime", .dateTime)]

/-- Whether a name is that of a built-in type. -/
def isBuiltin (name : String) : Bool := builtinScalars.any (·.1 == name)

/-- Adds a type, in place of one of the same name. -/
def register (r : Registry) (d : TypeDescriptor) : Registry := ⟨r.shapes.insert d.name d.shape⟩

def builtin : Registry :=
  builtinScalars.foldl (fun r entry => r.register ⟨entry.1, .scalar entry.2⟩) empty

def get? (r : Registry) (name : String) : Option TypeDescriptor :=
  r.shapes[name]?.map (TypeDescriptor.mk name)

/-- The type of a name, which has to be there. -/
def get (r : Registry) (name : String) : Except ClauseError TypeDescriptor :=
  match r.get? name with
  | some d => .ok d
  | none => .error (.unknownType name)

def contains (r : Registry) (name : String) : Bool := r.shapes.contains name

def names (r : Registry) : List String := r.shapes.keys

/-- The names that properties lead to, type by type. -/
def targets (r : Registry) : List String := r.shapes.toList.flatMap fun entry => entry.2.targets

/-- The first of the names that properties lead to that no type has. -/
def missing? (r : Registry) : Option String := r.targets.find? fun target => !r.contains target

/-- Every property leads to a type of the registry. -/
def validate (r : Registry) : Except ClauseError Unit :=
  match r.missing? with
  | none => .ok ()
  | some target => .error (.unknownType target)

/-! ## Look-ups -/

theorem get?_register (r : Registry) (d : TypeDescriptor) (name : String) :
    (r.register d).get? name = if name = d.name then some d else r.get? name := by
  simp only [get?, register, Std.TreeMap.getElem?_insert, Std.compare_eq_iff_eq]
  by_cases h : d.name = name
  · subst h; simp
  · simp [h, Ne.symm h]

theorem get_eq_ok_iff {r : Registry} {name : String} {d : TypeDescriptor} :
    r.get name = .ok d ↔ r.get? name = some d := by
  rw [get]
  split
  · next found => simp [found]
  · next absent => simp [absent]

theorem contains_eq_isSome_get? (r : Registry) (name : String) :
    r.contains name = (r.get? name).isSome := by
  simp [contains, get?]

theorem get?_empty (name : String) : empty.get? name = none := by simp [get?, empty]

end Registry

end HalfBinary
