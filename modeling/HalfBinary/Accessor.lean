import HalfBinary.Schema.Registry
import HalfBinary.Json

/-!
# Accessors

The path from a fact to the value that a clause constrains. Resolving walks the path over the types
once; reading then follows it in a fact, and whatever is missing reads as `null`.
-/

namespace HalfBinary

/-- Property names from the fact to the value; none for the fact itself. -/
structure AccessorPath where
  segments : List String
  deriving DecidableEq, Repr

namespace AccessorPath

/-- The word for the fact itself. -/
def self : String := "this"

/-- The path of written segments; one leading `this` is dropped. -/
def ofSegments : List String → AccessorPath
  | segment :: segments => ⟨if segment = self then segments else segment :: segments⟩
  | [] => ⟨[]⟩

/-- The path of a written text, whose segments may be empty. -/
def ofText (text : String) : AccessorPath :=
  ofSegments ((text.toList.splitOn '.').map String.ofList)

def isIdentity (p : AccessorPath) : Bool := p.segments.isEmpty

def render (p : AccessorPath) : String :=
  if p.isIdentity then self else ".".intercalate p.segments

end AccessorPath

/-- A segment checked against the type it starts from. -/
structure ResolvedSegment where
  name : String
  access : SegmentAccess
  /-- The type of the value that the segment yields. -/
  typeName : String
  deriving DecidableEq, Repr

/-- A path checked against a subject type, and the type of the value it leads to. -/
structure ResolvedAccessor where
  path : AccessorPath
  subject : String
  segments : List ResolvedSegment
  valueType : TypeDescriptor

/-! ## Resolving -/

namespace Registry

/-- Checks segments one after another, from the type reached so far. -/
def walk (r : Registry) (reached : TypeDescriptor) :
    List String → Except ClauseError (List ResolvedSegment × TypeDescriptor)
  | [] => .ok ([], reached)
  | name :: names =>
    match reached.property? name with
    | none => .error (.unknownProperty reached.name name)
    | some (access, target) => do
      let next ← r.get target
      let (segments, last) ← r.walk next names
      return (⟨name, access, next.name⟩ :: segments, last)

/-- Checks a path from a subject type. -/
def resolve (r : Registry) (subject : String) (path : AccessorPath) :
    Except ClauseError ResolvedAccessor := do
  let start ← r.get subject
  let (segments, valueType) ← r.walk start path.segments
  return ⟨path, subject, segments, valueType⟩

end Registry

/-! ## Reading -/

/-- The value one segment further. -/
def ResolvedSegment.read (s : ResolvedSegment) (value : Json) : Json :=
  match s.access with
  | .field => (value.field? s.name).getD .null
  | .view => value

/-- The value at the end of the path. -/
def ResolvedAccessor.read (a : ResolvedAccessor) (fact : Json) : Json :=
  a.segments.foldl (fun value segment => segment.read value) fact

end HalfBinary
