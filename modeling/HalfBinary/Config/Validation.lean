import HalfBinary.Config
import HalfBinary.Config.Violation
import HalfBinary.Text.Blank
import HalfBinary.Text.Bytes
import HalfBinary.Text.Identifier

/-!
# Checking configurations

A configuration is checked section by section, types and properties in the order of their names,
and the first violation is reported.
-/

namespace HalfBinary

namespace Config

/-! ## Bounds -/

def maxFileBytes : Nat := 1048576

def maxPathBytes : Nat := 4096

def maxComponentBytes : Nat := 255

def maxTypes : Nat := 1024

def maxProperties : Nat := 256

def maxNameBytes : Nat := 128

def ceilings : Limits := ⟨1048576, 128, 4096⟩

/-- The words that a clause does not read as properties. -/
def reservedWords : List String := ["this", "true", "false", "null"]

/-! ## Checks -/

/-- A limit is positive and at most its ceiling. -/
def checkLimit (field : String) (value max : Nat) : Except Violation Unit :=
  if value = 0 then .error (.zeroLimit field)
  else if max < value then .error (.limitTooHigh field max)
  else .ok ()

def checkLimits (l : Limits) : Except Violation Unit := do
  checkLimit "limits.max_clause_bytes" l.maxClauseBytes ceilings.maxClauseBytes
  checkLimit "limits.max_nesting" l.maxNesting ceilings.maxNesting
  checkLimit "limits.max_comparisons" l.maxComparisons ceilings.maxComparisons

/-- Whether a part of a path between slashes has too many bytes. -/
def hasLongComponent (path : String) : Bool :=
  (path.toList.splitOn '/').any fun component => maxComponentBytes < Text.byteLength component

/-- The path of a log is not blank, and neither the path nor a part of it is too long; blanks
around it do not count. -/
def checkAuditPath (path : String) : Except Violation Unit :=
  let trimmed := Text.trim path
  if trimmed.isEmpty then .error .auditPathBlank
  else if maxPathBytes < trimmed.utf8ByteSize then .error .auditPathTooLong
  else if hasLongComponent trimmed then .error .auditComponentTooLong
  else .ok ()

/-- There is a path exactly if events go to a file. -/
def checkAudit (a : AuditSettings) : Except Violation Unit :=
  match a.sink, a.path with
  | .file, some path => checkAuditPath path
  | .file, none => .error .auditPathMissing
  | _, some _ => .error .auditPathUnused
  | _, none => .ok ()

/-- What is wrong with a name, if anything is. -/
def nameFault? (name : String) : Option NameFault :=
  if maxNameBytes < name.utf8ByteSize then some .tooLong
  else if !Text.isIdentifier name.toList then some .notIdentifier
  else if reservedWords.contains name then some .reserved
  else none

def checkName (role : NameRole) (name : String) : Except Violation Unit :=
  match nameFault? name with
  | some fault => .error (.badName role name fault)
  | none => .ok ()

/-- Checks a property of a record and the name of the type it leads to. -/
def checkProperty (owner : String) (property : String × String) : Except Violation Unit := do
  checkName (.property owner) property.1
  checkName (.target owner property.1) property.2

def checkType (d : TypeDescriptor) : Except Violation Unit := do
  checkName .type d.name
  if Registry.isBuiltin d.name then throw (.builtinType d.name)
  match d.shape with
  | .record properties =>
    if maxProperties < properties.size then throw (.tooManyProperties d.name)
    properties.toList.forM (checkProperty d.name)
  | .scalar _ | .atom => return ()

def checkTypes (c : Config) : Except Violation Unit :=
  if maxTypes < c.types.size then .error .tooManyTypes else c.descriptors.forM checkType

/-- Every property leads to a type. -/
def checkTargets (c : Config) : Except Violation Unit :=
  match c.registry.missing? with
  | some name => .error (.unknownTarget name)
  | none => .ok ()

/-- The registry of a configuration whose properties lead to types. -/
def buildRegistry (c : Config) : Except Violation Registry := do
  checkTargets c
  return c.registry

def validate (c : Config) : Except Violation Unit := do
  checkLimits c.limits
  checkAudit c.audit
  checkTypes c
  checkTargets c

end Config

end HalfBinary
