import HalfBinary.ClauseError

/-!
# Violations

The rules that a configuration can break, and their wording.
-/

namespace HalfBinary

/-- The place of a name in a configuration. -/
inductive NameRole where
  | type
  | property (owner : String)
  | target (owner property : String)
  deriving DecidableEq, Repr

/-- How a place is named in messages. -/
def NameRole.label : NameRole → String
  | type => "type name"
  | property owner => s!"types.{owner} property"
  | target owner name => s!"types.{owner}.{name} type"

inductive NameFault where
  | tooLong | notIdentifier | reserved
  deriving DecidableEq, Repr

def NameFault.message : NameFault → String
  | tooLong => "exceeds max length"
  | notIdentifier => "is not an identifier"
  | reserved => "is a reserved word"

inductive Violation where
  | fileTooLarge
  | fileNotUtf8
  | configPathTooLong
  | configComponentTooLong
  | zeroLimit (field : String)
  | limitTooHigh (field : String) (max : Nat)
  | auditPathMissing
  | auditPathUnused
  | auditPathBlank
  | auditPathTooLong
  | auditComponentTooLong
  | tooManyTypes
  | badName (role : NameRole) (name : String) (fault : NameFault)
  | builtinType (name : String)
  | tooManyProperties (owner : String)
  | unknownTarget (name : String)
  deriving DecidableEq, Repr

def Violation.message : Violation → String
  | fileTooLarge => "config file exceeds size limit"
  | fileNotUtf8 => "config file must be utf-8"
  | configPathTooLong => "config path exceeds max length"
  | configComponentTooLong => "config path component too long"
  | zeroLimit field => s!"{field} must be greater than zero"
  | limitTooHigh field max => s!"{field} exceeds max {max}"
  | auditPathMissing => "audit.path is required for the file sink"
  | auditPathUnused => "audit.path is only valid for the file sink"
  | auditPathBlank => "audit.path must be non-empty"
  | auditPathTooLong => "audit.path exceeds max length"
  | auditComponentTooLong => "audit.path path component too long"
  | tooManyTypes => "too many configured types"
  | badName role name fault => s!"{role.label} `{name}` {fault.message}"
  | builtinType name => s!"types.{name} redefines a built-in type"
  | tooManyProperties owner => s!"types.{owner} has too many properties"
  | unknownTarget name => "types: " ++ (ClauseError.unknownType name).message

end HalfBinary
