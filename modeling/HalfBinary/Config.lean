import HalfBinary.Limits
import HalfBinary.Schema.Registry

/-!
# Configurations

Limits, the destination of audit events, and types beside the built-in ones. Everything has a
default.
-/

namespace HalfBinary

/-- Where audit events go. -/
inductive AuditSink where
  | none
  /-- Lines on the error stream. -/
  | stderr
  /-- Lines appended to a file. -/
  | file
  deriving DecidableEq, Repr

namespace AuditSink

def name : AuditSink → String
  | none => "none"
  | stderr => "stderr"
  | file => "file"

def ofName? (word : String) : Option AuditSink := [none, stderr, file].find? (·.name == word)

end AuditSink

structure AuditSettings where
  sink : AuditSink := .none
  path : Option String := none
  deriving DecidableEq, Repr

structure Config where
  limits : Limits := {}
  audit : AuditSettings := {}
  types : Std.TreeMap String Shape := ∅

namespace Config

/-- The types in the order of their names. -/
def descriptors (c : Config) : List TypeDescriptor :=
  c.types.toList.map fun entry => ⟨entry.1, entry.2⟩

/-- The built-in types and those of the configuration. -/
def registry (c : Config) : Registry := c.descriptors.foldl Registry.register .builtin

end Config

end HalfBinary
