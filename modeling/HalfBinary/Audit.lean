import HalfBinary.Json.Writer
import HalfBinary.Predicate

/-!
# Audit events

What is logged of a compilation: the subject, the digest and the size of the clause and the
outcome, but never the text of the clause.
-/

namespace HalfBinary

/-- How a compilation ended. -/
inductive Outcome where
  | compiled (accessor : String) (leafCount : Nat)
  | rejected (kind : String) (offset : Option Nat)
  deriving DecidableEq, Repr

namespace Outcome

def label : Outcome → String
  | compiled .. => "compiled"
  | rejected .. => "rejected"

/-- The name of an event with this outcome. -/
def event (o : Outcome) : String := "clause_" ++ o.label

/-- The fields that depend on the outcome; those of the other outcome are null. -/
def fields : Outcome → List (String × Json)
  | compiled accessor leafCount =>
    [("accessor", .text accessor), ("leaf_count", .nat leafCount), ("error_kind", .null),
      ("error_offset", .null)]
  | rejected kind offset =>
    [("accessor", .null), ("leaf_count", .null), ("error_kind", .text kind),
      ("error_offset", .ofOption .nat offset)]

end Outcome

/-- The record of a compilation. -/
structure AuditEvent where
  subject : String
  digest : Digest
  clauseBytes : Nat
  outcome : Outcome
  deriving DecidableEq, Repr

namespace AuditEvent

/-- The record of compiling a clause with a given result. A predicate knows the digest of its
clause. -/
def ofResult (subject source : String) : Except ClauseError Predicate → AuditEvent
  | .ok p =>
    ⟨subject, p.digest, source.utf8ByteSize, .compiled p.accessor.path.render p.leafCount⟩
  | .error e => ⟨subject, .ofText source, source.utf8ByteSize, .rejected e.kind e.offset?⟩

/-- The event as an object, with the time of the compilation in milliseconds. -/
def toJson (timestamp : Nat) (e : AuditEvent) : Json :=
  .object <|
    [("event", .text e.outcome.event), ("timestamp_ms", .nat timestamp),
      ("subject_type", .text e.subject),
      ("clause_digest", .object
        [("algorithm", .text e.digest.algorithm.label), ("value", .text e.digest.value)]),
      ("clause_bytes", .nat e.clauseBytes), ("outcome", .text e.outcome.label)] ++ e.outcome.fields

/-- The line of the event in a log. -/
def line (timestamp : Nat) (e : AuditEvent) : String := (e.toJson timestamp).compact ++ "\n"

end AuditEvent

end HalfBinary
