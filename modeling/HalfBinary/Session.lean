import HalfBinary.Compiler
import HalfBinary.Predicate.Batch

/-!
# Sessions

A registry and limits under which clauses are compiled one after another. Predicates are kept under
names, and every compilation leaves one event, whether or not it succeeds.
-/

namespace HalfBinary

/-- What a sequence of compilations works on and leaves behind. -/
structure Session where
  registry : Registry := .builtin
  limits : Limits := {}
  predicates : Std.TreeMap String Predicate := ∅
  /-- The events that have not been taken yet, oldest first. -/
  events : Array AuditEvent := #[]

namespace Session

/-- Adds a type, in place of one of the same name. -/
def register (s : Session) (d : TypeDescriptor) : Session :=
  { s with registry := s.registry.register d }

def keep (s : Session) (name : String) (p : Predicate) : Session :=
  { s with predicates := s.predicates.insert name p }

/-- Compiles a clause, records the event, and keeps the predicate if there is one. -/
def compileAs (s : Session) (name subject source : String) :
    Except ClauseError Predicate × Session :=
  let (result, events) :=
    ((Compiler.recording s.registry s.limits).compile subject source).run s.events
  let recorded := { s with events }
  match result with
  | .ok p => (.ok p, recorded.keep name p)
  | .error e => (.error e, recorded)

def predicate? (s : Session) (name : String) : Option Predicate := s.predicates[name]?

def names (s : Session) : List String := s.predicates.keys

/-- The events since they were last taken. -/
def takeEvents (s : Session) : List AuditEvent × Session :=
  (s.events.toList, { s with events := #[] })

end Session

end HalfBinary
