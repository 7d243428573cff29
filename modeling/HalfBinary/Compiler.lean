import HalfBinary.Audit

/-!
# Compilers

Types and limits under which clauses are compiled one after another, and a sink that is sent one
event for each of them, whether or not it compiles.
-/

namespace HalfBinary

structure Compiler (m : Type → Type) where
  registry : Registry
  limits : Limits
  /-- Takes the events of compilations. -/
  sink : AuditEvent → m Unit

namespace Compiler

/-- Compiles a clause and records the outcome. -/
def compile [Monad m] (c : Compiler m) (subject source : String) :
    m (Except ClauseError Predicate) := do
  let result := Predicate.compile c.registry subject c.limits source
  c.sink (.ofResult subject source result)
  return result

/-- A compiler whose events are kept, oldest first. -/
def recording (registry : Registry) (limits : Limits) : Compiler (StateM (Array AuditEvent)) :=
  ⟨registry, limits, fun event => modify (·.push event)⟩

end Compiler

end HalfBinary
