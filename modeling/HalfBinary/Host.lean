/-!
# Hosts

What the program needs of the system it runs on.
-/

namespace HalfBinary

inductive ReadFailure where
  | io (detail : String)
  | tooLarge (bytes : Nat)
  deriving DecidableEq, Repr

/-- The files, the output and the clock of a system. -/
structure Host (m : Type → Type) where
  /-- Whether there is something at a path. -/
  isPresent : String → m Bool
  /-- The bytes of a file that has at most so many. -/
  readFile : (path : String) → (maxBytes : Nat) → m (Except ReadFailure ByteArray)
  /-- Makes sure that a log is there and can be appended to; otherwise says why not. -/
  openLog : String → m (Except String Unit)
  /-- Appends a text to a log. -/
  appendLog : (path text : String) → m Unit
  writeOut : String → m Unit
  writeErr : String → m Unit
  /-- Milliseconds since the start of 1970. -/
  clock : m Nat

end HalfBinary
