import HalfBinary.Program
import Std.Time.DateTime.Timestamp

/-!
# The program on the system
-/

namespace HalfBinary

/-- Reads a file of a bounded size. -/
def readBounded (path : String) (maxBytes : Nat) : IO (Except ReadFailure ByteArray) := do
  try
    let bytes ← IO.FS.readBinFile path
    return if maxBytes < bytes.size then .error (.tooLarge bytes.size) else .ok bytes
  catch e => return .error (.io (toString e))

/-- The system that the program runs on. -/
def systemHost : Host IO where
  isPresent path := do
    try
      discard <| IO.FS.Handle.mk path .read
      return true
    catch _ => return false
  readFile := readBounded
  openLog path := do
    try
      discard <| IO.FS.Handle.mk path .append
      return .ok ()
    catch e => return .error (toString e)
  appendLog path text := do
    try
      let log ← IO.FS.Handle.mk path .append
      log.putStr text
      log.flush
    catch _ => return ()
  writeOut text := do (← IO.getStdout).putStr text
  writeErr text := do (← IO.getStderr).putStr text
  clock := do return (← Std.Time.Timestamp.now).toMillisecondsSinceUnixEpoch.toInt.toNat

end HalfBinary

/-- Runs the program. -/
def main (arguments : List String) : IO UInt32 := do
  HalfBinary.Program.run HalfBinary.systemHost HalfBinary.Facts.ofJson
    (← IO.getEnv HalfBinary.Program.configVariable) arguments
