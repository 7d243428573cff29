import HalfBinary.Command
import HalfBinary.Compiler
import HalfBinary.Config.Source
import HalfBinary.Facts
import HalfBinary.Host
import HalfBinary.Predicate.Batch

/-!
# The program

Carries out commands on a host. A command that fails writes one line to the error stream and nothing
to the output.
-/

namespace HalfBinary

inductive Failure where
  | config (error : ConfigError)
  | rejected (error : ClauseError)
  | factsUnread (path detail : String)
  | factsTooLarge (path : String) (bytes : Nat)
  | factsNotUtf8
  | badFact (fault : Facts.LineFault)
  /-- There are more facts than machine words to number them, which no file that is read has. -/
  | tooManyFacts
  deriving DecidableEq, Repr

def Failure.message : Failure → String
  | config error => s!"failed to load config: {error.message}"
  | rejected error => s!"clause rejected ({error.kind}): {error.message}"
  | factsUnread path detail => s!"failed to read facts file {path}: {detail}"
  | factsTooLarge path bytes =>
    s!"facts file {path} is too large: {bytes} bytes (max {Facts.maxBytes})"
  | factsNotUtf8 => "facts file must be utf-8"
  | badFact fault => s!"facts line {fault.line} is not valid JSON: {fault.fault}"
  | tooManyFacts => "too many facts"

namespace Program

/-- The configuration file that is used unless another is named. -/
def defaultConfig : String := "clause-gate.toml"

/-- The environment variable that names a configuration file. -/
def configVariable : String := "CLAUSE_GATE_CONFIG"

def exitSuccess : UInt32 := 0

/-- The exit code of a command that fails. -/
def exitFailure : UInt32 := 1

/-- The exit code of arguments that ask for no command. -/
def exitUsage : UInt32 := 2

variable {m : Type → Type} [Monad m] (host : Host m) (readFact : String → Except String Json)

/-! ## Configurations -/

def readConfig (path : String) : m (Except ConfigError Config) := do
  match Config.checkPath path with
  | .error violation => return .error (.invalid violation)
  | .ok () =>
    match ← host.readFile path Config.maxFileBytes with
    | .error (.io detail) => return .error (.io detail)
    | .error (.tooLarge _) => return .error (.invalid .fileTooLarge)
    | .ok bytes => return Config.ofBytes bytes

/-- The configuration of a named file, else of the one that the environment names, else of the
default file. -/
def loadConfig (env named : Option String) : m (Except ConfigError Config) :=
  match named, env with
  | some path, _ => readConfig host path
  | none, some path =>
    if Config.maxPathBytes < path.utf8ByteSize then
      return .error (.invalid .configPathTooLong)
    else readConfig host path
  | none, none => readConfig host defaultConfig

/-- The same, but the defaults if no file is named and the default file is missing. -/
def loadConfigOrDefault (env named : Option String) : m (Except ConfigError Config) := do
  if named.isNone && env.isNone && !(← host.isPresent defaultConfig) then return .ok {}
  else loadConfig host env named

/-! ## Clauses -/

/-- Opens the log of a configuration, if it has one. -/
def openSink (a : AuditSettings) : m (Except ConfigError Unit) :=
  match a.sink, a.path with
  | .file, some path => do
    match ← host.openLog path with
    | .ok () => return .ok ()
    | .error detail => return .error (.io s!"audit log {path}: {detail}")
  | .file, none => return .error (.invalid .auditPathMissing)
  | _, _ => return .ok ()

/-- Sends the event of a compilation where the configuration says. -/
def record (a : AuditSettings) (event : AuditEvent) : m Unit := do
  let line := event.line (← host.clock)
  match a.sink, a.path with
  | .stderr, _ => host.writeErr line
  | .file, some path => host.appendLog path line
  | _, _ => return ()

/-- The compiler of a configuration, whose log is open. -/
def buildCompiler (c : Config) : m (Except ConfigError (Compiler m)) := do
  match c.buildRegistry with
  | .error violation => return .error (.invalid violation)
  | .ok registry =>
    match ← openSink host c.audit with
    | .error e => return .error e
    | .ok () => return .ok ⟨registry, c.limits, record host c.audit⟩

/-- Compiles a clause under its configuration and records the outcome. -/
def compile (env : Option String) (o : ClauseOptions) : m (Except Failure Predicate) := do
  match ← loadConfigOrDefault host env o.config with
  | .error e => return .error (.config e)
  | .ok config =>
    match ← buildCompiler host config with
    | .error e => return .error (.config e)
    | .ok compiler => return (← compiler.compile o.subject o.clause).mapError .rejected

def readFacts (path : String) : m (Except Failure (Array Json)) := do
  match ← host.readFile path Facts.maxBytes with
  | .error (.io detail) => return .error (.factsUnread path detail)
  | .error (.tooLarge bytes) => return .error (.factsTooLarge path bytes)
  | .ok bytes =>
    match String.fromUTF8? bytes with
    | none => return .error .factsNotUtf8
    | some text => return (Facts.ofText readFact text).mapError .badFact

/-! ## Commands -/

/-- What `check` says of a predicate. -/
def describe (p : Predicate) : List String :=
  [s!"clause: {p.render}",
    s!"accessor: {p.accessor.path.render} ({p.accessor.valueType.name})",
    s!"comparisons: {p.leafCount}",
    s!"digest: {p.digest.render}"]

/-- What `match` says of facts: the indices of those that satisfy a predicate, and their number. -/
def matchReport (p : Predicate) (facts : Array Json) : Except Failure (List String) :=
  match Batch.matchingIndices p.evaluate facts with
  | none => .error .tooManyFacts
  | some indices =>
    .ok (indices.map toString ++ [s!"matched {indices.length} of {facts.size}"])

def joinLines (lines : List String) : String := String.join (lines.map (· ++ "\n"))

/-- The output of a command, or why it fails. -/
def output (env : Option String) : Command → m (Except Failure String)
  | .help => return .ok Command.helpText
  | .version => return .ok (joinLines [Command.versionText])
  | .check options => do
    match ← compile host env options with
    | .error e => return .error e
    | .ok p => return .ok (joinLines (describe p))
  | .matchFacts options path => do
    match ← compile host env options with
    | .error e => return .error e
    | .ok p =>
      match ← readFacts host readFact path with
      | .error e => return .error e
      | .ok facts => return (matchReport p facts).map joinLines
  | .validate path => do
    match ← loadConfig host env path with
    | .error e => return .error (.config e)
    | .ok config => return .ok (joinLines [s!"config ok: {config.types.size} configured types"])

/-- Carries out what the arguments ask for and gives the exit code. -/
def run (env : Option String) (arguments : List String) : m UInt32 := do
  match Command.ofArguments? arguments with
  | none =>
    host.writeErr "invalid arguments\n"
    return exitUsage
  | some command =>
    match ← output host readFact env command with
    | .ok text =>
      host.writeOut text
      return exitSuccess
    | .error failure =>
      host.writeErr (failure.message ++ "\n")
      return exitFailure

end Program

end HalfBinary
