/-!
# Commands

What the arguments of the program ask for. Options are given as `--name value` or `--name=value`,
each at most once, and nothing may be left over.
-/

namespace HalfBinary

/-- A clause to compile, and the configuration to compile it under. -/
structure ClauseOptions where
  config : Option String
  subject : String
  clause : String
  deriving DecidableEq, Repr

/-- What the program is asked to do. -/
inductive Command where
  | help
  | version
  /-- Compile a clause and describe it. -/
  | check (options : ClauseOptions)
  /-- Test every fact of a file. -/
  | matchFacts (options : ClauseOptions) (facts : String)
  /-- Check a configuration. -/
  | validate (config : Option String)
  deriving DecidableEq, Repr

namespace Command

/-- An option with a value. -/
structure OptionRule where
  name : String
  /-- Whether the argument after it is its value even where it looks like an option. -/
  takesAny : Bool := false
  mayBeEmpty : Bool := true
  deriving DecidableEq, Repr

def configOption : OptionRule := { name := "--config", mayBeEmpty := false }

def typeOption : OptionRule := { name := "--type" }

/-- The option for the clause, which may start with a dash. -/
def clauseOption : OptionRule := { name := "--clause", takesAny := true }

def factsOption : OptionRule := { name := "--facts", mayBeEmpty := false }

def versionFlag : String := "--version"

/-- The argument after which no option follows. -/
def endOfOptions : String := "--"

/-- Options that were given: values by name, and whether the version was asked for. -/
structure Given where
  values : List (String × String) := []
  version : Bool := false
  deriving DecidableEq, Repr

namespace Given

/-- Adds the value of an option that has none yet. -/
def add (g : Given) (rule : OptionRule) (value : String) : Option Given :=
  if (g.values.lookup rule.name).isSome ∨ (value.isEmpty ∧ !rule.mayBeEmpty) then none
  else some { g with values := (rule.name, value) :: g.values }

/-- Asks for the version, which is not done twice. -/
def askVersion (g : Given) : Option Given :=
  if g.version then none else some { g with version := true }

def value? (g : Given) (rule : OptionRule) : Option String := g.values.lookup rule.name

end Given

def looksLikeOption (argument : String) : Bool := argument.startsWith "-" && argument != "-"

/-- The name and the value of an argument `--name=value`. -/
def splitValue? (argument : String) : Option (String × String) :=
  let cs := argument.toList
  match cs.dropWhile (· != '=') with
  | _ :: value => some (String.ofList (cs.takeWhile (· != '=')), String.ofList value)
  | [] => none

/-- Reads the options of a command up to the last argument. -/
def readOptions (rules : List OptionRule) (given : Given) : List String → Option Given
  | [] => some given
  | argument :: rest =>
    if argument = versionFlag then do readOptions rules (← given.askVersion) rest
    else if argument = endOfOptions then if rest.isEmpty then some given else none
    else
      match rules.find? (·.name == argument), rest with
      | some rule, value :: rest =>
        if rule.takesAny ∨ !looksLikeOption value then do
          readOptions rules (← given.add rule value) rest
        else none
      | some _, [] => none
      | none, rest => do
        let (name, value) ← splitValue? argument
        let rule ← rules.find? (·.name == name)
        readOptions rules (← given.add rule value) rest

/-- A clause and its configuration from the options. -/
def Given.clauseOptions? (g : Given) : Option ClauseOptions := do
  return ⟨g.value? configOption, ← g.value? typeOption, ← g.value? clauseOption⟩

/-- A command, or the version instead if it was asked for. -/
def Given.orVersion (g : Given) (command : Command) : Command :=
  if g.version then .version else command

/-- Reads the arguments after `config`. -/
def readConfig (given : Given) : List String → Option Command
  | "validate" :: rest => do
    let options ← readOptions [configOption] {} rest
    return given.orVersion (options.orVersion (.validate (options.value? configOption)))
  | "--version" :: rest => do readConfig (← given.askVersion) rest
  | _ => none

/-- Reads the arguments before and after the name of a command. -/
def readTop (given : Given) : List String → Option Command
  | [] | ["--"] => some (given.orVersion .help)
  | "check" :: rest => do
    let options ← readOptions [configOption, typeOption, clauseOption] {} rest
    return given.orVersion (options.orVersion (.check (← options.clauseOptions?)))
  | "match" :: rest => do
    let options ← readOptions [configOption, typeOption, clauseOption, factsOption] {} rest
    let facts ← options.value? factsOption
    return given.orVersion (options.orVersion (.matchFacts (← options.clauseOptions?) facts))
  | "config" :: rest => do return given.orVersion (← readConfig {} rest)
  | "--version" :: rest => do readTop (← given.askVersion) rest
  | _ => none

/-- The command that arguments ask for, if they ask for one. -/
def ofArguments? (arguments : List String) : Option Command := readTop {} arguments

def versionText : String := "clause-gate 0.1.0"

def helpText : String :=
  "Top-level CLI definition

Usage: clause-gate [COMMAND]

Commands:
  check   Compile a clause and print its normalized constraint tree
  match   Evaluate a clause against each fact in a JSON-lines file
  config  Configuration utilities

Options:
      --version  Print version information and exit
  -h, --help     Print help

"

end Command

end HalfBinary
