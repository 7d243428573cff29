import HalfBinary.Config.Decoder
import HalfBinary.Config.Validation

/-!
# Reading configurations

A configuration is read from the text or the bytes of a file and then checked.
-/

namespace HalfBinary

/-- Why a configuration cannot be used. -/
inductive ConfigError where
  /-- The file cannot be read, or the log not opened. -/
  | io (detail : String)
  | parse (detail : String)
  | invalid (violation : Violation)
  deriving DecidableEq, Repr

def ConfigError.message : ConfigError → String
  | io detail => s!"config io error: {detail}"
  | parse detail => s!"config parse error: {detail}"
  | invalid violation => s!"invalid config: {violation.message}"

namespace Config

/-- A configuration that has been checked. -/
def checked (c : Config) : Except ConfigError Config :=
  match c.validate with
  | .ok () => .ok c
  | .error violation => .error (.invalid violation)

def ofSettings (format : Setting.Format) (s : Setting) : Except ConfigError Config :=
  match s.config? format with
  | some c => c.checked
  | none => .error (.parse "settings do not match")

def ofJson (value : Json) : Except ConfigError Config := ofSettings .json (.ofJson value)

def ofText (text : String) : Except ConfigError Config :=
  if maxFileBytes < text.utf8ByteSize then .error (.invalid .fileTooLarge)
  else
    match Toml.read text with
    | .error fault => .error (.parse fault.message)
    | .ok entries => ofSettings .toml (.table (Setting.ofEntries entries))

def ofBytes (bytes : ByteArray) : Except ConfigError Config :=
  if maxFileBytes < bytes.size then .error (.invalid .fileTooLarge)
  else
    match String.fromUTF8? bytes with
    | some text => ofText text
    | none => .error (.invalid .fileNotUtf8)

/-- The path of a configuration file, and every part of it, is bounded. -/
def checkPath (path : String) : Except Violation Unit :=
  if maxPathBytes < path.utf8ByteSize then .error .configPathTooLong
  else if hasLongComponent path then .error .configComponentTooLong
  else .ok ()

end Config

end HalfBinary
