import HalfBinary.Config
import HalfBinary.Config.Setting

/-!
# Decoding settings

A section is a table of named settings, or a list of them in a fixed order. Whatever is left out has
its default, and a setting of the wrong kind or of an unknown name is refused.
-/

namespace HalfBinary.Setting

inductive Format where
  | toml | json
  deriving DecidableEq, Repr

/-! ## Values -/

def text? : Setting → Option String
  | text value => some value
  | _ => none

/-- A whole number of an unsigned 64-bit word. -/
def natural? : Setting → Option Nat
  | whole value => if 0 ≤ value ∧ value < 0x10000000000000000 then some value.toNat else none
  | _ => none

/-- A text, or none for a null. -/
def optionalText? : Setting → Option (Option String)
  | null => some none
  | s => s.text?.map some

/-- A word, which may also be the name of a table's only entry if that is void. -/
def word? (void : Setting → Bool) : Setting → Option String
  | text value => some value
  | table [(name, payload)] => if void payload then some name else none
  | _ => none

/-! ## Sections -/

/-- The settings of a section with these names. TOML ignores what a list has too many. -/
def section? (format : Format) (names : List String) : Setting → Option (List (String × Setting))
  | table entries => if entries.all fun e => names.contains e.1 then some entries else none
  | list items =>
    if items.length ≤ names.length ∨ format = .toml then some (names.zip items) else none
  | _ => none

/-- A setting of a section, or its default. -/
def get? (entries : List (String × Setting)) (name : String) (decode : Setting → Option α)
    (default : α) : Option α :=
  match entries.lookup name with
  | some s => decode s
  | none => some default

def limits? (format : Format) (s : Setting) : Option Limits := do
  let entries ← s.section? format ["max_clause_bytes", "max_nesting", "max_comparisons"]
  let usual : Limits := {}
  return ⟨← get? entries "max_clause_bytes" natural? usual.maxClauseBytes,
    ← get? entries "max_nesting" natural? usual.maxNesting,
    ← get? entries "max_comparisons" natural? usual.maxComparisons⟩

/-- Whether a setting says nothing about a sink that is named by an entry. -/
def isVoidSink (format : Format) : Setting → Bool
  | null => format = .json
  | list items => format = .toml && items.isEmpty
  | table entries => format = .toml && entries.isEmpty
  | _ => false

def audit? (format : Format) (s : Setting) : Option AuditSettings := do
  let entries ← s.section? format ["sink", "path"]
  let sink (s : Setting) := (s.word? (isVoidSink format)).bind AuditSink.ofName?
  return ⟨← get? entries "sink" sink .none, ← get? entries "path" optionalText? none⟩

/-! ## Types -/

/-- Whether a setting says nothing about a scalar kind that is named by an entry. -/
def isVoidKind : Setting → Bool
  | null => true
  | table entries => entries.isEmpty
  | _ => false

/-- The properties of a record: a table of type names. -/
def properties? : Setting → Option (Std.TreeMap String String)
  | table entries => entries.foldlM (fun properties e => e.2.text?.map (properties.insert e.1)) ∅
  | _ => none

/-- A shape of a kind from its other settings. -/
def shapeOf? (kind : String) (get : String → Option Setting) : Option Shape :=
  match kind with
  | "scalar" => do
    let word ← (← get "scalar").word? isVoidKind
    return .scalar (← ScalarKind.ofName? word)
  | "record" =>
    match get "properties" with
    | none => some (.record ∅)
    | some s => s.properties?.map .record
  | "opaque" => some .atom
  | _ => none

/-- The other setting of a shape of a kind. -/
def shapeFields (kind : String) : List String :=
  match kind with
  | "scalar" => ["scalar"]
  | "record" => ["properties"]
  | _ => []

/-- A shape: a table with a kind, whose unknown names do not count, or a list that starts with
it. -/
def shape? : Setting → Option Shape
  | table entries => do
    shapeOf? (← (← entries.lookup "kind").text?) fun name => entries.lookup name
  | list (first :: rest) => do
    let kind ← first.text?
    let names := shapeFields kind
    if rest.length ≤ names.length then
      shapeOf? kind fun name => (names.zip rest).lookup name
    else none
  | _ => none

/-- The types section: a table of shapes. -/
def types? : Setting → Option (Std.TreeMap String Shape)
  | table entries => entries.foldlM (fun types e => e.2.shape?.map (types.insert e.1)) ∅
  | _ => none

/-- A type with its name beside the settings of its shape. -/
def descriptor? : Setting → Option TypeDescriptor
  | table entries => do
    let name ← (← entries.lookup "name").text?
    return ⟨name, ← (table entries).shape?⟩
  | _ => none

def config? (format : Format) (s : Setting) : Option Config := do
  let entries ← s.section? format ["limits", "audit", "types"]
  return ⟨← get? entries "limits" (limits? format) {}, ← get? entries "audit" (audit? format) {},
    ← get? entries "types" types? ∅⟩

end HalfBinary.Setting
