import Mathlib
import HalfBinary.Program
import HalfBinary.Proofs.Conformance
import HalfBinary.Proofs.Resolution

/-!
# Accepted configurations

The checks of a configuration accept exactly the valid ones. What is built from a valid configuration
has the built-in types as they are and the configured ones, and nothing can fail but the opening of
its log (`validate_iff_valid`).
-/

namespace HalfBinary

/-- The path of a log, blanks around it aside: there is one, and neither the path nor a part of it
is too long. -/
structure IsLogPath (path : String) : Prop where
  present : Text.trim path ≠ ""
  short : (Text.trim path).utf8ByteSize ≤ 4096
  components : ∀ component ∈ (Text.trim path).toList.splitOn '/', Text.byteLength component ≤ 255

namespace Config

/-- What a configuration has to be like. Its types do not take the name of a built-in one, but its
properties may. -/
structure Valid (c : Config) : Prop where
  clauseBytes : 1 ≤ c.limits.maxClauseBytes ∧ c.limits.maxClauseBytes ≤ 1048576
  nesting : 1 ≤ c.limits.maxNesting ∧ c.limits.maxNesting ≤ 128
  comparisons : 1 ≤ c.limits.maxComparisons ∧ c.limits.maxComparisons ≤ 4096
  logged : c.audit.sink = .file → ∃ path, c.audit.path = some path ∧ IsLogPath path
  unlogged : c.audit.sink ≠ .file → c.audit.path = none
  few : c.types.size ≤ 1024
  named : ∀ name ∈ c.types, IsName name ∧ Registry.isBuiltin name = false
  records : ∀ (name : String) (properties : Std.TreeMap String String),
    c.types[name]? = some (.record properties) → properties.size ≤ 256 ∧
      ∀ property target, properties[property]? = some target →
        IsName property ∧ IsName target ∧ (Registry.isBuiltin target = true ∨ target ∈ c.types)

variable {c : Config}

/-! ### Checks -/

theorem checkLimit_eq_ok_iff {field : String} {value max : Nat} {u : Unit} :
    checkLimit field value max = .ok u ↔ 1 ≤ value ∧ value ≤ max := by
  rw [checkLimit, ite_error_eq_ok_iff, ite_error_eq_ok_iff]
  simp
  omega

theorem checkLimits_eq_ok_iff {l : Limits} {u : Unit} :
    checkLimits l = .ok u ↔ (1 ≤ l.maxClauseBytes ∧ l.maxClauseBytes ≤ 1048576) ∧
      (1 ≤ l.maxNesting ∧ l.maxNesting ≤ 128) ∧
      (1 ≤ l.maxComparisons ∧ l.maxComparisons ≤ 4096) := by
  rw [checkLimits, check_then_eq_ok_iff, check_then_eq_ok_iff, checkLimit_eq_ok_iff,
    checkLimit_eq_ok_iff, checkLimit_eq_ok_iff]
  rfl

theorem hasLongComponent_eq_false_iff {path : String} : hasLongComponent path = false ↔
    ∀ component ∈ path.toList.splitOn '/', Text.byteLength component ≤ 255 := by
  rw [hasLongComponent, List.any_eq_false]
  refine forall₂_congr fun component _ => ?_
  rw [decide_eq_true_eq, Nat.not_lt]
  rfl

theorem checkAuditPath_eq_ok_iff {path : String} {u : Unit} :
    checkAuditPath path = .ok u ↔ IsLogPath path := by
  have isLogPath_iff : IsLogPath path ↔ Text.trim path ≠ "" ∧
      (Text.trim path).utf8ByteSize ≤ maxPathBytes ∧
        hasLongComponent (Text.trim path) = false := by
    rw [hasLongComponent_eq_false_iff]
    exact ⟨fun h => ⟨h.1, h.2, h.3⟩, fun h => ⟨h.1, h.2.1, h.2.2⟩⟩
  rw [isLogPath_iff, checkAuditPath, ite_error_eq_ok_iff, ite_error_eq_ok_iff, ite_error_eq_ok_iff]
  simp

theorem checkAudit_eq_ok_iff {a : AuditSettings} {u : Unit} :
    checkAudit a = .ok u ↔ (a.sink = .file → ∃ path, a.path = some path ∧ IsLogPath path) ∧
      (a.sink ≠ .file → a.path = none) := by
  obtain ⟨sink, path⟩ := a
  cases path with
  | none => cases sink <;> simp [checkAudit]
  | some path => cases sink <;> simp [checkAudit, checkAuditPath_eq_ok_iff]

theorem forall_mem_descriptors_iff {p : TypeDescriptor → Prop} : (∀ d ∈ c.descriptors, p d) ↔
    ∀ (name : String) (shape : Shape), c.types[name]? = some shape → p ⟨name, shape⟩ := by
  constructor
  · intro all name shape found
    have entry := Std.TreeMap.mem_toList_iff_getElem?_eq_some.2 found
    exact all _ (List.mem_map.2 ⟨_, entry, rfl⟩)
  · intro all d mem
    obtain ⟨⟨name, shape⟩, entry, rfl⟩ := List.mem_map.1 mem
    exact all name shape (Std.TreeMap.mem_toList_iff_getElem?_eq_some.1 entry)

theorem checkTypes_eq_ok_iff {u : Unit} :
    checkTypes c = .ok u ↔ c.types.size ≤ 1024 ∧
      (∀ name ∈ c.types, IsName name ∧ Registry.isBuiltin name = false) ∧
      ∀ (name : String) (properties : Std.TreeMap String String),
        c.types[name]? = some (.record properties) → properties.size ≤ 256 ∧
          ∀ property target, properties[property]? = some target →
            IsName property ∧ IsName target := by
  rw [checkTypes, ite_error_eq_ok_iff, forM_eq_ok_iff, forall_mem_descriptors_iff, Nat.not_lt]
  refine and_congr_right fun _ => ?_
  simp only [checkType_eq_ok_iff]
  constructor
  · intro checked
    constructor
    · intro name mem
      obtain ⟨shape, found⟩ := Option.isSome_iff_exists.1 (Std.TreeMap.isSome_getElem?_iff_mem.2 mem)
      obtain ⟨named, free, -⟩ := checked name shape found
      exact ⟨named, free⟩
    · intro name properties found
      obtain ⟨-, -, record⟩ := checked name _ found
      exact record properties rfl
  · rintro ⟨named, records⟩ name shape found
    have mem : name ∈ c.types := Std.TreeMap.isSome_getElem?_iff_mem.1 (by rw [found]; rfl)
    refine ⟨(named name mem).1, (named name mem).2, ?_⟩
    rintro properties rfl
    exact records name properties found

theorem checkTargets_eq_ok_iff {u : Unit} :
    checkTargets c = .ok u ↔ c.registry.validate = .ok () := by
  rw [checkTargets, Registry.validate]
  rcases c.registry.missing? with _ | target
  · simp
  · simp

/-! ### The registry -/

theorem get?_builtin_eq_none_iff {name : String} :
    Registry.builtin.get? name = none ↔ Registry.isBuiltin name = false := by
  constructor
  · intro absent
    rw [Registry.isBuiltin, List.any_eq_false]
    rintro ⟨builtin, kind⟩ mem same
    rw [← beq_iff_eq.1 same, Registry.get?_builtin mem] at absent
    cases absent
  · intro free
    rw [Registry.builtin_eq_foldl, Registry.get?_foldl_register_of_notMem, Registry.get?_empty]
    intro d mem same
    obtain ⟨entry, listed, rfl⟩ := List.mem_map.1 mem
    rw [Registry.isBuiltin, List.any_eq_false] at free
    exact free entry listed (beq_iff_eq.2 same)

theorem pairwise_descriptors (c : Config) : c.descriptors.Pairwise (·.name ≠ ·.name) := by
  rw [descriptors, List.pairwise_map]
  refine Std.TreeMap.distinct_keys_toList.imp ?_
  intro entry entry' other same
  exact other (Std.compare_eq_iff_eq.2 same)

theorem get?_registry_of_mem {name : String} {shape : Shape} (found : c.types[name]? = some shape) :
    c.registry.get? name = some ⟨name, shape⟩ := by
  have mem : (⟨name, shape⟩ : TypeDescriptor) ∈ c.descriptors :=
    List.mem_map.2 ⟨_, Std.TreeMap.mem_toList_iff_getElem?_eq_some.2 found, rfl⟩
  exact Registry.get?_foldl_register_of_mem c.pairwise_descriptors mem

theorem get?_registry_of_notMem {name : String} (absent : c.types[name]? = none) :
    c.registry.get? name = Registry.builtin.get? name := by
  refine Registry.get?_foldl_register_of_notMem ?_
  rw [forall_mem_descriptors_iff]
  rintro name' shape found rfl
  cases found.symm.trans absent

/-- The types of a configuration are its own and the built-in ones. -/
theorem get?_registry_ne_none_iff {name : String} : c.registry.get? name ≠ none ↔
    Registry.isBuiltin name = true ∨ name ∈ c.types := by
  rw [← Std.TreeMap.isSome_getElem?_iff_mem]
  rcases found : c.types[name]? with _ | shape
  · rw [get?_registry_of_notMem found, Ne, get?_builtin_eq_none_iff]
    simp
  · rw [get?_registry_of_mem found]
    simp

theorem mem_names_iff {name : String} :
    name ∈ c.registry.names ↔ Registry.isBuiltin name = true ∨ name ∈ c.types := by
  rw [← get?_registry_ne_none_iff, Registry.names, Std.TreeMap.mem_keys,
    ← Std.TreeMap.isSome_getElem?_iff_mem, Registry.get?, Ne, Option.map_eq_none_iff,
    Option.isSome_iff_ne_none]

/-- The properties of a configuration's types all lead to types if those of its records do. -/
theorem checkTargets_eq_ok_iff_records {u : Unit} :
    checkTargets c = .ok u ↔ ∀ (name : String) (properties : Std.TreeMap String String),
      c.types[name]? = some (.record properties) → ∀ property target : String,
        properties[property]? = some target → Registry.isBuiltin target = true ∨ target ∈ c.types := by
  rw [checkTargets_eq_ok_iff, Registry.validate_eq_ok_iff]
  constructor
  · intro none name properties found property target listed
    refine get?_registry_ne_none_iff.1 fun absent => ?_
    have offers : (⟨name, .record properties⟩ : TypeDescriptor).property? property =
        some (.field, target) := by
      rw [TypeDescriptor.property?, Shape.property?, listed, Option.map_some]
    exact none ⟨name, property, target⟩ ⟨⟨_, _, get?_registry_of_mem found, offers⟩, absent⟩
  · rintro records ⟨owner, property, target⟩ ⟨⟨⟨name, shape⟩, access, found, offers⟩, absent⟩
    cases Registry.name_of_get? found
    rw [TypeDescriptor.property?] at offers
    cases shape with
    | scalar kind =>
      obtain ⟨target', looked, same⟩ := Option.map_eq_some_iff.1 offers
      cases same
      obtain ⟨kind', builtin, -⟩ := ScalarKind.holds_of_views looked
      have taken : Registry.isBuiltin target = true :=
        List.any_eq_true.2 ⟨_, builtin, beq_self_eq_true _⟩
      exact get?_registry_ne_none_iff.2 (.inl taken) absent
    | record properties =>
      obtain ⟨target', listed, same⟩ := Option.map_eq_some_iff.1 offers
      cases same
      -- Built-in types are no records, so this one is configured.
      rcases configured : c.types[owner]? with _ | shape
      · rw [get?_registry_of_notMem configured] at found
        obtain ⟨kind, shape⟩ := Registry.exists_scalar_of_builtin found
        cases shape
      · cases (get?_registry_of_mem configured).symm.trans found
        exact get?_registry_ne_none_iff.2 (records owner properties configured property target listed) absent
    | atom => cases offers

/-- The checks accept what is valid. -/
theorem validate_eq_ok_iff_valid {u : Unit} : c.validate = .ok u ↔ c.Valid := by
  rw [validate_eq_ok_iff_checks, checkLimits_eq_ok_iff, checkAudit_eq_ok_iff, checkTypes_eq_ok_iff,
    checkTargets_eq_ok_iff_records]
  constructor
  · rintro ⟨⟨clauseBytes, nesting, comparisons⟩, ⟨logged, unlogged⟩, ⟨few, named, records⟩, targets⟩
    refine ⟨clauseBytes, nesting, comparisons, logged, unlogged, few, named, ?_⟩
    intro name properties found
    obtain ⟨narrow, names⟩ := records name properties found
    refine ⟨narrow, fun property target listed => ?_⟩
    obtain ⟨first, second⟩ := names property target listed
    exact ⟨first, second, targets name properties found property target listed⟩
  · intro valid
    refine ⟨⟨valid.clauseBytes, valid.nesting, valid.comparisons⟩, ⟨valid.logged, valid.unlogged⟩,
      ⟨valid.few, valid.named, ?_⟩, ?_⟩
    · intro name properties found
      obtain ⟨narrow, names⟩ := valid.records name properties found
      refine ⟨narrow, fun property target listed => ?_⟩
      obtain ⟨first, second, -⟩ := names property target listed
      exact ⟨first, second⟩
    · intro name properties found property target listed
      obtain ⟨-, -, leads⟩ := (valid.records name properties found).2 property target listed
      exact leads

/-! ### What is built -/

theorem buildRegistry_of_validate (valid : c.validate = .ok ()) :
    c.buildRegistry = .ok c.registry := by
  obtain ⟨-, -, -, targets⟩ := validate_eq_ok_iff_checks.1 valid
  rw [buildRegistry, targets]
  rfl

section

open Program (buildCompiler openSink record)

variable {m : Type → Type} [Monad m] (host : Host m)

theorem openSink_of_ne_file {a : AuditSettings} (other : a.sink ≠ .file) :
    openSink host a = pure (.ok ()) := by
  obtain ⟨sink, path⟩ := a
  cases sink with
  | none | stderr => rfl
  | file => exact absurd rfl other

theorem openSink_of_file {a : AuditSettings} {path : String} (file : a.sink = .file)
    (present : a.path = some path) :
    openSink host a = do
      match ← host.openLog path with
      | .ok () => return .ok ()
      | .error detail => return .error (.io s!"audit log {path}: {detail}") := by
  obtain ⟨sink, path'⟩ := a
  cases file
  cases present
  rfl

/-- A compiler is built as soon as the log is open. -/
theorem buildCompiler_of_validate [LawfulMonad m] (valid : c.validate = .ok ()) :
    buildCompiler host c =
      match c.audit.path with
      | none => pure (.ok ⟨c.registry, c.limits, record host c.audit⟩)
      | some path => do
        match ← host.openLog path with
        | .ok () => return .ok ⟨c.registry, c.limits, record host c.audit⟩
        | .error detail => return .error (.io s!"audit log {path}: {detail}") := by
  have checked := validate_eq_ok_iff_valid.1 valid
  rw [buildCompiler, buildRegistry_of_validate valid]
  by_cases file : c.audit.sink = .file
  · obtain ⟨path, present, -⟩ := checked.logged file
    rw [openSink_of_file host file present, present]
    simp only [bind_assoc]
    refine bind_congr fun outcome => ?_
    cases outcome <;> simp
  · rw [checked.unlogged file, openSink_of_ne_file host file]
    simp

end

/-- A configuration passes its checks exactly if it is valid. Its registry is then built from the
built-in types, which are as they were, and the configured ones; and so is its compiler, unless the
log cannot be opened. -/
theorem validate_iff_valid (c : Config) :
    (c.validate = .ok () ↔ c.Valid) ∧
      (c.validate = .ok () → ∃ r, c.buildRegistry = .ok r ∧
        (∀ name, name ∈ r.names ↔ Registry.isBuiltin name = true ∨ name ∈ c.types) ∧
        (∀ name kind, (name, kind) ∈ Registry.builtinScalars →
          r.get? name = some ⟨name, .scalar kind⟩) ∧
        (∀ (name : String) (shape : Shape), c.types[name]? = some shape →
          r.get? name = some ⟨name, shape⟩) ∧
        ∀ (m : Type → Type) [Monad m] [LawfulMonad m] (host : Host m),
          Program.buildCompiler host c =
            match c.audit.path with
            | none => pure (.ok ⟨r, c.limits, Program.record host c.audit⟩)
            | some path => do
              match ← host.openLog path with
              | .ok () => return .ok ⟨r, c.limits, Program.record host c.audit⟩
              | .error detail => return .error (.io s!"audit log {path}: {detail}")) := by
  refine ⟨validate_eq_ok_iff_valid, ?_⟩
  intro valid
  refine ⟨c.registry, buildRegistry_of_validate valid, ?_, ?_, ?_, ?_⟩
  · intro name
    exact mem_names_iff
  · intro name kind mem
    exact Registry.get?_registry_of_builtin valid mem
  · intro name shape found
    exact get?_registry_of_mem found
  · intro m _ _ host
    exact buildCompiler_of_validate host valid

/-- Persons and their employers, with a log. -/
def employments : Config where
  audit := ⟨.file, some " clauses.jsonl"⟩
  types := .ofList [("Company", Shape.atom),
    ("Person", .record (.ofList [("age", "Integer"), ("employer", "Company")]))]

theorem validate_employments :
    employments.Valid ∧ ∃ r, employments.buildRegistry = .ok r ∧ "Company" ∈ r.names ∧
      r.get? "Integer" = some ⟨"Integer", .scalar .integer⟩ := by
  have accepted : employments.validate = .ok () := rfl
  obtain ⟨valid, built⟩ := validate_iff_valid employments
  obtain ⟨r, registry, names, builtin, -⟩ := built accepted
  have configured : "Company" ∈ employments.types := by decide
  exact ⟨valid.1 accepted, r, registry, (names "Company").2 (.inr configured),
    builtin "Integer" .integer (by decide)⟩

end Config

end HalfBinary
