import Mathlib
import HalfBinary.Host.Disk
import HalfBinary.Program

/-!
# Runs on a disk

What loading, compiling and reading leave as it is, and when a clause of the command line compiles
(`run_compile_eq_ok_iff`). Nothing is printed before a command is done.
-/

namespace HalfBinary

theorem fromUTF8?_eq_some_iff {bytes : ByteArray} {text : String} :
    String.fromUTF8? bytes = some text ↔ bytes = text.toUTF8 := by
  rw [String.fromUTF8?]
  split
  · next valid =>
    rw [Option.some.injEq, ← String.toByteArray_inj]
    exact Iff.rfl
  · next invalid =>
    constructor
    · intro h
      cases h
    · rintro rfl
      exact absurd text.isValidUTF8 invalid

/-! ### What actions keep -/

/-- The action does not change this part of the disk. -/
def Disk.Keeps {α β : Type} (part : Disk → β) (action : StateM Disk α) : Prop :=
  ∀ d, part (action.run d).2 = part d

namespace Disk

variable {α β γ : Type} {part : Disk → γ}

theorem keeps_pure (a : α) : Keeps part (pure a) := fun _ => rfl

theorem Keeps.bind {action : StateM Disk α} {next : α → StateM Disk β} (first : Keeps part action)
    (others : ∀ a, Keeps part (next a)) : Keeps part (action >>= next) := by
  intro d
  exact (others _ _).trans (first d)

theorem keeps_isPresent (path : String) : Keeps part (host.isPresent path) := fun _ => rfl

theorem keeps_readFile (path : String) (maxBytes : Nat) :
    Keeps part (host.readFile path maxBytes) := fun _ => rfl

theorem out_of_openLog {d d' : Disk} {path : String} (opened : d.openLog path = .ok d') :
    d'.out = d.out := by
  rw [openLog] at opened
  split at opened
  · cases opened
  · split at opened
    · cases opened
    · cases opened
      rfl

theorem keeps_openLog (path : String) : Keeps out (host.openLog path) := by
  intro d
  rcases opened : d.openLog path with detail | d'
  · have step : (host.openLog path).run d = (.error detail, d) := by
      simp only [host, StateT.run_bind, StateT.run_get, pure_bind, opened]
      rfl
    rw [step]
  · have step : (host.openLog path).run d = (.ok (), d') := by
      simp only [host, StateT.run_bind, StateT.run_get, pure_bind, opened]
      rfl
    rw [step]
    exact out_of_openLog opened

theorem keeps_appendLog (path text : String) : Keeps out (host.appendLog path text) := by
  intro d
  show (d.appendLog path text).out = d.out
  rw [appendLog]
  split
  · rfl
  · split <;> rfl

theorem keeps_writeErr (text : String) : Keeps out (host.writeErr text) := fun _ => rfl

/-! ### Files -/

/-- The bytes that can be read at a path; the null device has none. -/
def content? (d : Disk) (path : String) : Option ByteArray :=
  match (d.resolve path).bind fun names => d.entries[names]? with
  | some (.file bytes) => some bytes
  | some .null => some ByteArray.empty
  | _ => none

theorem readFile_eq_ok_iff {d : Disk} {path : String} {maxBytes : Nat} {bytes : ByteArray} :
    d.readFile path maxBytes = .ok bytes ↔
      d.content? path = some bytes ∧ bytes.size ≤ maxBytes := by
  rw [readFile, content?]
  rcases (d.resolve path).bind fun names => d.entries[names]? with _ | _ | found | _
  · simp
  · simp
  · by_cases large : maxBytes < found.size
    · simp only [if_pos large, Option.some.injEq, reduceCtorEq, false_iff, not_and, Nat.not_le]
      rintro rfl
      exact large
    · simp only [if_neg large, Option.some.injEq, Except.ok.injEq]
      constructor
      · rintro rfl
        exact ⟨rfl, Nat.not_lt.1 large⟩
      · exact And.left
  · simp only [Except.ok.injEq, Option.some.injEq]
    constructor
    · rintro rfl
      exact ⟨rfl, Nat.zero_le _⟩
    · exact And.left

/-- A name of no special meaning is looked up in the working directory. -/
theorem resolve_of_name (d : Disk) {name : String} (short : name.utf8ByteSize ≤ maxNameBytes)
    (special : name ≠ "" ∧ name ≠ "." ∧ name ≠ "..")
    (plain : '/' ∉ name.toList ∧ '\x00' ∉ name.toList) : d.resolve name = some [name] := by
  have filled : name.isEmpty = false := by simpa using special.1
  have printed : name.contains '\x00' = false := by simpa using plain.2
  have fits : ¬ maxPathBytes < name.utf8ByteSize := by
    simp only [maxNameBytes, maxPathBytes] at short ⊢
    omega
  have relative : ¬ name.startsWith "/" = true := by
    rw [String.startsWith_string_iff]
    rintro ⟨rest, same⟩
    exact plain.1 (by simp [← same])
  have part : parts name = [name] := by
    rw [parts, List.splitOn_eq_splitOnP, List.splitOnP_eq_singleton]
    · simp
    · intro c mem
      exact beq_false_of_ne fun slash => plain.1 (slash ▸ mem)
  rw [resolve, if_neg (by simp [filled, printed, fits]), part, if_neg relative]
  simp [follow, isDirectory, isOutward, special, Nat.not_lt.2 short]

end Disk

namespace Program

open Disk (Keeps)

/-! ### Configurations -/

theorem keeps_readConfig {γ : Type} {part : Disk → γ} (path : String) :
    Keeps part (readConfig Disk.host path) := by
  rw [readConfig]
  split
  · exact Disk.keeps_pure _
  · apply (Disk.keeps_readFile path _).bind
    intro r
    split <;> exact Disk.keeps_pure _

theorem keeps_loadConfig {γ : Type} {part : Disk → γ} (env named : Option String) :
    Keeps part (loadConfig Disk.host env named) := by
  rcases named with _ | path
  · rcases env with _ | path
    · exact keeps_readConfig _
    · rw [loadConfig]
      split
      · exact Disk.keeps_pure _
      · exact keeps_readConfig _
  · exact keeps_readConfig _

theorem keeps_loadConfigOrDefault {γ : Type} {part : Disk → γ} (env named : Option String) :
    Keeps part (loadConfigOrDefault Disk.host env named) := by
  rw [loadConfigOrDefault]
  apply (Disk.keeps_isPresent defaultConfig).bind
  intro present
  split
  · exact Disk.keeps_pure _
  · exact keeps_loadConfig env named

theorem keeps_openSink (a : AuditSettings) : Keeps Disk.out (openSink Disk.host a) := by
  rw [openSink]
  split
  · apply (Disk.keeps_openLog _).bind
    intro r
    split <;> exact Disk.keeps_pure _
  · exact Disk.keeps_pure _
  · exact Disk.keeps_pure _

theorem keeps_record (a : AuditSettings) (event : AuditEvent) :
    Keeps Disk.out (record Disk.host a event) := by
  rw [record]
  apply Keeps.bind (fun _ => rfl)
  intro time
  split
  · exact Disk.keeps_writeErr _
  · exact Disk.keeps_appendLog _ _
  · exact Disk.keeps_pure _

/-! ### Clauses -/

/-- The clause of the options has a predicate: the configuration loads, its log opens and the clause
compiles under it. The event of the clause is on record afterwards. -/
inductive Compiles (d : Disk) (env : Option String) (o : ClauseOptions) (p : Predicate)
    (after : Disk) : Prop
  | intro {config : Config} {registry : Registry} {opened : Disk}
      (loads : ((loadConfigOrDefault Disk.host env o.config).run d).1 = .ok config)
      (types : config.buildRegistry = .ok registry)
      (opens : (openSink Disk.host config.audit).run d = (.ok (), opened))
      (compiles : Predicate.compile registry o.subject config.limits o.clause = .ok p)
      (recorded : ((record Disk.host config.audit (.ofResult o.subject o.clause (.ok p))).run
        opened).2 = after)

theorem run_compile (d : Disk) (env : Option String) (o : ClauseOptions) :
    (compile Disk.host env o).run d =
      match ((loadConfigOrDefault Disk.host env o.config).run d).1 with
      | .error e => (.error (.config e), d)
      | .ok config =>
        match config.buildRegistry with
        | .error violation => (.error (.config (.invalid violation)), d)
        | .ok registry =>
          match (openSink Disk.host config.audit).run d with
          | (.error e, opened) => (.error (.config e), opened)
          | (.ok (), opened) =>
            let result := Predicate.compile registry o.subject config.limits o.clause
            (result.mapError .rejected, ((record Disk.host config.audit
              (.ofResult o.subject o.clause result)).run opened).2) := by
  have kept : ((loadConfigOrDefault Disk.host env o.config).run d).2 = d :=
    @keeps_loadConfigOrDefault _ id env o.config d
  rw [compile, StateT.run_bind]
  rcases loaded : (loadConfigOrDefault Disk.host env o.config).run d with ⟨r, d'⟩
  rw [loaded] at kept
  obtain rfl : d' = d := kept
  rcases r with e | config
  · rfl
  · show (StateT.run (buildCompiler Disk.host config >>= _) d') = _
    rw [StateT.run_bind, buildCompiler]
    dsimp only
    rcases config.buildRegistry with violation | registry
    · rfl
    · dsimp only
      rw [StateT.run_bind]
      rcases (openSink Disk.host config.audit).run d' with ⟨e | ⟨⟩, opened⟩
      · rfl
      · rfl

theorem run_compile_eq_ok_iff {d after : Disk} {env : Option String} {o : ClauseOptions}
    {p : Predicate} :
    (compile Disk.host env o).run d = (.ok p, after) ↔ Compiles d env o p after := by
  rw [run_compile]
  constructor
  · intro h
    rcases loads : ((loadConfigOrDefault Disk.host env o.config).run d).1 with e | config
    · rw [loads] at h
      cases h
    simp only [loads] at h
    rcases types : config.buildRegistry with violation | registry
    · rw [types] at h
      cases h
    simp only [types] at h
    rcases opens : (openSink Disk.host config.audit).run d with ⟨e | ⟨⟩, opened⟩
    · rw [opens] at h
      cases h
    simp only [opens] at h
    rcases compiles : Predicate.compile registry o.subject config.limits o.clause with e | q
    · rw [compiles] at h
      cases h
    · rw [compiles] at h
      cases h
      exact .intro loads types opens compiles rfl
  · intro h
    cases h with
    | intro loads types opens compiles recorded =>
      simp only [loads, types, opens, compiles, recorded]
      rfl

theorem keeps_compile (env : Option String) (o : ClauseOptions) :
    Keeps Disk.out (compile Disk.host env o) := by
  intro d
  rw [run_compile]
  rcases ((loadConfigOrDefault Disk.host env o.config).run d).1 with e | config
  · rfl
  dsimp only
  rcases config.buildRegistry with violation | registry
  · rfl
  have kept := keeps_openSink config.audit d
  dsimp only
  rcases opens : (openSink Disk.host config.audit).run d with ⟨e | ⟨⟩, opened⟩
  · rw [opens] at kept
    exact kept
  · rw [opens] at kept
    exact (keeps_record config.audit _ opened).trans kept

/-- Compiling prints nothing. -/
theorem Compiles.out_eq {d after : Disk} {env : Option String} {o : ClauseOptions} {p : Predicate}
    (compiles : Compiles d env o p after) : after.out = d.out := by
  have kept := keeps_compile env o d
  rwa [run_compile_eq_ok_iff.2 compiles] at kept

/-! ### Without a configuration -/

theorem loadConfigOrDefault_of_absent {d : Disk} (absent : d.isPresent defaultConfig = false) :
    ((loadConfigOrDefault Disk.host none none).run d).1 = .ok {} := by
  have step : (Disk.host.isPresent defaultConfig).run d = (false, d) := congrArg (·, d) absent
  rw [loadConfigOrDefault, StateT.run_bind, step]
  rfl

theorem buildRegistry_default : ({} : Config).buildRegistry = .ok .builtin := by
  have targets : ({} : Config).checkTargets = .ok () := rfl
  have none : ({} : Config).descriptors = [] := rfl
  rw [Config.buildRegistry, targets, Config.registry, none, List.foldl_nil]
  rfl

/-- Without a configuration the built-in types are there, and nothing is recorded. -/
theorem compiles_of_absent {d : Disk} {subject clause : String} {p : Predicate}
    (absent : d.isPresent defaultConfig = false)
    (compiled : Predicate.compile .builtin subject {} clause = .ok p) :
    Compiles d none ⟨none, subject, clause⟩ p d :=
  .intro (loadConfigOrDefault_of_absent absent) buildRegistry_default rfl compiled rfl

end Program

end HalfBinary
