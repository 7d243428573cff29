import Mathlib
import HalfBinary.Compiler
import HalfBinary.Proofs.Meaning

/-!
# Audit trails

A compiler that is given clauses one after another answers each as if it were the only one, and
sends one event for each of them. The event of a clause holds its subject, its size and its digest,
and what became of it (`compileAll_logged`).
-/

namespace HalfBinary

/-- The operators of a clause that compiles are the comparisons of its tree. -/
theorem Predicate.exists_leafCount_eq {registry : Registry} {subject source : String}
    {limits : Limits} {p : Predicate} (h : compile registry subject limits source = .ok p) :
    ∃ stream, Token.ofClause source = .ok stream ∧
      p.leafCount = Token.operatorCount stream.words := by
  obtain ⟨parsed, -, -⟩ := compile_eq_ok_iff.1 h
  obtain ⟨-, stream, lexed, accepted⟩ := Clause.parse_eq_ok_iff.1 parsed
  obtain ⟨d, spelled, -, -, -, -, root⟩ := Clause.ofTokens_eq_ok_iff.1 accepted
  have words : stream.words = d.words := by
    rw [Derivation.words, spelled]
    rfl
  have leaves : p.tree.comparisons = d.comparisons := Derivation.comparisons_of_tree_eq root
  refine ⟨stream, lexed, ?_⟩
  rw [leafCount, Constraint.comparisonCount_eq, leaves, words, Derivation.operatorCount_words]

namespace Compiler

/-- A clause that a compiler is given. -/
structure Call where
  subject : String
  source : String

namespace Call

/-- What a log says of a clause that was answered in a given way. -/
structure Logged (call : Call) (answer : Except ClauseError Predicate) (row : Json) : Prop where
  subject : row.field? "subject_type" = some (.text call.subject)
  size : row.field? "clause_bytes" = some (.nat call.source.utf8ByteSize)
  digest : row.field? "clause_digest" = some (.object
    [("algorithm", .text "sha256"), ("value", .text (Sha256.hex call.source.toUTF8))])
  compiled : ∀ p, answer = .ok p →
    row.field? "event" = some (.text "clause_compiled") ∧
      row.field? "outcome" = some (.text "compiled") ∧
      row.field? "accessor" = some (.text p.accessor.path.render) ∧
      (∃ stream, Token.ofClause call.source = .ok stream ∧
        row.field? "leaf_count" = some (.nat (Token.operatorCount stream.words))) ∧
      row.field? "error_kind" = some .null ∧ row.field? "error_offset" = some .null
  rejected : ∀ e, answer = .error e →
    row.field? "event" = some (.text "clause_rejected") ∧
      row.field? "outcome" = some (.text "rejected") ∧
      row.field? "accessor" = some .null ∧ row.field? "leaf_count" = some .null ∧
      row.field? "error_kind" = some (.text e.kind) ∧
      row.field? "error_offset" = some (.ofOption .nat e.offset?)

/-- How the clause is answered. -/
def answer (call : Call) (registry : Registry) (limits : Limits) : Except ClauseError Predicate :=
  Predicate.compile registry call.subject limits call.source

/-- The event of the clause. -/
def event (call : Call) (registry : Registry) (limits : Limits) : AuditEvent :=
  .ofResult call.subject call.source (call.answer registry limits)

theorem logged_event (call : Call) (registry : Registry) (limits : Limits) (time : Nat) :
    call.Logged (call.answer registry limits) ((call.event registry limits).toJson time) := by
  rw [event]
  rcases answered : call.answer registry limits with e | p
  · refine ⟨rfl, rfl, rfl, nofun, ?_⟩
    intro e' same
    cases same
    exact ⟨rfl, rfl, rfl, rfl, rfl, rfl⟩
  · obtain ⟨-, -, source⟩ := Predicate.compile_eq_ok_iff.1 answered
    obtain ⟨stream, lexed, count⟩ := Predicate.exists_leafCount_eq answered
    have digest : p.digest = .ofText call.source := by rw [Predicate.digest, source]
    rw [AuditEvent.ofResult, digest, count]
    refine ⟨rfl, rfl, rfl, ?_, nofun⟩
    intro p' same
    cases same
    exact ⟨rfl, rfl, rfl, ⟨stream, lexed, rfl⟩, rfl, rfl⟩

end Call

/-- Compiles one clause after another. -/
def compileAll {m : Type → Type} [Monad m] (c : Compiler m) (calls : List Call) :
    m (List (Except ClauseError Predicate)) :=
  calls.mapM fun call => c.compile call.subject call.source

/-- Whatever the sink does with events, it is given those of the clauses in their order, and changes
no answer. -/
theorem compileAll_eq {m : Type → Type} [Monad m] [LawfulMonad m] (c : Compiler m)
    (calls : List Call) :
    c.compileAll calls = do
      (calls.map fun call => call.event c.registry c.limits).forM c.sink
      return calls.map fun call => call.answer c.registry c.limits := by
  induction calls with
  | nil => simp [compileAll]
  | cons call calls ih =>
    rw [compileAll] at ih ⊢
    rw [List.mapM_cons, ih]
    simp [compile, Call.event, Call.answer]

/-- A recording compiler keeps what was there and adds the events in their order. -/
theorem run_forM_push (events : List AuditEvent) (received : Array AuditEvent) :
    ((events.forM fun event => modify (·.push event) : StateM (Array AuditEvent) PUnit)).run
      received = (⟨⟩, received ++ events) := by
  induction events generalizing received with
  | nil =>
    rw [Array.appendList_nil]
    rfl
  | cons event events ih =>
    rw [Array.appendList_cons]
    exact ih (received.push event)

/-- The clauses are answered as each would be alone. One event is recorded for each of them, in
their order, and another sink is given the same events. -/
theorem compileAll_logged (registry : Registry) (limits : Limits) (calls : List Call)
    (received : Array AuditEvent) :
    ∃ events : List AuditEvent,
      ((recording registry limits).compileAll calls).run received =
          (calls.map fun call => Predicate.compile registry call.subject limits call.source,
            received ++ events) ∧
        List.Forall₂
          (fun call event => ∀ time,
            call.Logged (Predicate.compile registry call.subject limits call.source)
              (event.toJson time))
          calls events ∧
        ∀ (m : Type → Type) [Monad m] [LawfulMonad m] (sink : AuditEvent → m Unit),
          (⟨registry, limits, sink⟩ : Compiler m).compileAll calls = do
            events.forM sink
            return calls.map fun call =>
              Predicate.compile registry call.subject limits call.source := by
  refine ⟨calls.map (·.event registry limits), ?_, ?_, ?_⟩
  · rw [compileAll_eq, StateT.run_bind, recording, run_forM_push]
    rfl
  · rw [List.forall₂_map_right_iff, List.forall₂_same]
    intro call _
    exact call.logged_event registry limits
  · intro m _ _ sink
    exact compileAll_eq ⟨registry, limits, sink⟩ calls

theorem compileAll_logged_chain :
    ∃ chain cut,
      (((recording .builtin {}).compileAll
        [⟨"Integer", "this == 1 || == 2"⟩, ⟨"Integer", "(== 1"⟩]).run #[]).2 = #[chain, cut] ∧
      ∀ time,
        (chain.toJson time).field? "event" = some (.text "clause_compiled") ∧
        (chain.toJson time).field? "accessor" = some (.text "this") ∧
        (cut.toJson time).field? "event" = some (.text "clause_rejected") ∧
        (cut.toJson time).field? "error_kind" = some (.text "unmatched_paren") ∧
        (cut.toJson time).field? "error_offset" = some (.nat 0) := by
  let tree := Constraint.chain .or [.leaf ⟨.eq, .integer 1, 5⟩, .leaf ⟨.eq, .integer 2, 13⟩]
  let condition := Condition.chain .or [.leaf ⟨.eq, .integer 1⟩, .leaf ⟨.eq, .integer 2⟩]
  let accessor : ResolvedAccessor := ⟨⟨[]⟩, "Integer", [], ⟨"Integer", .scalar .integer⟩⟩
  have compiled : Predicate.compile .builtin "Integer" {} "this == 1 || == 2" =
      .ok ⟨"this == 1 || == 2", accessor, tree, condition⟩ := by cbv
  have rejected : Predicate.compile .builtin "Integer" {} "(== 1" = .error (.unmatchedParen 0) := by
    cbv
  obtain ⟨events, run, logged, -⟩ := compileAll_logged .builtin {}
    [⟨"Integer", "this == 1 || == 2"⟩, ⟨"Integer", "(== 1"⟩] #[]
  obtain ⟨chain, others, whole, later, rfl⟩ := List.forall₂_cons_left_iff.1 logged
  obtain ⟨cut, last, part, none, rfl⟩ := List.forall₂_cons_left_iff.1 later
  obtain rfl := List.forall₂_nil_left_iff.1 none
  refine ⟨chain, cut, by rw [run]; rfl, ?_⟩
  intro time
  obtain ⟨event, -, path, -⟩ := (whole time).compiled _ compiled
  obtain ⟨event', -, -, -, kind, offset⟩ := (part time).rejected _ rejected
  exact ⟨event, path, event', kind, offset⟩

end Compiler

end HalfBinary
