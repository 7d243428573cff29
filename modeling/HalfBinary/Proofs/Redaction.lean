import HalfBinary.Proofs.Admission
import HalfBinary.Proofs.AuditTrail
import HalfBinary.Proofs.Likeness
import HalfBinary.Proofs.Pieces

/-!
# Texts stay out of audit trails

Two clauses of the same size that differ in nothing but what their text literals say leave the same
event, digests apart (`compile_redacted`). Errors do quote literals, but only their kinds and
positions are logged. Dates and timestamps are the exception: what a text says decides whether it is
one.
-/

namespace HalfBinary

/-- The literal without what a text says. -/
def Literal.redacted : Literal → Literal
  | text _ => text ""
  | null => null
  | boolean value => boolean value
  | integer value => integer value
  | decimal value => decimal value

theorem Literal.eq_or_texts {l l' : Literal} (same : l.redacted = l'.redacted) :
    l = l' ∨ ∃ s s', l = text s ∧ l' = text s' := by
  cases l <;> cases l' <;> simp_all [redacted]

/-- Errors of which the same is logged. -/
structure ClauseError.LoggedAlike (e e' : ClauseError) : Prop where
  kind : e.kind = e'.kind
  offset : e.offset? = e'.offset?

/-- What clauses have in common that differ in their texts. -/
def Likeness.redaction : Likeness where
  shown := Literal.redacted
  same := ClauseError.LoggedAlike
  excused _ := False
  refl _ := ⟨rfl, rfl⟩
  found _ _ _ _ _ := ⟨rfl, rfl⟩

/-- A type without texts of a format of their own. -/
structure TypeDescriptor.Undated (d : TypeDescriptor) : Prop where
  date : d.scalarKind? ≠ some .date
  dateTime : d.scalarKind? ≠ some .dateTime

/-! ### Conditions -/

section

variable {d : TypeDescriptor} (undated : d.Undated)

include undated

/-- Whether a text has a comparator does not depend on what it says. -/
theorem Comparator.resolve_text (op : Operator) (offset : Nat) (s s' : String) :
    Likeness.redaction.Results (fun _ _ => True) (resolve d ⟨op, .text s, offset⟩)
      (resolve d ⟨op, .text s', offset⟩) := by
  rcases kind : d.scalarKind? with _ | kind'
  · simp only [resolve, kind]
    split
    · exact .error ⟨rfl, rfl⟩
    · exact .ok trivial
  cases kind' with
  | text =>
    simp only [resolve, kind]
    exact .ok trivial
  | date => exact (undated.date kind).elim
  | dateTime => exact (undated.dateTime kind).elim
  | integer | decimal | boolean =>
    simp only [resolve, kind]
    split
    · exact .error ⟨rfl, rfl⟩
    · exact .ok trivial

theorem Comparator.resolve_redacted {c c' : Comparison}
    (same : c.mask Literal.redacted = c'.mask Literal.redacted) :
    Likeness.redaction.Results (fun _ _ => True) (resolve d c) (resolve d c') := by
  obtain ⟨op, l, offset⟩ := c
  obtain ⟨op', l', offset'⟩ := c'
  simp only [Comparison.mask, Comparison.mk.injEq] at same
  obtain ⟨rfl, literals, rfl⟩ := same
  rcases Literal.eq_or_texts literals with rfl | ⟨s, s', rfl, rfl⟩
  · exact .of_eq (fun _ => trivial) _
  · exact resolve_text undated op offset s s'

theorem Condition.bind_redacted {t t' : Constraint}
    (same : t.map (Comparison.mask Literal.redacted) = t'.map (Comparison.mask Literal.redacted)) :
    Likeness.redaction.Results (fun _ _ => True) (bind d t) (bind d t') := by
  have comparisons : List.Forall₂
      (fun c c' => c.mask Literal.redacted = c'.mask Literal.redacted)
      t.comparisons t'.comparisons := by
    have listed := congrArg Constraint.comparisons same
    rwa [Constraint.comparisons_map, Constraint.comparisons_map, ← List.forall₂_eq_eq_eq,
      List.forall₂_map_left_iff, List.forall₂_map_right_iff] at listed
  have resolved := Likeness.Results.mapM comparisons
    fun _ _ => Comparator.resolve_redacted undated
  rw [← comparators_bind, ← comparators_bind] at resolved
  exact resolved.of_map fun _ _ _ => trivial

end

/-! ### Predicates -/

namespace Predicate

/-- Predicates of which the same is logged. -/
structure LoggedAlike (p p' : Predicate) : Prop where
  accessor : p.accessor = p'.accessor
  leafCount : p.leafCount = p'.leafCount

theorem ofClause_redacted {clause clause' : Clause} (alike : clause.Alike .redaction clause')
    (undated : clause.accessor.valueType.Undated) (source source' : String) :
    Likeness.redaction.Results LoggedAlike (ofClause clause source) (ofClause clause' source') := by
  obtain ⟨accessor, root⟩ := clause
  obtain ⟨accessor', root'⟩ := clause'
  obtain ⟨rfl, roots⟩ := alike
  rw [ofClause, ofClause]
  apply (Condition.bind_redacted undated roots).bind
  rintro condition condition' - -
  refine .ok ⟨rfl, ?_⟩
  have listed := congrArg (fun t => t.comparisons.length) roots
  simpa [leafCount, Constraint.comparisonCount_eq, Constraint.comparisons_map] using listed

theorem loggedAlike_of_redacted {registry : Registry} {subject : String} (limits : Limits)
    {source source' : String} {stream stream' : TokenStream}
    (size : source.utf8ByteSize = source'.utf8ByteSize)
    (lexed : Token.ofClause source = .ok stream) (lexed' : Token.ofClause source' = .ok stream')
    (same : stream.tokens.map (Located.mask Literal.redacted) =
      stream'.tokens.map (Located.mask Literal.redacted))
    (undated : ∀ a, registry.resolve subject (Token.clausePath stream.words) = .ok a →
      a.valueType.Undated) :
    Likeness.redaction.Results LoggedAlike (compile registry subject limits source)
      (compile registry subject limits source') := by
  have stop : stream.stop = source.utf8ByteSize := by
    obtain ⟨-, -, -, -, rfl⟩ := Token.ofClause_eq_ok_iff.1 lexed
    rfl
  have stop' : stream'.stop = source'.utf8ByteSize := by
    obtain ⟨-, -, -, -, rfl⟩ := Token.ofClause_eq_ok_iff.1 lexed'
    rfl
  have streams : Clause.StreamsAlike .redaction registry registry subject stream stream' :=
    ⟨by rw [stop, stop', size], same, .of_eq (fun _ => rfl) _⟩
  have parsed : Likeness.redaction.Results (Clause.Alike .redaction)
      (Clause.parse registry subject limits source)
      (Clause.parse registry subject limits source') := by
    apply Clause.parse_alike limits size
    rw [lexed, lexed']
    exact .ok streams
  apply parsed.bind
  intro clause clause' read alike
  refine ofClause_redacted alike (undated _ ?_) source source'
  obtain ⟨-, stream₁, lexed₁, accepted⟩ := Clause.parse_eq_ok_iff.1 read
  cases lexed.symm.trans lexed₁
  obtain ⟨-, -, -, -, resolved, -⟩ := Clause.ofTokens_eq_ok_iff.1 accepted
  exact resolved

end Predicate

/-! ### Events -/

/-- Of an event, the digest and the time are in fields of their own. -/
theorem AuditEvent.field?_toJson_of_ne (e : AuditEvent) (digest : Digest) (time time' : Nat)
    {name : String} (other : name ≠ "clause_digest") (other' : name ≠ "timestamp_ms") :
    ({ e with digest }.toJson time').field? name = (e.toJson time).field? name := by
  have skip : (name == "clause_digest") = false := beq_false_of_ne other
  have skip' : (name == "timestamp_ms") = false := beq_false_of_ne other'
  simp only [toJson, Json.field?, List.cons_append, List.lookup_cons, skip, skip']

namespace Compiler

theorem Call.digest_event (call : Call) (registry : Registry) (limits : Limits) :
    (call.event registry limits).digest = .ofText call.source := by
  rw [event]
  rcases answered : call.answer registry limits with e | p
  · rfl
  · obtain ⟨-, -, source⟩ := Predicate.compile_eq_ok_iff.1 answered
    rw [AuditEvent.ofResult, Predicate.digest, source]

theorem Call.event_redacted {call call' : Call} {registry : Registry} {limits : Limits}
    (subject : call.subject = call'.subject)
    (size : call.source.utf8ByteSize = call'.source.utf8ByteSize)
    (alike : Likeness.redaction.Results Predicate.LoggedAlike (call.answer registry limits)
      (call'.answer registry limits)) :
    call'.event registry limits =
      { call.event registry limits with digest := .ofText call'.source } := by
  have digest := call'.digest_event registry limits
  rw [event] at digest ⊢
  rw [event, ← digest]
  generalize call.answer registry limits = answer at alike ⊢
  generalize call'.answer registry limits = answer' at alike ⊢
  cases alike with
  | ok same =>
    simp only [AuditEvent.ofResult, subject, size, same.accessor, same.leafCount]
  | error same =>
    simp only [AuditEvent.ofResult, subject, size, same.kind, same.offset]
  | excused excuse => exact excuse.elim

/-- Of two clauses of the same size whose tokens differ in nothing but what texts say, the events
differ in nothing but the digests, and so do their lines in a log but for the times, whether the
clauses compile or not. The path of the clauses must not lead to a date or a timestamp. -/
theorem compile_redacted (registry : Registry) (limits : Limits) (subject : String)
    {source source' : String} {stream stream' : TokenStream}
    (size : source.utf8ByteSize = source'.utf8ByteSize)
    (lexed : Token.ofClause source = .ok stream) (lexed' : Token.ofClause source' = .ok stream')
    (same : stream.tokens.map (Located.mask Literal.redacted) =
      stream'.tokens.map (Located.mask Literal.redacted))
    (undated : ∀ a, registry.resolve subject (Token.clausePath stream.words) = .ok a →
      a.valueType.Undated)
    (received : Array AuditEvent) :
    ∃ event event',
      (((recording registry limits).compile subject source).run received).2 =
          received.push event ∧
        (((recording registry limits).compile subject source').run received).2 =
          received.push event' ∧
        event' = { event with digest := .ofText source' } ∧
        ∀ time time' name, name ≠ "clause_digest" → name ≠ "timestamp_ms" →
          (event'.toJson time').field? name = (event.toJson time).field? name := by
  have alike := Predicate.loggedAlike_of_redacted limits size lexed lexed' same undated
  have event := @Call.event_redacted ⟨subject, source⟩ ⟨subject, source'⟩ registry limits rfl size
    alike
  refine ⟨_, _, rfl, rfl, event, ?_⟩
  intro time time' name other other'
  exact (congrArg (fun e => (AuditEvent.toJson time' e).field? name) event).trans
    (AuditEvent.field?_toJson_of_ne _ _ time time' other other')

/-- The second text is where none is expected. The error quotes it, and the event does not. -/
theorem compile_redacted_quoted :
    ∃ event event',
      (((recording .builtin {}).compile "String" "== \"ab\" \"cd\"").run #[]).2 = #[event] ∧
        (((recording .builtin {}).compile "String" "== \"xy\" 'z\"'").run #[]).2 = #[event'] ∧
        event' = { event with digest := .ofText "== \"xy\" 'z\"'" } ∧
        Predicate.compile .builtin "String" {} "== \"ab\" \"cd\"" =
          .error (.unexpectedToken "`&&`, `||`, or end of input" "\"cd\"" 8) ∧
        Predicate.compile .builtin "String" {} "== \"xy\" 'z\"'" =
          .error (.unexpectedToken "`&&`, `||`, or end of input" "\"z\\\"\"" 8) := by
  have lexed : Token.ofClause "== \"ab\" \"cd\"" =
      .ok ⟨[⟨.operator .eq, 0⟩, ⟨.literal (.text "ab"), 3⟩, ⟨.literal (.text "cd"), 8⟩], 12⟩ := by
    cbv
  have lexed' : Token.ofClause "== \"xy\" 'z\"'" =
      .ok ⟨[⟨.operator .eq, 0⟩, ⟨.literal (.text "xy"), 3⟩, ⟨.literal (.text "z\""), 8⟩], 12⟩ := by
    cbv
  have resolved : Registry.builtin.resolve "String" ⟨[]⟩ =
      .ok ⟨⟨[]⟩, "String", [], ⟨"String", .scalar .text⟩⟩ := by cbv
  obtain ⟨event, event', recorded, recorded', same, -⟩ :=
    compile_redacted .builtin {} "String" (by decide) lexed lexed' rfl
      (by
        intro a resolved'
        cases resolved.symm.trans resolved'
        exact ⟨by decide, by decide⟩)
      #[]
  exact ⟨event, event', recorded, recorded', same, by cbv, by cbv⟩

end Compiler

end HalfBinary
