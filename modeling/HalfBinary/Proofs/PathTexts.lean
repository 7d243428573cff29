import Mathlib
import HalfBinary.Audit
import HalfBinary.Proofs.NormalForm
import HalfBinary.Proofs.Positions

/-!
# The texts of paths

The text of a path is read as the path again, unless its first segment is `this`. The fact itself is
written as `this`, and so is its property of this name, which `this.this` leads to; all other paths
have texts of their own (`render_identifies`).
-/

namespace HalfBinary

/-! ### Paths of a clause -/

/-- A token that a clause is lexed to has been spelled. -/
theorem Token.exists_spelling_of_mem {s : String} {stream : TokenStream}
    (lexed : ofClause s = .ok stream) {token : Token} (mem : token ∈ stream.words) :
    ∃ lexeme more, Spelling lexeme token more := by
  obtain ⟨ps, legible, -, -, rfl⟩ := ofClause_eq_ok_iff.1 lexed
  have mem : token ∈ Piece.words ps := by
    rw [← Piece.map_token_located 0 ps]
    exact mem
  obtain ⟨piece, among, same⟩ := List.mem_filterMap.1 mem
  cases piece with
  | blank _ => cases same
  | word _ lexeme =>
    cases same
    exact ⟨lexeme, legible.exists_spelling among⟩

theorem Token.exists_isPath_of_mem {s : String} {stream : TokenStream}
    (lexed : ofClause s = .ok stream) {segments : List String}
    (mem : accessor segments ∈ stream.words) : ∃ lexeme, IsPath segments lexeme := by
  obtain ⟨lexeme, more, spelled⟩ := exists_spelling_of_mem lexed mem
  exact ⟨lexeme, (spelled.reads (.nil more)).1⟩

/-- The paths that a clause of some words can bind: that of the fact itself and those that its
accessors name. -/
def Token.MayBind (words : List Token) (path : AccessorPath) : Prop :=
  path = ⟨[]⟩ ∨ path ∈ paths words

/-- The path of a clause is one that it can bind. -/
theorem Token.mayBind_clausePath (words : List Token) : MayBind words (clausePath words) := by
  induction words with
  | nil => exact .inl rfl
  | cons w words ih =>
    cases w with
    | accessor segments => exact .inr List.mem_cons_self
    | operator op => exact .inl rfl
    | connective _ | openParen | closeParen | literal _ => exact ih

namespace AccessorPath

variable {p q : AccessorPath}

/-- A path whose segments are identifiers. -/
def Nameable (p : AccessorPath) : Prop :=
  ∀ segment ∈ p.segments, Text.isIdentifier segment.toList = true

theorem nameable_self : Nameable ⟨[]⟩ := List.forall_mem_nil _

theorem nameable_ofSegments {segments : List String}
    (identifiers : ∀ s ∈ segments, Text.isIdentifier s.toList = true) :
    (ofSegments segments).Nameable := by
  cases segments with
  | nil => exact nameable_self
  | cons first others =>
    rw [ofSegments]
    split
    · exact fun s mem => identifiers s (List.mem_cons_of_mem _ mem)
    · exact identifiers

/-- The paths that a clause can bind have identifiers for segments. -/
theorem nameable_of_mayBind {s : String} {stream : TokenStream}
    (lexed : Token.ofClause s = .ok stream) (binds : Token.MayBind stream.words p) :
    p.Nameable := by
  rcases binds with rfl | mem
  · exact nameable_self
  · obtain ⟨token, among, path⟩ := List.mem_filterMap.1 mem
    cases token with
    | accessor segments =>
      cases path
      obtain ⟨_, -, identifiers, -⟩ := Token.exists_isPath_of_mem lexed among
      exact nameable_ofSegments identifiers
    | operator _ | connective _ | openParen | closeParen | literal _ => cases path

/-! ### Texts of paths -/

theorem isPath_written (nameable : p.Nameable) : IsPath p.written p.render.toList := by
  obtain ⟨segments⟩ := p
  cases segments with
  | nil => exact ⟨List.cons_ne_nil _ _, List.forall_mem_singleton.2 rfl, rfl⟩
  | cons first others => exact ⟨List.cons_ne_nil _ _, nameable, rfl⟩

/-- What stands between the points of the text are the segments that are written for the path. -/
theorem splitOn_render (nameable : p.Nameable) :
    (p.render.toList.splitOn '.').map String.ofList = p.written := by
  obtain ⟨first, others, start, identifiers, text, written⟩ := (isPath_written nameable).exists_eq
  rw [text, written, Bytewise.splitOn_pointed (List.forall_mem_cons.2 ⟨start, identifiers⟩),
    List.map_cons]

theorem ofText_render (nameable : p.Nameable) : ofText p.render = ofSegments p.written := by
  rw [ofText, splitOn_render nameable]

/-- The segments that are written for a path are read as the path if they do not start with a second
`this`. -/
theorem ofSegments_written_iff : ofSegments p.written = p ↔ p.segments.head? ≠ some self := by
  obtain ⟨segments⟩ := p
  cases segments with
  | nil => simp [written, isIdentity, ofSegments]
  | cons first others =>
    have written : written ⟨first :: others⟩ = first :: others := rfl
    rw [written, ofSegments, mk.injEq]
    by_cases again : first = self
    · simp [again]
    · simp [again]

/-- One path is that of the fact itself and the other that of its property `this`. -/
def Confused (p q : AccessorPath) : Prop :=
  (p = ⟨[]⟩ ∧ q = ⟨[self]⟩) ∨ (p = ⟨[self]⟩ ∧ q = ⟨[]⟩)

theorem eq_or_confused_of_written_eq (same : p.written = q.written) : p = q ∨ Confused p q := by
  obtain ⟨segments⟩ := p
  obtain ⟨segments'⟩ := q
  cases segments with
  | nil =>
    cases segments' with
    | nil => exact .inl rfl
    | cons first others =>
      have same : [self] = first :: others := same
      exact .inr (.inl ⟨rfl, by rw [← same]⟩)
  | cons first others =>
    cases segments' with
    | nil =>
      have same : first :: others = [self] := same
      exact .inr (.inr ⟨by rw [same], rfl⟩)
    | cons first' others' => exact .inl (congrArg mk same)

/-- Paths of one text are the same, or one is the fact itself and the other its property `this`. -/
theorem render_eq_iff (nameable : p.Nameable) (nameable' : q.Nameable) :
    p.render = q.render ↔ p = q ∨ Confused p q := by
  constructor
  · intro same
    refine eq_or_confused_of_written_eq ?_
    rw [← splitOn_render nameable, ← splitOn_render nameable', same]
  · rintro (rfl | ⟨rfl, rfl⟩ | ⟨rfl, rfl⟩) <;> rfl

/-- A path starts with `this` if it was written with two of them. -/
theorem head?_ofSegments_eq_self_iff {segments : List String} :
    (ofSegments segments).segments.head? = some self ↔ [self, self] <+: segments := by
  cases segments with
  | nil => simp [ofSegments]
  | cons first others =>
    rw [ofSegments, List.cons_prefix_cons]
    by_cases again : first = self
    · cases others with
      | nil => simp [again]
      | cons second others => simp [again, eq_comm]
    · simp [again, Ne.symm again]

/-- Only `this.this` names the property `this` of the fact. -/
theorem mem_of_mayBind_self {words : List Token} (binds : Token.MayBind words ⟨[self]⟩) :
    .accessor [self, self] ∈ words := by
  rcases binds with nothing | mem
  · cases nothing
  · obtain ⟨token, among, path⟩ := List.mem_filterMap.1 mem
    cases token with
    | accessor segments =>
      cases segments with
      | nil => cases path
      | cons first others =>
        have path : ofSegments (first :: others) = ⟨[self]⟩ := Option.some.inj path
        rw [ofSegments, mk.injEq] at path
        split at path
        · next again => rwa [again, path] at among
        · next other => exact absurd (List.cons.inj path).1 other
    | operator _ | connective _ | openParen | closeParen | literal _ => cases path

end AccessorPath

/-! ### Paths that are bound -/

namespace Clause

variable {ctx : Context} {P : AccessorPath → Prop}

/-- The path that is bound at a position has a property, and so have those that accessors name
behind it. -/
structure Cursor.Binds (P : AccessorPath → Prop) (s : Cursor) : Prop where
  bound : ∀ a, s.accessor = some a → P a.path
  ahead : ∀ path ∈ Token.paths (s.rest.map (·.token)), P path

theorem path_of_bind {b : Option ResolvedAccessor} {path : AccessorPath} {offset : Nat}
    {a : ResolvedAccessor} (h : ctx.bind b path offset = .ok a) : a.path = path := by
  unfold Context.bind at h
  split at h
  · exact resolve_path h
  · split at h
    · next same =>
      cases h
      exact same
    · cases h

/-- What a token binds is the fact itself, what was bound before, or the path of the token. -/
theorem bound_of_pass (self : P ⟨[]⟩) {b b' : Tally} {k : Located} (pass : ctx.pass b k = .ok b')
    (bound : ∀ a, b.accessor = some a → P a.path)
    (named : ∀ path, k.token.path? = some path → P path) :
    ∀ a, b'.accessor = some a → P a.path := by
  obtain ⟨token, offset⟩ := k
  cases token with
  | accessor segments =>
    obtain ⟨a, binds, rfl⟩ := pass_accessor_iff.1 pass
    rintro _ ⟨⟩
    rw [path_of_bind binds]
    exact named _ rfl
  | operator op =>
    obtain ⟨a, elided, -, rfl⟩ := pass_operator_iff.1 pass
    rintro _ ⟨⟩
    unfold Context.elided at elided
    split at elided
    · rw [resolve_path elided]
      exact self
    · next before =>
      cases elided
      exact bound a before
  | openParen =>
    obtain ⟨-, rfl⟩ := pass_openParen_iff.1 pass
    exact bound
  | closeParen | connective _ | literal _ =>
    cases pass
    exact bound

theorem Cursor.Binds.next {s : Cursor} (binds : s.Binds P) {k : Located} {rest : List Located}
    (next : s.rest = k :: rest) : (∀ path, k.token.path? = some path → P path) ∧
      ∀ path ∈ Token.paths (rest.map (·.token)), P path := by
  have ahead := binds.ahead
  rw [next, List.map_cons] at ahead
  refine ⟨fun path named => ahead path ?_, fun path mem => ahead path ?_⟩
  · rw [Token.paths, List.filterMap_cons, named]
    exact List.mem_cons_self
  · exact ((List.sublist_cons_self _ _).filterMap _).mem mem

theorem Leads.binds (self : P ⟨[]⟩) {s t : Cursor} {tokens : List Located}
    (leads : Leads ctx s tokens t) (binds : s.Binds P) : t.Binds P := by
  induction tokens generalizing s with
  | nil => exact leads_nil_iff.1 leads ▸ binds
  | cons k tokens ih =>
    obtain ⟨rest, b, split, pass, others⟩ := leads_cons_iff.1 leads
    obtain ⟨named, ahead⟩ := binds.next split
    exact ih others ⟨bound_of_pass self pass binds.bound named, ahead⟩

/-- An error, if it is a conflict of accessors, shows the texts of two different paths of a kind. -/
def Conflicts (P : AccessorPath → Prop) (e : ClauseError) : Prop :=
  ∀ bound found offset, e = .accessorConflict bound found offset →
    ∃ p q, P p ∧ P q ∧ p ≠ q ∧ bound = p.render ∧ found = q.render

theorem conflicts_unexpected (expected : String) (rest : List Located) :
    Conflicts P (ctx.unexpected expected rest) := by
  cases rest <;> nofun

theorem conflicts_of_pass {b : Tally} {k : Located} {e : ClauseError}
    (fault : ctx.pass b k = .error e) (bound : ∀ a, b.accessor = some a → P a.path)
    (named : ∀ path, k.token.path? = some path → P path) : Conflicts P e := by
  rcases pass_error fault with unresolved | ⟨a, segments, accessor, token, other, rfl⟩ |
    ⟨-, -, rfl⟩ | ⟨-, -, rfl⟩
  · cases unresolved <;> nofun
  · rintro _ _ _ ⟨⟩
    exact ⟨a.path, .ofSegments segments, bound a accessor, named _ (by rw [token]; rfl), other,
      rfl, rfl⟩
  · nofun
  · nofun

/-- Two paths that are in conflict are different, and each is the fact itself or named by an
accessor. -/
theorem Failure.conflicts (self : P ⟨[]⟩) {n : Symbol} {s : Cursor} {e : ClauseError}
    (failure : Failure ctx n s e) (binds : s.Binds P) : Conflicts P e := by
  induction failure with
  | orFirst _ ih | andFirst _ ih => exact ih binds
  | orOthers first _ ih | andOthers first _ ih =>
    obtain ⟨d, -, leads, -⟩ := first
    exact ih (leads.binds self binds)
  | orMore leads _ ih | andMore leads _ ih | content lead leads _ ih =>
    exact ih (leads.binds self binds)
  | noTerm | noOperator | noClose => exact conflicts_unexpected _ _
  | @notPassed lead s t k rest e leads next fault =>
    have binds := leads.binds self binds
    exact conflicts_of_pass fault binds.bound (binds.next next).1
  | noLiteral | unclosed =>
    intro bound found offset same
    cases same

theorem conflicts_of_ofTokens {tokens : List Located} {e : ClauseError}
    (h : ofTokens ctx tokens = .error e) :
    Conflicts (Token.MayBind (tokens.map (·.token))) e := by
  rw [ofTokens_eq] at h
  rcases bind_eq_error_iff.1 h with fault | ⟨⟨root, t⟩, -, ended⟩
  · exact (failsAt .orExpression _ e fault).conflicts (.inl rfl) ⟨nofun, fun _ => .inr⟩
  · dsimp only at ended
    split at ended
    · split at ended
      · cases ended
      · cases ended
        nofun
    · cases ended
      nofun
    · cases ended
      exact conflicts_unexpected _ _

theorem conflict_of_parse {registry : Registry} {subject clause : String} {limits : Limits}
    {bound found : String} {offset : Nat}
    (h : parse registry subject limits clause = .error (.accessorConflict bound found offset)) :
    ∃ stream p q, Token.ofClause clause = .ok stream ∧ Token.MayBind stream.words p ∧
      Token.MayBind stream.words q ∧ p ≠ q ∧ bound = p.render ∧ found = q.render := by
  by_cases large : limits.maxClauseBytes < clause.utf8ByteSize
  · rw [parse_of_large registry subject limits clause large] at h
    cases h
  · rw [parse_of_small registry subject limits clause (Nat.not_lt.1 large)] at h
    rcases bind_eq_error_iff.1 h with fault | ⟨stream, lexed, fault⟩
    · rcases Token.ofClause_error fault with same | ⟨_, _, same⟩ <;> cases same
    · obtain ⟨p, q, conflict⟩ := conflicts_of_ofTokens fault bound found offset rfl
      exact ⟨stream, p, q, lexed, conflict⟩

end Clause

/-! ### What a text identifies -/

/-- A compiled clause has resolved a path that it can bind. -/
theorem Predicate.path_of_compile {registry : Registry} {subject source : String}
    {limits : Limits} {p : Predicate} (h : compile registry subject limits source = .ok p) :
    registry.resolve subject p.accessor.path = .ok p.accessor ∧ p.accessor.path.Nameable := by
  obtain ⟨parsed, -, -⟩ := compile_eq_ok_iff.1 h
  obtain ⟨-, stream, lexed, accepted⟩ := Clause.parse_eq_ok_iff.1 parsed
  obtain ⟨d, -, -, -, resolved, -, -⟩ := Clause.ofTokens_eq_ok_iff.1 accepted
  have path : p.accessor.path = Token.clausePath stream.words := Clause.resolve_path resolved
  rw [path]
  exact ⟨resolved, AccessorPath.nameable_of_mayBind lexed (Token.mayBind_clausePath _)⟩

theorem AuditEvent.exists_of_compiled {subject source text : String} {n : Nat}
    {result : Except ClauseError Predicate}
    (h : (ofResult subject source result).outcome = .compiled text n) :
    ∃ p, result = .ok p ∧ text = p.accessor.path.render := by
  rcases result with e | p
  · cases h
  · cases h
    exact ⟨p, rfl, rfl⟩

namespace AccessorPath

/-- A path is the one that its text is read as, but for one that starts with `this`, for which a
clause has to write two of them. So different paths have different texts, unless one is the fact
itself and the other its property `this`: both are written `this`. A conflict of accessors shows
one text twice only if it is this one and the clause has the accessor `this.this`, and what is
recorded of a compiled clause is the text of no other path that can be compiled, again but for these
two. The types of a valid configuration have no property `this`, and there the text of every path
that compiles is read as the path. -/
theorem render_identifies :
    (∀ clause stream segments, Token.ofClause clause = .ok stream →
      .accessor segments ∈ stream.words →
        (ofText (ofSegments segments).render = ofSegments segments ↔ ¬ [self, self] <+: segments)) ∧
    (∀ clause clause' stream stream', Token.ofClause clause = .ok stream →
      Token.ofClause clause' = .ok stream' → ∀ p ∈ Token.paths stream.words,
        ∀ q ∈ Token.paths stream'.words, p.render = q.render ↔ p = q ∨ Confused p q) ∧
    (∀ registry subject limits clause text offset,
      Clause.parse registry subject limits clause = .error (.accessorConflict text text offset) →
        text = self ∧ ∃ stream, Token.ofClause clause = .ok stream ∧
          .accessor [self, self] ∈ stream.words) ∧
    (∀ registry registry' subject subject' limits limits' source source' text n n',
      (AuditEvent.ofResult subject source
        (Predicate.compile registry subject limits source)).outcome = .compiled text n →
      (AuditEvent.ofResult subject' source'
        (Predicate.compile registry' subject' limits' source')).outcome = .compiled text n' →
      ∃ p p', Predicate.compile registry subject limits source = .ok p ∧
        Predicate.compile registry' subject' limits' source' = .ok p' ∧
        (p.accessor.path = p'.accessor.path ∨ Confused p.accessor.path p'.accessor.path)) ∧
    ∀ (c : Config) (subject : String) (limits : Limits) (source : String) (p : Predicate),
      c.validate = .ok () → Predicate.compile c.registry subject limits source = .ok p →
        ofText p.accessor.path.render = p.accessor.path := by
  refine ⟨?_, ?_, ?_, ?_, ?_⟩
  · intro clause stream segments lexed mem
    have nameable := nameable_of_mayBind lexed (.inr (Token.mem_paths_of_mem mem))
    rw [ofText_render nameable, ofSegments_written_iff, ne_eq, head?_ofSegments_eq_self_iff]
  · intro clause clause' stream stream' lexed lexed' p mem q mem'
    exact render_eq_iff (nameable_of_mayBind lexed (.inr mem))
      (nameable_of_mayBind lexed' (.inr mem'))
  · intro registry subject limits clause text offset conflict
    obtain ⟨stream, p, q, lexed, binds, binds', other, rfl, same⟩ :=
      Clause.conflict_of_parse conflict
    have nameable := nameable_of_mayBind lexed binds
    have nameable' := nameable_of_mayBind lexed binds'
    rcases (render_eq_iff nameable nameable').1 same with equal | ⟨rfl, rfl⟩ | ⟨rfl, rfl⟩
    · exact absurd equal other
    · exact ⟨rfl, stream, lexed, mem_of_mayBind_self binds'⟩
    · exact ⟨rfl, stream, lexed, mem_of_mayBind_self binds⟩
  · intro registry registry' subject subject' limits limits' source source' text n n' event event'
    obtain ⟨p, compiled, rfl⟩ := AuditEvent.exists_of_compiled event
    obtain ⟨p', compiled', same⟩ := AuditEvent.exists_of_compiled event'
    have nameable := (Predicate.path_of_compile compiled).2
    have nameable' := (Predicate.path_of_compile compiled').2
    exact ⟨p, p', compiled, compiled', (render_eq_iff nameable nameable').1 same⟩
  · intro c subject limits source p valid compiled
    obtain ⟨resolved, nameable⟩ := Predicate.path_of_compile compiled
    rw [ofText_render nameable]
    exact ofSegments_written (Registry.property_of_resolve valid resolved)

theorem render_identifies_name :
    ofText (ofSegments ["this", "name"]).render = ⟨["name"]⟩ ∧
      ∃ stream, Token.ofClause "this == 1 && this.this == 2" = .ok stream ∧
        .accessor [self, self] ∈ stream.words := by
  obtain ⟨reads, -, conflicts, -⟩ := render_identifies
  have lexed : Token.ofClause "this.name" = .ok ⟨[⟨.accessor ["this", "name"], 0⟩], 9⟩ := by cbv
  have conflict : Clause.parse .builtin "Integer" {} "this == 1 && this.this == 2" =
      .error (.accessorConflict "this" "this" 13) := by cbv
  refine ⟨(reads "this.name" _ _ lexed List.mem_cons_self).2 (by decide), ?_⟩
  exact (conflicts _ _ _ _ _ _ conflict).2

/-- Boxes have a property `this`. -/
def boxes : Registry := Registry.builtin.register ⟨"Box", .record (.ofList [("this", "Integer")])⟩

/-- With two leading `this` a path is not the one that its text is read as, a conflict shows one
text twice, and two clauses with different paths are recorded with the same accessor. -/
theorem render_ambiguous :
    (∃ stream, Token.ofClause "this.this" = .ok stream ∧ .accessor [self, self] ∈ stream.words ∧
      ofText (ofSegments [self, self]).render ≠ ofSegments [self, self]) ∧
    Clause.parse .builtin "Integer" {} "this == 1 && this.this == 2" =
      .error (.accessorConflict "this" "this" 13) ∧
    ∃ p p', Predicate.compile boxes "Box" {} "this == null" = .ok p ∧
      Predicate.compile boxes "Box" {} "this.this == null" = .ok p' ∧
      p.accessor.path ≠ p'.accessor.path ∧
      (AuditEvent.ofResult "Box" "this == null" (.ok p)).outcome =
        (AuditEvent.ofResult "Box" "this.this == null" (.ok p')).outcome := by
  refine ⟨⟨⟨[⟨.accessor [self, self], 0⟩], 9⟩, by cbv, List.mem_cons_self, by decide⟩, by cbv, ?_⟩
  have shaped (source : String) (path : AccessorPath)
      (shape : (Predicate.compile boxes "Box" {} source).toOption.map
        (fun p => (p.accessor.path, p.leafCount)) = some (path, 1)) :
      ∃ p, Predicate.compile boxes "Box" {} source = .ok p ∧ p.accessor.path = path ∧
        p.leafCount = 1 := by
    rcases compiled : Predicate.compile boxes "Box" {} source with e | p
    · rw [compiled] at shape
      cases shape
    · rw [compiled] at shape
      exact ⟨p, rfl, Prod.mk.inj (Option.some.inj shape)⟩
  obtain ⟨p, compiled, path, count⟩ := shaped "this == null" ⟨[]⟩ (by cbv)
  obtain ⟨p', compiled', path', count'⟩ := shaped "this.this == null" ⟨[self]⟩ (by cbv)
  refine ⟨p, p', compiled, compiled', by rw [path, path']; decide, ?_⟩
  rw [AuditEvent.ofResult, AuditEvent.ofResult, path, path', count, count']
  rfl

end AccessorPath

end HalfBinary
