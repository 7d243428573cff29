import HalfBinary.Proofs.Admission
import HalfBinary.Proofs.Bytewise
import HalfBinary.Proofs.Failures

/-!
# Positions of errors

An error of the tokens of a clause is about one of them or about their end. So every position that
an error reports is between two characters of the clause (`compile_error_offset`).
-/

namespace HalfBinary

/-! ### What errors are about -/

/-- An error is about a token and reports its position. -/
inductive ClauseError.Names : ClauseError → Located → Prop
  | unexpectedToken (expected : String) (token : Token) (offset : Nat) :
      Names (.unexpectedToken expected token.render offset) ⟨token, offset⟩
  | unmatchedParen {paren : Token} (mark : paren = .openParen ∨ paren = .closeParen)
      (offset : Nat) : Names (.unmatchedParen offset) ⟨paren, offset⟩
  | danglingOperator (op : Operator) (offset : Nat) :
      Names (.danglingOperator op offset) ⟨.operator op, offset⟩
  | nestingTooDeep (maxDepth actualDepth offset : Nat) :
      Names (.nestingTooDeep maxDepth actualDepth offset) ⟨.openParen, offset⟩
  | tooManyComparisons (maxComparisons : Nat) (op : Operator) (offset : Nat) :
      Names (.tooManyComparisons maxComparisons offset) ⟨.operator op, offset⟩
  | accessorConflict (bound : String) (segments : List String) (offset : Nat) :
      Names (.accessorConflict bound (AccessorPath.ofSegments segments).render offset)
        ⟨.accessor segments, offset⟩
  | invalidLiteral (literal expected : String) (op : Operator) (offset : Nat) :
      Names (.invalidLiteral literal expected offset) ⟨.operator op, offset⟩

/-- An error of some tokens has no position, or is about one of them or about their end. -/
inductive ClauseError.Among (stop : Nat) (tokens : List Located) : ClauseError → Prop
  | unplaced {e : ClauseError} (noOffset : e.offset? = none) : Among stop tokens e
  | token {e : ClauseError} {k : Located} (mem : k ∈ tokens) (names : e.Names k) :
      Among stop tokens e
  | ended (expected : String) : Among stop tokens (.unexpectedToken expected endOfInput stop)

theorem ClauseError.Names.offset?_eq {e : ClauseError} {k : Located} (names : e.Names k) :
    e.offset? = some k.offset := by
  cases names <;> rfl

theorem ClauseError.Names.exists_operator {literal expected : String} {offset : Nat} {k : Located}
    (names : Names (.invalidLiteral literal expected offset) k) :
    ∃ op, k = ⟨.operator op, offset⟩ := by
  cases names
  exact ⟨_, rfl⟩

theorem ClauseError.Among.mono {e : ClauseError} {stop : Nat} {tokens tokens' : List Located}
    (among : e.Among stop tokens) (subset : tokens ⊆ tokens') : e.Among stop tokens' := by
  cases among with
  | unplaced noOffset => exact .unplaced noOffset
  | token mem names => exact .token (subset mem) names
  | ended expected => exact .ended expected

theorem ClauseError.Unresolved.among {e : ClauseError} (unresolved : e.Unresolved) {stop : Nat}
    {tokens : List Located} : e.Among stop tokens := by
  cases unresolved <;> exact .unplaced rfl

/-! ### Errors of the parser -/

namespace Clause

variable {ctx : Context} {e : ClauseError}

theorem among_unexpected (expected : String) (rest : List Located) :
    (ctx.unexpected expected rest).Among ctx.stop rest := by
  cases rest with
  | nil => exact .ended expected
  | cons k rest => exact .token (List.mem_cons_self ..) (.unexpectedToken expected k.token k.offset)

theorem among_of_pass {b : Tally} {k : Located} {rest : List Located}
    (h : ctx.pass b k = .error e) : e.Among ctx.stop (k :: rest) := by
  have head : k ∈ k :: rest := List.mem_cons_self ..
  obtain ⟨w, offset⟩ := k
  rcases pass_error h with unresolved | ⟨a, segments, -, rfl, -, rfl⟩ | ⟨rfl, -, rfl⟩ |
    ⟨⟨op, rfl⟩, -, rfl⟩
  · exact unresolved.among
  · exact .token head (.accessorConflict a.path.render segments offset)
  · exact .token head (.nestingTooDeep _ _ offset)
  · exact .token head (.tooManyComparisons _ op offset)

theorem Leads.subset {s t : Cursor} {tokens : List Located} (leads : Leads ctx s tokens t) :
    t.rest ⊆ s.rest := by
  rw [leads.rest]
  exact List.subset_append_right _ _

/-- The last token that is passed is one of those at the start. -/
theorem Leads.mem {s t : Cursor} {before : List Located} {k : Located}
    (leads : Leads ctx s (before ++ [k]) t) : k ∈ s.rest := by
  rw [leads.rest]
  simp

/-- A symbol that fails does so for one of the tokens before it, or for their end. -/
theorem Failure.among {n : Symbol} {s : Cursor} (failure : Failure ctx n s e) :
    e.Among ctx.stop s.rest := by
  induction failure with
  | orFirst _ ih | andFirst _ ih => exact ih
  | orOthers first _ ih | andOthers first _ ih =>
    obtain ⟨d, -, leads, -⟩ := first
    exact ih.mono leads.subset
  | orMore leads _ ih | andMore leads _ ih | content lead leads _ ih => exact ih.mono leads.subset
  | noTerm => exact among_unexpected _ _
  | @notPassed lead s t k rest e leads next fault =>
    have subset := leads.subset
    rw [next] at subset
    exact (among_of_pass fault).mono subset
  | noOperator leads => exact (among_unexpected _ _).mono leads.subset
  | noLiteral lead leads => exact .token leads.mem (.danglingOperator _ _)
  | unclosed lead leads => exact .token leads.mem (.unmatchedParen (.inl rfl) _)
  | noClose lead leads content =>
    obtain ⟨d, -, inside, -⟩ := content
    exact (among_unexpected _ _).mono (List.Subset.trans inside.subset leads.subset)

theorem among_ofTokens {tokens : List Located} (h : ofTokens ctx tokens = .error e) :
    e.Among ctx.stop tokens := by
  rw [ofTokens_eq] at h
  rcases bind_eq_error_iff.1 h with fault | ⟨⟨root, t⟩, read, ended⟩
  · exact (failsAt .orExpression _ e fault).among
  · obtain ⟨d, -, leads, -⟩ := run_orExpression_eq_ok_iff.1 read
    have subset : t.rest ⊆ tokens := leads.subset
    dsimp only at ended
    split at ended
    · split at ended
      · cases ended
      · cases ended
        exact .unplaced rfl
    · next offset after closing =>
      cases ended
      rw [closing] at subset
      exact .token (subset (List.mem_cons_self ..)) (.unmatchedParen (.inr rfl) offset)
    · cases ended
      exact (among_unexpected _ _).mono subset

end Clause

/-! ### Errors of predicates -/

/-- A comparison that is refused for its literal is reported at its operator. -/
theorem Predicate.among_ofClause {ctx : Clause.Context} {tokens : List Located} {clause : Clause}
    {source : String} {e : ClauseError} (parsed : Clause.ofTokens ctx tokens = .ok clause)
    (h : ofClause clause source = .error e) : e.Among ctx.stop tokens := by
  obtain ⟨d, rfl, -, -, -, -, root⟩ := Clause.ofTokens_eq_ok_iff.1 parsed
  obtain ⟨before, c, after, split, -, refuses⟩ :=
    Condition.bind_eq_error_iff.1 (ofClause_eq_error_iff.1 h)
  have leaf : c ∈ d.comparisons := by
    rw [← Derivation.comparisons_of_tree_eq root, split]
    exact List.mem_append_right _ (List.mem_cons_self ..)
  have operator : (⟨.operator c.operator, c.offset⟩ : Located) ∈ d.tokens := by
    have listed : ⟨.operator c.operator, c.offset⟩ ∈ d.tokens.filter (·.token.isOperator) := by
      rw [d.filter_isOperator_tokens]
      exact List.mem_map_of_mem leaf
    exact List.mem_of_mem_filter listed
  cases refuses with
  | date | dateTime => exact .token operator (.invalidLiteral _ _ c.operator c.offset)
  | unordered => exact .unplaced rfl

/-- A clause does not compile for its size, because it is not lexed, or for one of its tokens or
their end. -/
theorem Predicate.compile_error {registry : Registry} {subject : String} {limits : Limits}
    {source : String} {e : ClauseError} (h : compile registry subject limits source = .error e) :
    e = .inputTooLarge limits.maxClauseBytes source.utf8ByteSize ∨
      Token.ofClause source = .error e ∨
        ∃ stream, Token.ofClause source = .ok stream ∧ e.Among stream.stop stream.tokens := by
  by_cases large : limits.maxClauseBytes < source.utf8ByteSize
  · rw [compile, Clause.parse_of_large registry subject limits source large] at h
    cases h
    exact .inl rfl
  · rw [compile, Clause.parse_of_small registry subject limits source (Nat.not_lt.1 large)] at h
    rcases bind_eq_error_iff.1 h with fault | ⟨clause, parsed, refused⟩
    · rcases bind_eq_error_iff.1 fault with fault | ⟨stream, lexed, fault⟩
      · exact .inr (.inl fault)
      · exact .inr (.inr ⟨stream, lexed, Clause.among_ofTokens fault⟩)
    · obtain ⟨stream, lexed, parsed⟩ := bind_eq_ok_iff.1 parsed
      exact .inr (.inr ⟨stream, lexed, among_ofClause parsed refused⟩)

/-! ### Positions in the text -/

/-- A token is located where its lexeme starts. -/
theorem Piece.exists_split_of_mem_located {ps : List Piece} {offset : Nat} {k : Located}
    (mem : k ∈ located offset ps) : ∃ before lexeme after,
      ps = before ++ .word k.token lexeme :: after ∧
        k.offset = offset + Text.byteLength (text before) := by
  induction ps generalizing offset with
  | nil => cases mem
  | cons p ps ih =>
    cases p with
    | blank c =>
      obtain ⟨before, lexeme, after, rfl, place⟩ := ih mem
      exact ⟨.blank c :: before, lexeme, after, rfl, by simp [place, Nat.add_assoc]⟩
    | word token lexeme =>
      rcases List.mem_cons.1 mem with rfl | mem
      · exact ⟨[], lexeme, ps, rfl, rfl⟩
      · obtain ⟨before, lexeme', after, rfl, place⟩ := ih mem
        exact ⟨.word token lexeme :: before, lexeme', after, rfl, by simp [place, Nat.add_assoc]⟩

/-- A token starts between two characters of its clause, in front of its end. -/
theorem Token.isValid_offset {source : String} {stream : TokenStream}
    (lexed : ofClause source = .ok stream) {k : Located} (mem : k ∈ stream.tokens) :
    k.offset ≤ source.utf8ByteSize ∧ (⟨k.offset⟩ : String.Pos.Raw).IsValid source := by
  obtain ⟨ps, -, same, -, rfl⟩ := ofClause_eq_ok_iff.1 lexed
  obtain ⟨before, lexeme, after, rfl, place⟩ := Piece.exists_split_of_mem_located mem
  rw [place, Nat.zero_add]
  exact Text.isValid_byteLength (same.symm.trans (Piece.text_append before _))

theorem Token.isValid_stop {source : String} {stream : TokenStream}
    (lexed : ofClause source = .ok stream) :
    stream.stop ≤ source.utf8ByteSize ∧ (⟨stream.stop⟩ : String.Pos.Raw).IsValid source := by
  obtain ⟨ps, -, same, -, rfl⟩ := ofClause_eq_ok_iff.1 lexed
  have position := Text.isValid_byteLength (List.append_nil source.toList).symm
  rwa [Text.byteLength_toList] at position

/-- After blanks and tokens that are read, and the first characters of another token, a fault is at
a position of a clause. -/
def LexFault.Occurs (fault : LexFault) (source : String) (offset : Nat) : Prop :=
  ∃ ps taken here, source.toList = Piece.text ps ++ (taken ++ here) ∧
    Piece.ReadBefore (taken ++ here) ps ∧ fault.At taken here ∧
    offset = Text.byteLength (Piece.text ps ++ taken)

/-- A fault is at a character of the clause. -/
theorem LexFault.Occurs.isValid {fault : LexFault} {source : String} {offset : Nat}
    (occurs : fault.Occurs source offset) :
    offset < source.utf8ByteSize ∧ (⟨offset⟩ : String.Pos.Raw).IsValid source := by
  obtain ⟨ps, taken, here, split, -, found, rfl⟩ := occurs
  rw [← List.append_assoc] at split
  refine ⟨?_, (Text.isValid_byteLength split).2⟩
  have rest := Text.byteLength_pos found.here_ne_nil
  rw [Bytewise.utf8ByteSize_eq split, Text.byteLength_append (Piece.text ps ++ taken)]
  omega

theorem Token.occurs_of_ofClause {source : String} {fault : LexFault} {offset : Nat}
    (h : ofClause source = .error (.lex fault offset)) : fault.Occurs source offset := by
  obtain ⟨ps, taken, here, split, read, found, place⟩ := scanAll_fault (ofClause_eq_lex_iff.1 h)
  exact ⟨ps, taken, here, split, read, found, by rw [place, Nat.zero_add]⟩

namespace Predicate

/-- Lexing by bytes takes no byte outside of a clause and slices it between characters only: it
comes to what lexing by characters does. Every position that an error reports is in the clause and
between two characters. A lexical error is at the character that is wrong; every other error with a
position is at a token that it is about, or at the end of the clause if it is about that, and a
literal that is not valid is reported at its operator. -/
theorem compile_error_offset (registry : Registry) (subject : String) (limits : Limits)
    (source : String) :
    Bytewise.lex source = (Token.ofClause source).mapError .error ∧
    ∀ e offset, compile registry subject limits source = .error e → e.offset? = some offset →
      offset ≤ source.utf8ByteSize ∧ (⟨offset⟩ : String.Pos.Raw).IsValid source ∧
      ((∃ fault, e = .lex fault offset ∧ offset < source.utf8ByteSize ∧
        fault.Occurs source offset) ∨
      (∀ fault, e ≠ .lex fault offset) ∧ ∃ stream, Token.ofClause source = .ok stream ∧
        ((∃ k ∈ stream.tokens, k.offset = offset ∧ e.Names k) ∨
          offset = stream.stop ∧ ∃ expected, e = .unexpectedToken expected endOfInput offset) ∧
        ∀ literal expected, e = .invalidLiteral literal expected offset →
          ∃ op, ⟨.operator op, offset⟩ ∈ stream.tokens) := by
  refine ⟨Bytewise.lex_eq source, fun e offset h reported => ?_⟩
  rcases compile_error h with rfl | unlexed | ⟨stream, lexed, among⟩
  · cases reported
  · rcases Token.ofClause_error unlexed with rfl | ⟨why, position, rfl⟩
    · cases reported
    · cases reported
      have occurs := Token.occurs_of_ofClause unlexed
      obtain ⟨inside, valid⟩ := occurs.isValid
      exact ⟨inside.le, valid, .inl ⟨why, rfl, inside, occurs⟩⟩
  · cases among with
    | unplaced noOffset => cases noOffset.symm.trans reported
    | @token _ k mem names =>
      obtain rfl := Option.some.inj (names.offset?_eq.symm.trans reported)
      obtain ⟨inside, valid⟩ := Token.isValid_offset lexed mem
      refine ⟨inside, valid, .inr ⟨?_, stream, lexed, .inl ⟨k, mem, rfl, names⟩, ?_⟩⟩
      · rintro why rfl
        cases names
      · rintro literal expected rfl
        obtain ⟨op, operator⟩ := names.exists_operator
        exact ⟨op, operator ▸ mem⟩
    | ended expected =>
      obtain rfl := Option.some.inj reported
      obtain ⟨inside, valid⟩ := Token.isValid_stop lexed
      exact ⟨inside, valid, .inr ⟨nofun, stream, lexed, .inr ⟨rfl, expected, rfl⟩, nofun⟩⟩

/-- After a character of two bytes comes a backslash that escapes nothing; a text that is no date is
reported at the operator in front of it. -/
theorem compile_error_offset_wide :
    compile .builtin "String" {} "== 'é\\q'" = .error (.lex (.invalidEscape 'q') 6) ∧
      (LexFault.invalidEscape 'q').Occurs "== 'é\\q'" 6 ∧
      (⟨6⟩ : String.Pos.Raw).IsValid "== 'é\\q'" ∧
      compile .builtin "LocalDate" {} "== 'é'" = .error (.invalidLiteral "\"é\"" "date" 0) ∧
      ∃ stream op, Token.ofClause "== 'é'" = .ok stream ∧ ⟨.operator op, 0⟩ ∈ stream.tokens := by
  have escape : compile .builtin "String" {} "== 'é\\q'" =
      .error (.lex (.invalidEscape 'q') 6) := by cbv
  have date : compile .builtin "LocalDate" {} "== 'é'" =
      .error (.invalidLiteral "\"é\"" "date" 0) := by cbv
  obtain ⟨-, valid, ⟨why, same, -, occurs⟩ | ⟨other, -⟩⟩ :=
    (compile_error_offset _ _ _ _).2 _ 6 escape rfl
  · obtain ⟨-, -, ⟨why', same', -⟩ | ⟨-, stream, lexed, -, operator⟩⟩ :=
      (compile_error_offset _ _ _ _).2 _ 0 date rfl
    · cases same'
    · cases same
      obtain ⟨op, mem⟩ := operator _ _ rfl
      exact ⟨escape, occurs, valid, date, stream, op, lexed, mem⟩
  · exact absurd rfl (other _)

end Predicate

end HalfBinary
