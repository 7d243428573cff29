import Mathlib
import HalfBinary.Proofs.Parsing
import HalfBinary.Proofs.Pieces
import HalfBinary.Proofs.Resolution

/-!
# Limits only cut off

A clause that no limit cuts off has the same result under wider limits, and one that is cut off is
so at the first token that passes a limit (`parse_cut_off`). Both follow from one simulation of the
parser by itself under wider limits (`cutOff_run`).
-/

namespace HalfBinary

/-- Limits are at most others if each of them is. -/
instance : LE Limits where
  le l l' := l.maxClauseBytes ≤ l'.maxClauseBytes ∧ l.maxNesting ≤ l'.maxNesting ∧
    l.maxComparisons ≤ l'.maxComparisons

/-- Whether an error says that a limit has been passed. -/
def ClauseError.isCutOff : ClauseError → Bool
  | inputTooLarge .. | nestingTooDeep .. | tooManyComparisons .. => true
  | emptyExpression | lex .. | unexpectedToken .. | unmatchedParen _ | danglingOperator ..
  | unknownType _ | unknownProperty .. | accessorConflict .. | incomparableTypes ..
  | invalidLiteral .. => false

/-- No limit has been passed. -/
def Uncut (r : Except ClauseError α) : Prop := ∀ e, r = .error e → e.isCutOff = false

theorem uncut_ok (a : α) : Uncut (.ok a) := by
  intro e h
  cases h

theorem uncut_error_iff {e : ClauseError} : Uncut (.error e : Except _ α) ↔ e.isCutOff = false := by
  simp [Uncut]

theorem Uncut.bind {r : Except ClauseError α} {f : α → Except ClauseError β} (first : Uncut r)
    (next : ∀ a, Uncut (f a)) : Uncut (r >>= f) := by
  cases r with
  | error e => exact uncut_error_iff.2 (uncut_error_iff.1 first)
  | ok a => exact next a

theorem ClauseError.Unresolved.isCutOff_eq_false {e : ClauseError} (unresolved : e.Unresolved) :
    e.isCutOff = false := by
  cases unresolved <;> rfl

theorem Token.uncut_ofClause (clause : String) : Uncut (ofClause clause) := by
  intro e h
  rcases ofClause_error h with rfl | ⟨fault, position, rfl⟩ <;> rfl

/-! ### Depths -/

/-- How many parentheses are open after a token, if `depth` are open before. -/
def Token.depthAfter (depth : Nat) : Token → Nat
  | openParen => depth + 1
  | closeParen => depth - 1
  | accessor _ | operator _ | connective _ | literal _ => depth

/-- How many parentheses are open after some tokens. -/
def Token.openAfter (words : List Token) : Nat := words.foldl depthAfter 0

/-- The depth of a parenthesis opened after some tokens. -/
def Located.depthOfNext (before : List Located) : Nat :=
  Token.openAfter (before.map (·.token)) + 1

/-- At a position stands the first opening parenthesis that is deeper than a bound. -/
def TokenStream.OpensFirstBeyond (s : TokenStream) (bound offset : Nat) : Prop :=
  ∃ before after, s.tokens = before ++ ⟨.openParen, offset⟩ :: after ∧
    bound < Located.depthOfNext before ∧
    ∀ earlier offset' between, before = earlier ++ ⟨.openParen, offset'⟩ :: between →
      Located.depthOfNext earlier ≤ bound

/-- At a position stands an operator that some number of others are in front of. -/
def TokenStream.OperatorAfter (s : TokenStream) (count offset : Nat) : Prop :=
  ∃ before op after, s.tokens = before ++ ⟨.operator op, offset⟩ :: after ∧
    Token.operatorCount (before.map (·.token)) = count

namespace Clause

variable {ctx : Context}

theorem bind_error {b : Option ResolvedAccessor} {path : AccessorPath} {offset : Nat}
    {e : ClauseError} (h : ctx.bind b path offset = .error e) :
    e.Unresolved ∨ ∃ a, b = some a ∧ a.path ≠ path ∧
      e = .accessorConflict a.path.render path.render offset := by
  unfold Context.bind at h
  split at h
  · exact .inl (Registry.unresolved_of_resolve h)
  · next a =>
    split at h
    · cases h
    · next other =>
      cases h
      exact .inr ⟨a, rfl, other, rfl⟩

theorem elided_error {b : Option ResolvedAccessor} {e : ClauseError}
    (h : ctx.elided b = .error e) : e.Unresolved := by
  unfold Context.elided at h
  split at h
  · exact Registry.unresolved_of_resolve h
  · cases h

theorem uncut_bind (b : Option ResolvedAccessor) (path : AccessorPath) (offset : Nat) :
    Uncut (ctx.bind b path offset) := by
  intro e h
  rcases bind_error h with unresolved | ⟨a, -, -, rfl⟩
  · exact unresolved.isCutOff_eq_false
  · rfl

theorem uncut_elided (b : Option ResolvedAccessor) : Uncut (ctx.elided b) :=
  fun _ h => (elided_error h).isCutOff_eq_false

theorem uncut_unexpected (expected : String) (rest : List Located) :
    Uncut (.error (ctx.unexpected expected rest) : Except _ α) := by
  cases rest <;> exact uncut_error_iff.2 rfl

/-! ### The token that passes a limit -/

/-- The tokens are passed up to one at which an error arises. -/
def Fails (ctx : Context) (s : Cursor) (e : ClauseError) : Prop :=
  ∃ before t after b, s.rest = before ++ t :: after ∧ before.foldlM ctx.pass s.tally = .ok b ∧
    ctx.pass b t = .error e

theorem Fails.after {s t : Cursor} {tokens : List Located} {e : ClauseError}
    (leads : Leads ctx s tokens t) (fails : Fails ctx t e) : Fails ctx s e := by
  obtain ⟨before, token, after, b, rest, tally, fault⟩ := fails
  refine ⟨tokens ++ before, token, after, b, ?_, ?_, fault⟩
  · rw [leads.rest, rest, List.append_assoc]
  · rw [List.foldlM_append, leads.tally]
    exact tally

theorem Fails.head {rest : List Located} {k m : Nat} {b : Option ResolvedAccessor} {t : Located}
    {e : ClauseError} (fault : ctx.pass ⟨k, m, b⟩ t = .error e) :
    Fails ctx ⟨t :: rest, k, m, b⟩ e := ⟨[], t, rest, _, rfl, rfl, fault⟩

/-- A result and the one under other limits are the same, or the first is cut off at a token. -/
inductive CutOff (ctx : Context) (s : Cursor) :
    Except ClauseError α → Except ClauseError α → Prop
  | same {r : Except ClauseError α} (uncut : Uncut r) : CutOff ctx s r r
  | cut {e : ClauseError} {r : Except ClauseError α} (cuts : e.isCutOff = true)
      (fails : Fails ctx s e) : CutOff ctx s (.error e) r

theorem CutOff.after {s t : Cursor} {tokens : List Located} {r r' : Except ClauseError α}
    (leads : Leads ctx s tokens t) (h : CutOff ctx t r r') : CutOff ctx s r r' := by
  cases h with
  | same uncut => exact .same uncut
  | cut cuts fails => exact .cut cuts (fails.after leads)

theorem CutOff.bind {s : Cursor} {r r' : Except ClauseError α} {f f' : α → Except ClauseError β}
    (h : CutOff ctx s r r') (next : ∀ a, r = .ok a → CutOff ctx s (f a) (f' a)) :
    CutOff ctx s (r >>= f) (r' >>= f') := by
  cases h with
  | same uncut =>
    cases r with
    | error e => exact .same (uncut_error_iff.2 (uncut_error_iff.1 uncut))
    | ok a => exact next a rfl
  | cut cuts fails => exact .cut cuts fails

theorem CutOff.eq {s : Cursor} {r r' : Except ClauseError α} (h : CutOff ctx s r r')
    (uncut : Uncut r) : r' = r := by
  cases h with
  | same => rfl
  | cut cuts =>
    rw [uncut _ rfl] at cuts
    cases cuts

theorem CutOff.fails {s : Cursor} {r r' : Except ClauseError α} {e : ClauseError}
    (h : CutOff ctx s r r') (fault : r = .error e) (cuts : e.isCutOff = true) : Fails ctx s e := by
  cases h with
  | same uncut =>
    rw [uncut e fault] at cuts
    cases cuts
  | cut _ fails =>
    cases fault
    exact fails

/-! ### The parser under wider limits -/

/-- The parser's context with other limits. -/
def Context.under (ctx : Context) (limits : Limits) : Context := { ctx with limits }

section

variable {limits : Limits} (wider : ctx.limits ≤ limits)

section

variable {rest : List Located} {k m : Nat} {b : Option ResolvedAccessor} {a : ResolvedAccessor}

include wider

theorem cutOff_runComparison (bound : ctx.elided b = .ok a) :
    CutOff ctx ⟨rest, k, m, b⟩ (runComparison ctx ⟨rest, k, m, some a⟩)
      (runComparison (ctx.under limits) ⟨rest, k, m, some a⟩) := by
  rw [runComparison_eq, runComparison_eq]
  dsimp only
  split
  · next op offset rest =>
    split
    · next many =>
      apply CutOff.cut rfl
      apply Fails.head
      simp [Context.pass, bound, many, bind, Except.bind]
    · next few =>
      have few' : ¬ (ctx.under limits).limits.maxComparisons ≤ m := by
        have := wider.2.2
        show ¬ limits.maxComparisons ≤ m
        omega
      rw [if_neg few']
      split
      · exact .same (uncut_ok _)
      · exact .same (uncut_error_iff.2 rfl)
  · exact .same (uncut_unexpected _ _)

theorem cutOff_runGroup {start : Nat} (fits : ¬ ctx.limits.maxNesting < k + 1)
    (inner : CutOff ctx ⟨rest, k + 1, m, b⟩ (run ctx .orExpression ⟨rest, k + 1, m, b⟩)
      (run (ctx.under limits) .orExpression ⟨rest, k + 1, m, b⟩)) :
    CutOff ctx ⟨⟨.openParen, start⟩ :: rest, k, m, b⟩ (runGroup ctx start ⟨rest, k, m, b⟩)
      (runGroup (ctx.under limits) start ⟨rest, k, m, b⟩) := by
  have fits' : ¬ (ctx.under limits).limits.maxNesting < k + 1 := by
    have := wider.2.1
    show ¬ limits.maxNesting < k + 1
    omega
  have opened : Leads ctx ⟨⟨.openParen, start⟩ :: rest, k, m, b⟩ [⟨.openParen, start⟩]
      ⟨rest, k + 1, m, b⟩ :=
    leads_cons_iff.2 ⟨_, _, rfl, pass_openParen_iff.2 ⟨Nat.not_lt.1 fits, rfl⟩, .nil _⟩
  rw [runGroup_eq, runGroup_eq, if_neg fits, if_neg fits']
  apply (inner.after opened).bind
  rintro ⟨node, t⟩ -
  dsimp only
  split
  · exact .same (uncut_ok _)
  · exact .same (uncut_error_iff.2 rfl)
  · exact .same (uncut_unexpected _ _)

end

/-- A part of a chain and the parts after it are cut off where one of them is. -/
theorem cutOff_chain {n n' : Symbol} {s : Cursor} (join : n.Tree → n'.Tree → α)
    (derived : ∀ x t, run ctx n s = .ok (x, t) → Derived ctx n s x t)
    (first : CutOff ctx s (run ctx n s) (run (ctx.under limits) n s))
    (others : ∀ t : Cursor, t.rest.length < s.rest.length →
      CutOff ctx t (run ctx n' t) (run (ctx.under limits) n' t))
    (expression : n.IsExpression) :
    CutOff ctx s
      (do
        let (x, t) ← run ctx n s
        let (xs, u) ← run ctx n' t
        return (join x xs, u))
      (do
        let (x, t) ← run (ctx.under limits) n s
        let (xs, u) ← run (ctx.under limits) n' t
        return (join x xs, u)) := by
  apply first.bind
  rintro ⟨x, t⟩ read
  have shorter := (derived x t read).shorter expression
  obtain ⟨d, -, leads, -⟩ := derived x t read
  apply ((others t shorter).after leads).bind
  rintro ⟨xs, u⟩ -
  exact .same (uncut_ok _)

theorem leads_connective {c : Connective} {offset k m : Nat} {rest : List Located}
    {b : Option ResolvedAccessor} :
    Leads ctx ⟨⟨.connective c, offset⟩ :: rest, k, m, b⟩ [⟨.connective c, offset⟩]
      ⟨rest, k, m, b⟩ :=
  leads_cons_iff.2 ⟨_, _, rfl, rfl, .nil _⟩

include wider in
/-- The parser gives the same result under wider limits, or is cut off. -/
theorem cutOff_run :
    (∀ s, CutOff ctx s (run ctx .orExpression s) (run (ctx.under limits) .orExpression s)) ∧
    (∀ s, CutOff ctx s (run ctx .orOthers s) (run (ctx.under limits) .orOthers s)) ∧
    (∀ s, CutOff ctx s (run ctx .andExpression s) (run (ctx.under limits) .andExpression s)) ∧
    (∀ s, CutOff ctx s (run ctx .andOthers s) (run (ctx.under limits) .andOthers s)) ∧
    (∀ s, CutOff ctx s (run ctx .term s) (run (ctx.under limits) .term s)) ∧
    (∀ start (s : Cursor), CutOff ctx { s with rest := ⟨.openParen, start⟩ :: s.rest }
      (runGroup ctx start s) (runGroup (ctx.under limits) start s)) := by
  obtain ⟨-, -, derivedAnd, -, derivedTerm, -⟩ := @derived_of_run ctx
  -- Along the parser's own recursion: what cuts off a part cuts off the whole, since the tokens in
  -- front of the part have been passed.
  apply orExpression.mutual_induct ctx
  case case1 =>
    intro s firstIh othersIh
    rw [run_orExpression, run_orExpression]
    exact cutOff_chain (fun first others => Constraint.join .or (first :: others)) (derivedAnd s)
      firstIh othersIh trivial
  case case2 =>
    intro s offset rest head partIh othersIh
    obtain ⟨rest₀, k, m, b⟩ := s
    obtain rfl : rest₀ = _ := head
    rw [run_orOthers_cons, run_orOthers_cons]
    exact (cutOff_chain List.cons (derivedAnd _) partIh othersIh trivial).after leads_connective
  case case3 =>
    intro s other
    rw [run_orOthers_end _ other, run_orOthers_end _ other]
    exact .same (uncut_ok _)
  case case4 =>
    intro s firstIh othersIh
    rw [run_andExpression, run_andExpression]
    exact cutOff_chain (fun first others => Constraint.join .and (first :: others)) (derivedTerm s)
      firstIh othersIh trivial
  case case5 =>
    intro s offset rest head partIh othersIh
    obtain ⟨rest₀, k, m, b⟩ := s
    obtain rfl : rest₀ = _ := head
    rw [run_andOthers_cons, run_andOthers_cons]
    exact (cutOff_chain List.cons (derivedTerm _) partIh othersIh trivial).after leads_connective
  case case6 =>
    intro s other
    rw [run_andOthers_end _ other, run_andOthers_end _ other]
    exact .same (uncut_ok _)
  case case7 =>
    intro s offset rest head groupIh
    obtain ⟨rest₀, k, m, b⟩ := s
    obtain rfl : rest₀ = _ := head
    rw [run_term, run_term]
    exact groupIh
  case case8 =>
    intro s segments offset rest head groupIh
    obtain ⟨rest₀, k, m, b⟩ := s
    obtain rfl : rest₀ = _ := head
    rw [run_term, run_term]
    have first : CutOff ctx ⟨⟨.accessor segments, offset⟩ :: rest, k, m, b⟩
        (ctx.bind b (.ofSegments segments) offset)
        ((ctx.under limits).bind b (.ofSegments segments) offset) := .same (uncut_bind _ _ _)
    apply first.bind
    intro a bound
    have leads : Leads ctx ⟨⟨.accessor segments, offset⟩ :: rest, k, m, b⟩
        [⟨.accessor segments, offset⟩] ⟨rest, k, m, some a⟩ :=
      leads_cons_iff.2 ⟨_, _, rfl, pass_accessor_iff.2 ⟨a, bound, rfl⟩, .nil _⟩
    apply CutOff.after leads
    split
    · next inner rest => exact groupIh a inner rest rfl
    · exact cutOff_runComparison wider rfl
  case case9 =>
    intro s op offset rest head
    obtain ⟨rest₀, k, m, b⟩ := s
    obtain rfl : rest₀ = _ := head
    rw [run_term, run_term]
    have first : CutOff ctx ⟨⟨.operator op, offset⟩ :: rest, k, m, b⟩ (ctx.elided b)
        ((ctx.under limits).elided b) := .same (uncut_elided b)
    apply first.bind
    intro a bound
    exact cutOff_runComparison wider bound
  case case10 =>
    intro s noOpen noAccessor noOperator
    rw [run_term, run_term]
    split
    · next offset rest head => exact (noOpen offset rest head).elim
    · next segments offset rest head => exact (noAccessor segments offset rest head).elim
    · next op offset rest head => exact (noOperator op offset rest head).elim
    · exact .same (uncut_unexpected _ _)
  case case11 =>
    intro start s deep
    rw [runGroup_eq, if_pos deep]
    apply CutOff.cut rfl
    apply Fails.head
    simp [Context.pass, deep]
  case case12 =>
    intro start s fits innerIh
    exact cutOff_runGroup wider fits innerIh

end

/-! ### Where the limits are passed -/

/-- What is counted is within the limits. -/
structure Tally.Fits (ctx : Context) (b : Tally) : Prop where
  nesting : b.nesting ≤ ctx.limits.maxNesting
  comparisons : b.comparisons ≤ ctx.limits.maxComparisons

/-- One token counts as what it is. -/
theorem pass_counts {b b' : Tally} {t : Located} (h : ctx.pass b t = .ok b') :
    b'.nesting = t.token.depthAfter b.nesting ∧
      b'.comparisons = b.comparisons + Token.operatorCount [t.token] ∧ (b.Fits ctx → b'.Fits ctx) := by
  obtain ⟨w, offset⟩ := t
  cases w with
  | openParen =>
    obtain ⟨deeper, rfl⟩ := pass_openParen_iff.1 h
    exact ⟨rfl, rfl, fun fits => ⟨deeper, fits.comparisons⟩⟩
  | closeParen =>
    cases h
    exact ⟨rfl, rfl, fun fits => ⟨Nat.le_trans (Nat.sub_le _ 1) fits.nesting, fits.comparisons⟩⟩
  | accessor segments =>
    obtain ⟨a, -, rfl⟩ := pass_accessor_iff.1 h
    exact ⟨rfl, rfl, fun fits => ⟨fits.nesting, fits.comparisons⟩⟩
  | operator op =>
    obtain ⟨a, -, fewer, rfl⟩ := pass_operator_iff.1 h
    exact ⟨rfl, rfl, fun fits => ⟨fits.nesting, fewer⟩⟩
  | connective _ | literal _ =>
    cases h
    exact ⟨rfl, rfl, id⟩

/-- What is counted of some tokens depends on the tokens alone. -/
theorem foldlM_pass_counts {tokens : List Located} {b b' : Tally}
    (h : tokens.foldlM ctx.pass b = .ok b') :
    b'.nesting = (tokens.map (·.token)).foldl Token.depthAfter b.nesting ∧
      b'.comparisons = b.comparisons + Token.operatorCount (tokens.map (·.token)) ∧
      (b.Fits ctx → b'.Fits ctx) := by
  induction tokens generalizing b with
  | nil =>
    cases h
    exact ⟨rfl, rfl, id⟩
  | cons t rest ih =>
    rw [List.foldlM_cons, bind_eq_ok_iff] at h
    obtain ⟨b₁, first, others⟩ := h
    obtain ⟨nesting, comparisons, fits⟩ := pass_counts first
    obtain ⟨nesting', comparisons', fits'⟩ := ih others
    refine ⟨?_, ?_, fun inside => fits' (fits inside)⟩
    · rw [nesting', nesting]
      rfl
    · rw [comparisons', comparisons, List.map_cons, Token.operatorCount, Token.operatorCount,
        Token.operatorCount, List.countP_cons]
      simp only [List.countP_cons, List.countP_nil]
      omega

theorem fits_start : (⟨0, 0, none⟩ : Tally).Fits ctx := ⟨Nat.zero_le _, Nat.zero_le _⟩

/-- A token is not passed for what it names, for another accessor than the one that is bound, or for
a limit. -/
theorem pass_error {b : Tally} {t : Located} {e : ClauseError} (h : ctx.pass b t = .error e) :
    e.Unresolved ∨
    (∃ a segments, b.accessor = some a ∧ t.token = .accessor segments ∧
      a.path ≠ .ofSegments segments ∧
      e = .accessorConflict a.path.render (AccessorPath.ofSegments segments).render t.offset) ∨
    (t.token = .openParen ∧ ctx.limits.maxNesting < b.nesting + 1 ∧
      e = .nestingTooDeep ctx.limits.maxNesting (b.nesting + 1) t.offset) ∨
    ((∃ op, t.token = .operator op) ∧ ctx.limits.maxComparisons ≤ b.comparisons ∧
      e = .tooManyComparisons ctx.limits.maxComparisons t.offset) := by
  obtain ⟨w, offset⟩ := t
  cases w with
  | openParen =>
    simp only [Context.pass] at h
    split at h
    · next deep =>
      cases h
      exact .inr (.inr (.inl ⟨rfl, deep, rfl⟩))
    · cases h
  | operator op =>
    simp only [Context.pass] at h
    rcases bind_eq_error_iff.1 h with fault | ⟨a, -, counted⟩
    · exact .inl (elided_error fault)
    · split at counted
      · next many =>
        cases counted
        exact .inr (.inr (.inr ⟨⟨op, rfl⟩, many, rfl⟩))
      · cases counted
  | accessor segments =>
    simp only [Context.pass] at h
    rcases bind_eq_error_iff.1 h with fault | ⟨a, -, bound⟩
    · rcases bind_error fault with unresolved | ⟨a, bound, other, rfl⟩
      · exact .inl unresolved
      · exact .inr (.inl ⟨a, segments, bound, rfl, other, rfl⟩)
    · cases bound
  | closeParen | connective _ | literal _ => cases h

/-- A token that passes a limit is a parenthesis or an operator. -/
theorem pass_eq_cutOff {b : Tally} {t : Located} {e : ClauseError} (h : ctx.pass b t = .error e)
    (cuts : e.isCutOff = true) :
    (t.token = .openParen ∧ ctx.limits.maxNesting < b.nesting + 1 ∧
      e = .nestingTooDeep ctx.limits.maxNesting (b.nesting + 1) t.offset) ∨
    ((∃ op, t.token = .operator op) ∧ ctx.limits.maxComparisons ≤ b.comparisons ∧
      e = .tooManyComparisons ctx.limits.maxComparisons t.offset) := by
  rcases pass_error h with unresolved | ⟨a, segments, -, -, -, rfl⟩ | limit
  · rw [unresolved.isCutOff_eq_false] at cuts
    cases cuts
  · cases cuts
  · exact limit

/-- Every parenthesis that has been passed is within the bound. -/
theorem depthOfNext_le {before earlier between : List Located} {offset : Nat} {b : Tally}
    (h : before.foldlM ctx.pass ⟨0, 0, none⟩ = .ok b)
    (opened : before = earlier ++ ⟨.openParen, offset⟩ :: between) :
    Located.depthOfNext earlier ≤ ctx.limits.maxNesting := by
  rw [opened, List.foldlM_append, bind_eq_ok_iff] at h
  obtain ⟨b₁, first, h⟩ := h
  rw [List.foldlM_cons, bind_eq_ok_iff] at h
  obtain ⟨b₂, pass, -⟩ := h
  obtain ⟨fits, -⟩ := pass_openParen_iff.1 pass
  rw [(foldlM_pass_counts first).1] at fits
  exact fits

section

variable {stream : TokenStream} {e : ClauseError} {offset : Nat}

theorem opensFirstBeyond_of_fails {maxDepth actualDepth : Nat}
    (fails : Fails ctx ⟨stream.tokens, 0, 0, none⟩ (.nestingTooDeep maxDepth actualDepth offset)) :
    maxDepth = ctx.limits.maxNesting ∧ actualDepth = ctx.limits.maxNesting + 1 ∧
      stream.OpensFirstBeyond ctx.limits.maxNesting offset := by
  obtain ⟨before, ⟨w, position⟩, after, b, rest, tally, fault⟩ := fails
  obtain ⟨nesting, -, fits⟩ := foldlM_pass_counts tally
  have shallow := (fits fits_start).nesting
  rcases pass_eq_cutOff fault rfl with ⟨rfl, deep, same⟩ | ⟨-, -, same⟩
  · cases same
    -- The depth before was within the limit, so that it is passed by one.
    refine ⟨rfl, by omega, before, after, rest, ?_, ?_⟩
    · rw [nesting] at deep
      exact deep
    · intro earlier offset' between opened
      exact depthOfNext_le tally opened
  · cases same

theorem operatorAfter_of_fails {maxComparisons : Nat}
    (fails : Fails ctx ⟨stream.tokens, 0, 0, none⟩ (.tooManyComparisons maxComparisons offset)) :
    maxComparisons = ctx.limits.maxComparisons ∧
      stream.OperatorAfter ctx.limits.maxComparisons offset := by
  obtain ⟨before, ⟨w, position⟩, after, b, rest, tally, fault⟩ := fails
  obtain ⟨-, comparisons, fits⟩ := foldlM_pass_counts tally
  have few := (fits fits_start).comparisons
  rcases pass_eq_cutOff fault rfl with ⟨-, -, same⟩ | ⟨⟨op, rfl⟩, many, same⟩
  · cases same
  · cases same
    refine ⟨rfl, before, op, after, rest, ?_⟩
    dsimp only [Cursor.tally] at comparisons
    omega

end

/-! ### Whole clauses -/

theorem cutOff_ofTokens {limits : Limits} (wider : ctx.limits ≤ limits) (tokens : List Located) :
    CutOff ctx ⟨tokens, 0, 0, none⟩ (ofTokens ctx tokens) (ofTokens (ctx.under limits) tokens) := by
  rw [ofTokens_eq, ofTokens_eq]
  apply ((cutOff_run wider).1 _).bind
  rintro ⟨root, s⟩ -
  dsimp only
  split
  · split
    · exact .same (uncut_ok _)
    · exact .same (uncut_error_iff.2 rfl)
  · exact .same (uncut_error_iff.2 rfl)
  · exact .same (uncut_unexpected _ _)

variable (registry : Registry) (subject : String) (limits : Limits) (clause : String)

theorem parse_of_large (large : limits.maxClauseBytes < clause.utf8ByteSize) :
    parse registry subject limits clause =
      .error (.inputTooLarge limits.maxClauseBytes clause.utf8ByteSize) := by
  rw [parse, Limits.checkSize, if_pos large]
  rfl

theorem parse_of_small (small : clause.utf8ByteSize ≤ limits.maxClauseBytes) :
    parse registry subject limits clause = Token.ofClause clause >>= fun stream =>
      ofTokens ⟨registry, subject, limits, stream.stop⟩ stream.tokens := by
  rw [parse, Limits.checkSize, if_neg (Nat.not_lt.2 small)]
  rfl

/-- A clause is cut off for its size, or at a token. -/
theorem fails_of_parse {e : ClauseError} (h : parse registry subject limits clause = .error e)
    (cuts : e.isCutOff = true) :
    (limits.maxClauseBytes < clause.utf8ByteSize ∧
      e = .inputTooLarge limits.maxClauseBytes clause.utf8ByteSize) ∨
    ∃ stream, Token.ofClause clause = .ok stream ∧
      Fails ⟨registry, subject, limits, stream.stop⟩ ⟨stream.tokens, 0, 0, none⟩ e := by
  by_cases large : limits.maxClauseBytes < clause.utf8ByteSize
  · rw [parse_of_large registry subject limits clause large] at h
    cases h
    exact .inl ⟨large, rfl⟩
  · rw [parse_of_small registry subject limits clause (Nat.not_lt.1 large)] at h
    rcases lexed : Token.ofClause clause with fault | stream
    · rw [lexed] at h
      cases h
      rw [Token.uncut_ofClause clause e lexed] at cuts
      cases cuts
    · rw [lexed] at h
      refine .inr ⟨stream, rfl, ?_⟩
      -- Only the first run matters here, so the wider limits are the same ones.
      have self : limits ≤ limits := ⟨Nat.le_refl _, Nat.le_refl _, Nat.le_refl _⟩
      have result := @cutOff_ofTokens ⟨registry, subject, limits, stream.stop⟩ limits self
        stream.tokens
      exact result.fails h cuts

theorem parse_eq_of_le {limits' : Limits} (wider : limits ≤ limits')
    (uncut : Uncut (parse registry subject limits clause)) :
    parse registry subject limits' clause = parse registry subject limits clause := by
  by_cases large : limits.maxClauseBytes < clause.utf8ByteSize
  · rw [parse_of_large registry subject limits clause large] at uncut
    cases uncut_error_iff.1 uncut
  · have small := Nat.not_lt.1 large
    rw [parse_of_small registry subject limits clause small] at uncut ⊢
    rw [parse_of_small registry subject limits' clause (Nat.le_trans small wider.1)]
    rcases lexed : Token.ofClause clause with fault | stream
    · rfl
    · rw [lexed] at uncut
      have result := @cutOff_ofTokens ⟨registry, subject, limits, stream.stop⟩ limits' wider
        stream.tokens
      exact result.eq uncut

/-- Limits only cut off. A result that is no cut-off is the same under wider limits. Nesting is cut
off at the first parenthesis that is deeper than its limit, whose depth is one more than the limit;
the comparisons are cut off at the operator after as many as their limit; and a clause is cut off
for its size alone. -/
theorem parse_cut_off :
    (∀ limits', limits ≤ limits' →
      (∀ e, parse registry subject limits clause = .error e → e.isCutOff = false) →
        parse registry subject limits' clause = parse registry subject limits clause) ∧
    (∀ maxDepth actualDepth offset,
      parse registry subject limits clause =
        .error (.nestingTooDeep maxDepth actualDepth offset) →
      maxDepth = limits.maxNesting ∧ actualDepth = limits.maxNesting + 1 ∧
        ∃ stream, Token.ofClause clause = .ok stream ∧
          stream.OpensFirstBeyond limits.maxNesting offset) ∧
    (∀ maxComparisons offset,
      parse registry subject limits clause = .error (.tooManyComparisons maxComparisons offset) →
      maxComparisons = limits.maxComparisons ∧
        ∃ stream, Token.ofClause clause = .ok stream ∧
          stream.OperatorAfter limits.maxComparisons offset) ∧
    (∀ maxBytes actualBytes,
      parse registry subject limits clause = .error (.inputTooLarge maxBytes actualBytes) ↔
        limits.maxClauseBytes < clause.utf8ByteSize ∧ maxBytes = limits.maxClauseBytes ∧
          actualBytes = clause.utf8ByteSize) ∧
    (∀ maxBytes actualBytes,
      parse registry subject limits clause = .error (.inputTooLarge maxBytes actualBytes) →
      ∀ registry' subject' clause', clause'.utf8ByteSize = clause.utf8ByteSize →
        parse registry' subject' limits clause' = parse registry subject limits clause) := by
  have size (maxBytes actualBytes : Nat) :
      parse registry subject limits clause = .error (.inputTooLarge maxBytes actualBytes) ↔
        limits.maxClauseBytes < clause.utf8ByteSize ∧ maxBytes = limits.maxClauseBytes ∧
          actualBytes = clause.utf8ByteSize := by
    constructor
    · intro h
      rcases fails_of_parse _ _ _ _ h rfl with ⟨large, same⟩ | ⟨stream, -, fails⟩
      · cases same
        exact ⟨large, rfl, rfl⟩
      · obtain ⟨_, _, _, _, -, -, fault⟩ := fails
        rcases pass_eq_cutOff fault rfl with ⟨-, -, same⟩ | ⟨-, -, same⟩
        · cases same
        · cases same
    · rintro ⟨large, rfl, rfl⟩
      exact parse_of_large registry subject limits clause large
  refine ⟨?_, ?_, ?_, size, ?_⟩
  · intro limits' wider uncut
    exact parse_eq_of_le registry subject limits clause wider uncut
  · intro maxDepth actualDepth offset h
    rcases fails_of_parse _ _ _ _ h rfl with ⟨-, same⟩ | ⟨stream, lexed, fails⟩
    · cases same
    · obtain ⟨bound, actual, first⟩ := opensFirstBeyond_of_fails fails
      exact ⟨bound, actual, stream, lexed, first⟩
  · intro maxComparisons offset h
    rcases fails_of_parse _ _ _ _ h rfl with ⟨-, same⟩ | ⟨stream, lexed, fails⟩
    · cases same
    · obtain ⟨bound, last⟩ := operatorAfter_of_fails fails
      exact ⟨bound, stream, lexed, last⟩
  · intro maxBytes actualBytes h registry' subject' clause' same
    obtain ⟨large, -, -⟩ := (size maxBytes actualBytes).1 h
    rw [parse_of_large registry subject limits clause large, ← same]
    exact parse_of_large registry' subject' limits clause' (same ▸ large)

/-- Two parentheses are one too many for a limit of one, at the second; with a limit of two the
clause is the same as with any. -/
theorem parse_cut_off_two_deep :
    parse .builtin "Integer" ⟨13, 1, 1⟩ "this ((== 1))" = .error (.nestingTooDeep 1 2 6) ∧
      (∃ stream, Token.ofClause "this ((== 1))" = .ok stream ∧ stream.OpensFirstBeyond 1 6) ∧
      parse .builtin "Integer" {} "this ((== 1))" =
        parse .builtin "Integer" ⟨13, 2, 1⟩ "this ((== 1))" := by
  have deep : parse .builtin "Integer" ⟨13, 1, 1⟩ "this ((== 1))" =
      .error (.nestingTooDeep 1 2 6) := by cbv
  have accessor : parse .builtin "Integer" ⟨13, 2, 1⟩ "this ((== 1))" =
      .ok ⟨⟨⟨[]⟩, "Integer", [], ⟨"Integer", .scalar .integer⟩⟩, .leaf ⟨.eq, .integer 1, 7⟩⟩ := by
    cbv
  have wider : (⟨13, 2, 1⟩ : Limits) ≤ {} := ⟨by decide, by decide, by decide⟩
  obtain ⟨-, -, first⟩ := (parse_cut_off _ _ _ _).2.1 _ _ _ deep
  refine ⟨deep, first, (parse_cut_off _ _ _ _).1 _ wider ?_⟩
  intro e fault
  rw [accessor] at fault
  cases fault

end Clause

end HalfBinary
