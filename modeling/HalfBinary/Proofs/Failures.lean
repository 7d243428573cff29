import HalfBinary.Proofs.CutOffs

/-!
# How parsing fails

A symbol is not read for one of its parts, for a token that is not passed, or for one that does not
go on with it. These are all errors of the parser (`failure_of_run`), so that what holds of each of
them holds of every error.
-/

namespace HalfBinary.Clause

variable {ctx : Context}

/-- Why a symbol is not read from a position. All tokens in front of the reason are passed. -/
inductive Failure (ctx : Context) : Symbol → Cursor → ClauseError → Prop
  | orFirst {s : Cursor} {e : ClauseError} (first : Failure ctx .andExpression s e) :
      Failure ctx .orExpression s e
  | orOthers {s t : Cursor} {x : Constraint} {e : ClauseError}
      (first : Derived ctx .andExpression s x t) (others : Failure ctx .orOthers t e) :
      Failure ctx .orExpression s e
  | orMore {s t : Cursor} {offset : Nat} {e : ClauseError}
      (leads : Leads ctx s [⟨.connective .or, offset⟩] t)
      (chain : Failure ctx .orExpression t e) : Failure ctx .orOthers s e
  | andFirst {s : Cursor} {e : ClauseError} (first : Failure ctx .term s e) :
      Failure ctx .andExpression s e
  | andOthers {s t : Cursor} {x : Constraint} {e : ClauseError}
      (first : Derived ctx .term s x t) (others : Failure ctx .andOthers t e) :
      Failure ctx .andExpression s e
  | andMore {s t : Cursor} {offset : Nat} {e : ClauseError}
      (leads : Leads ctx s [⟨.connective .and, offset⟩] t)
      (chain : Failure ctx .andExpression t e) : Failure ctx .andOthers s e
  /-- No term starts with the next token. -/
  | noTerm {s : Cursor} (other : ∀ k ∈ s.rest.head?, k.token.isOperator = false ∧
      k.token ≠ .openParen ∧ ∀ segments, k.token ≠ .accessor segments) :
      Failure ctx .term s (ctx.unexpected "comparison or `(`" s.rest)
  /-- The accessor, operator or parenthesis of a term is not passed. -/
  | notPassed (lead : Lead) {s t : Cursor} {k : Located} {rest : List Located} {e : ClauseError}
      (leads : Leads ctx s lead.tokens t) (next : t.rest = k :: rest)
      (fault : ctx.pass t.tally k = .error e) : Failure ctx .term s e
  | noOperator {s t : Cursor} {segments : List String} {offset : Nat}
      (leads : Leads ctx s [⟨.accessor segments, offset⟩] t)
      (other : ∀ k ∈ t.rest.head?, k.token.isOperator = false ∧ k.token ≠ .openParen) :
      Failure ctx .term s (ctx.unexpected "comparison operator or `(`" t.rest)
  | noLiteral (lead : Lead) {s t : Cursor} {op : Operator} {offset : Nat}
      (leads : Leads ctx s (lead.tokens ++ [⟨.operator op, offset⟩]) t)
      (other : ∀ literal literalOffset after, t.rest ≠ ⟨.literal literal, literalOffset⟩ :: after) :
      Failure ctx .term s (.danglingOperator op offset)
  | content (lead : Lead) {s t : Cursor} {start : Nat} {e : ClauseError}
      (leads : Leads ctx s (lead.tokens ++ [⟨.openParen, start⟩]) t)
      (content : Failure ctx .orExpression t e) : Failure ctx .term s e
  | unclosed (lead : Lead) {s t u : Cursor} {start : Nat} {x : Constraint}
      (leads : Leads ctx s (lead.tokens ++ [⟨.openParen, start⟩]) t)
      (content : Derived ctx .orExpression t x u) (ended : u.rest = []) :
      Failure ctx .term s (.unmatchedParen start)
  /-- The content of a group ends at a token that does not close it. -/
  | noClose (lead : Lead) {s t u : Cursor} {start : Nat} {x : Constraint}
      (leads : Leads ctx s (lead.tokens ++ [⟨.openParen, start⟩]) t)
      (content : Derived ctx .orExpression t x u)
      (other : ∀ stop after, u.rest ≠ ⟨.closeParen, stop⟩ :: after) :
      Failure ctx .term s (ctx.unexpected "`)`, `&&`, or `||`" u.rest)

/-- A symbol that is not read from a position fails there. -/
def FailsAt (ctx : Context) (n : Symbol) (s : Cursor) : Prop :=
  ∀ e, run ctx n s = .error e → Failure ctx n s e

section

variable {n n' : Symbol} {e : ClauseError} {s : Cursor} {rest : List Located} {k m : Nat}
  {b : Option ResolvedAccessor} {a : ResolvedAccessor}

/-- A chain fails in its first part, or in the others where the first part has ended. -/
theorem failure_chain (join : n.Tree → n'.Tree → α)
    (derived : ∀ x t, run ctx n s = .ok (x, t) → Derived ctx n s x t) (first : FailsAt ctx n s)
    (others : ∀ t : Cursor, t.rest.length < s.rest.length → FailsAt ctx n' t)
    (expression : n.IsExpression)
    (h : (do
      let (x, t) ← run ctx n s
      let (xs, u) ← run ctx n' t
      return (join x xs, u)) = .error e) :
    Failure ctx n s e ∨ ∃ x t, Derived ctx n s x t ∧ Failure ctx n' t e := by
  rcases bind_eq_error_iff.1 h with fault | ⟨⟨x, t⟩, read, h⟩
  · exact .inl (first e fault)
  · have part := derived x t read
    rcases bind_eq_error_iff.1 h with fault | ⟨_, -, h⟩
    · exact .inr ⟨x, t, part, others t (part.shorter expression) e fault⟩
    · cases h

/-- A comparison fails after the accessor in front of it, or at once where an operator is. -/
theorem failure_comparison (lead : Lead) (leads : Leads ctx s lead.tokens ⟨rest, k, m, b⟩)
    (bound : ctx.elided b = .ok a)
    (opens : lead = none → ∃ op offset after, rest = ⟨.operator op, offset⟩ :: after)
    (other : ∀ start after, rest ≠ ⟨.openParen, start⟩ :: after)
    (h : runComparison ctx ⟨rest, k, m, some a⟩ = .error e) : Failure ctx .term s e := by
  rw [runComparison_eq] at h
  dsimp only at h
  split at h
  · next op offset rest =>
    split at h
    · next many =>
      cases h
      refine .notPassed lead leads rfl ?_
      simp [Context.pass, Cursor.tally, bound, many, bind, Except.bind]
    · next few =>
      split at h
      · cases h
      · next noLiteral =>
        cases h
        have passed : ctx.pass ⟨k, m, b⟩ ⟨.operator op, offset⟩ = .ok ⟨k, m + 1, some a⟩ :=
          pass_operator_iff.2 ⟨a, bound, Nat.not_le.1 few, rfl⟩
        have operator : Leads ctx ⟨⟨.operator op, offset⟩ :: rest, k, m, b⟩ [⟨.operator op, offset⟩]
            ⟨rest, k, m + 1, some a⟩ := leads_cons_iff.2 ⟨_, _, rfl, passed, .nil _⟩
        exact .noLiteral lead (leads.append operator) fun literal literalOffset after =>
          noLiteral literal literalOffset after
  · next noOperator =>
    cases h
    rcases lead with _ | ⟨segments, offset⟩
    · obtain ⟨op, offset, after, same⟩ := opens rfl
      exact absurd same (noOperator op offset after)
    · refine .noOperator leads fun next head => ?_
      obtain ⟨w, place⟩ := next
      obtain ⟨after, rfl⟩ := List.head?_eq_some_iff.1 head
      cases w with
      | operator op => exact absurd rfl (noOperator op place after)
      | openParen => exact absurd rfl (other place after)
      | accessor _ | connective _ | closeParen | literal _ => exact ⟨rfl, by simp⟩

theorem failure_group (lead : Lead) {start : Nat}
    (leads : Leads ctx s lead.tokens ⟨⟨.openParen, start⟩ :: rest, k, m, b⟩)
    (fits : ¬ ctx.limits.maxNesting < k + 1)
    (content : FailsAt ctx .orExpression ⟨rest, k + 1, m, b⟩)
    (h : runGroup ctx start ⟨rest, k, m, b⟩ = .error e) : Failure ctx .term s e := by
  have opened : Leads ctx ⟨⟨.openParen, start⟩ :: rest, k, m, b⟩ [⟨.openParen, start⟩]
      ⟨rest, k + 1, m, b⟩ :=
    leads_cons_iff.2 ⟨_, _, rfl, pass_openParen_iff.2 ⟨Nat.not_lt.1 fits, rfl⟩, .nil _⟩
  rw [runGroup_eq, if_neg fits] at h
  rcases bind_eq_error_iff.1 h with fault | ⟨⟨node, t⟩, read, closing⟩
  · exact .content lead (leads.append opened) (content e fault)
  · have derived := run_orExpression_eq_ok_iff.1 read
    dsimp only at closing
    split at closing
    · cases closing
    · next ended =>
      cases closing
      exact .unclosed lead (leads.append opened) derived ended
    · next noClose noEnd =>
      cases closing
      exact .noClose lead (leads.append opened) derived noClose

end

/-- Every error of the parser is a failure. -/
theorem failure_of_run :
    (∀ s, FailsAt ctx .orExpression s) ∧ (∀ s, FailsAt ctx .orOthers s) ∧
    (∀ s, FailsAt ctx .andExpression s) ∧ (∀ s, FailsAt ctx .andOthers s) ∧
    (∀ s, FailsAt ctx .term s) ∧
    (∀ start s (lead : Lead) s₀, Leads ctx s₀ lead.tokens
      { s with rest := ⟨.openParen, start⟩ :: s.rest } →
      ∀ e, runGroup ctx start s = .error e → Failure ctx .term s₀ e) := by
  obtain ⟨-, -, derivedAnd, -, derivedTerm, -⟩ := @derived_of_run ctx
  -- Along the parser's own recursion. A group belongs to a term that may have started before it.
  apply orExpression.mutual_induct ctx
  case case1 =>
    intro s firstIh othersIh e h
    rw [run_orExpression] at h
    rcases failure_chain (fun first others => Constraint.join .or (first :: others)) (derivedAnd s)
      firstIh othersIh trivial h with first | ⟨x, t, first, others⟩
    · exact .orFirst first
    · exact .orOthers first others
  case case2 =>
    intro s offset rest head partIh othersIh e h
    obtain ⟨rest₀, k, m, b⟩ := s
    obtain rfl : rest₀ = _ := head
    rw [run_orOthers_cons] at h
    rcases failure_chain List.cons (derivedAnd _) partIh othersIh trivial h with
      part | ⟨x, t, part, others⟩
    · exact .orMore leads_connective (.orFirst part)
    · exact .orMore leads_connective (.orOthers part others)
  case case3 =>
    intro s other e h
    rw [run_orOthers_end _ other] at h
    cases h
  case case4 =>
    intro s firstIh othersIh e h
    rw [run_andExpression] at h
    rcases failure_chain (fun first others => Constraint.join .and (first :: others))
      (derivedTerm s) firstIh othersIh trivial h with first | ⟨x, t, first, others⟩
    · exact .andFirst first
    · exact .andOthers first others
  case case5 =>
    intro s offset rest head partIh othersIh e h
    obtain ⟨rest₀, k, m, b⟩ := s
    obtain rfl : rest₀ = _ := head
    rw [run_andOthers_cons] at h
    rcases failure_chain List.cons (derivedTerm _) partIh othersIh trivial h with
      part | ⟨x, t, part, others⟩
    · exact .andMore leads_connective (.andFirst part)
    · exact .andMore leads_connective (.andOthers part others)
  case case6 =>
    intro s other e h
    rw [run_andOthers_end _ other] at h
    cases h
  case case7 =>
    intro s offset rest head groupIh e h
    obtain ⟨rest₀, k, m, b⟩ := s
    obtain rfl : rest₀ = _ := head
    rw [run_term] at h
    exact groupIh none _ (.nil _) e h
  case case8 =>
    intro s segments offset rest head groupIh e h
    obtain ⟨rest₀, k, m, b⟩ := s
    obtain rfl : rest₀ = _ := head
    rw [run_term] at h
    rcases bind_eq_error_iff.1 h with fault | ⟨a, bound, read⟩
    · refine .notPassed none (.nil _) rfl ?_
      exact bind_eq_error_iff.2 (.inl fault)
    · have leads : Leads ctx ⟨⟨.accessor segments, offset⟩ :: rest, k, m, b⟩
          (Lead.tokens (some (segments, offset))) ⟨rest, k, m, some a⟩ :=
        leads_cons_iff.2 ⟨_, _, rfl, pass_accessor_iff.2 ⟨a, bound, rfl⟩, .nil _⟩
      clear h
      split at read
      · next inner rest => exact groupIh a inner rest rfl (some (segments, offset)) _ leads e read
      · next noOpen =>
        exact failure_comparison (some (segments, offset)) leads rfl (by simp) noOpen read
  case case9 =>
    intro s op offset rest head e h
    obtain ⟨rest₀, k, m, b⟩ := s
    obtain rfl : rest₀ = _ := head
    rw [run_term] at h
    rcases bind_eq_error_iff.1 h with fault | ⟨a, bound, read⟩
    · refine .notPassed none (.nil _) rfl ?_
      exact bind_eq_error_iff.2 (.inl fault)
    · exact failure_comparison none (.nil _) bound (fun _ => ⟨op, offset, rest, rfl⟩) (by simp) read
  case case10 =>
    intro s noOpen noAccessor noOperator e h
    rw [run_term] at h
    split at h
    · next offset rest head => exact (noOpen offset rest head).elim
    · next segments offset rest head => exact (noAccessor segments offset rest head).elim
    · next op offset rest head => exact (noOperator op offset rest head).elim
    · cases h
      refine .noTerm fun next head => ?_
      obtain ⟨w, offset⟩ := next
      obtain ⟨after, tail⟩ := List.head?_eq_some_iff.1 head
      cases w with
      | openParen => exact (noOpen offset after tail).elim
      | accessor segments => exact (noAccessor segments offset after tail).elim
      | operator op => exact (noOperator op offset after tail).elim
      | connective _ | closeParen | literal _ => exact ⟨rfl, by simp, by simp⟩
  case case11 =>
    intro start s deep lead s₀ leads e h
    rw [runGroup_eq, if_pos deep] at h
    cases h
    refine .notPassed lead leads rfl ?_
    simp [Context.pass, Cursor.tally, deep]
  case case12 =>
    intro start s fits contentIh lead s₀ leads e h
    exact failure_group lead leads fits contentIh h

theorem failsAt (n : Symbol) (s : Cursor) : FailsAt ctx n s := by
  obtain ⟨orExpression, orOthers, andExpression, andOthers, term, -⟩ := @failure_of_run ctx
  cases n with
  | orExpression => exact orExpression s
  | orOthers => exact orOthers s
  | andExpression => exact andExpression s
  | andOthers => exact andOthers s
  | term => exact term s

end HalfBinary.Clause
