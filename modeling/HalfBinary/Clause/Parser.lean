import HalfBinary.Clause
import HalfBinary.Limits
import HalfBinary.Token.Lexer

/-!
# Parsing clauses

The grammar, in which `&&` binds tighter than `||`:

    or-expression  := and-expression ('||' and-expression)*
    and-expression := term ('&&' term)*
    term           := [accessor] '(' or-expression ')' | [accessor] operator literal

The first accessor of a clause, or `this` where an operator comes before any, is the accessor of
every comparison at whatever depth. It may be repeated, but no other may be named.

Each function takes a cursor and returns one with fewer tokens left, which is why the recursion
ends.
-/

namespace HalfBinary.Clause

/-- What stays the same while a clause is parsed. -/
structure Context where
  registry : Registry
  subject : String
  limits : Limits
  /-- The position of the end of the clause. -/
  stop : Nat

/-- A position in the tokens and what has been counted and bound before it. -/
structure Cursor where
  rest : List Located
  /-- Open parentheses. -/
  nesting : Nat
  comparisons : Nat
  accessor : Option ResolvedAccessor

/-- A cursor with fewer tokens left. -/
abbrev After (s : Cursor) := { t : Cursor // t.rest.length < s.rest.length }

/-- A cursor with at most as many tokens left. -/
abbrev NotBefore (s : Cursor) := { t : Cursor // t.rest.length ≤ s.rest.length }

/-- The error that the next token, or the end, is not what is expected. -/
def Context.unexpected (ctx : Context) (expected : String) : List Located → ClauseError
  | [] => .unexpectedToken expected endOfInput ctx.stop
  | t :: _ => .unexpectedToken expected t.token.render t.offset

/-! ## Steps -/

/-- The accessor after one has been written: the first is resolved and the others have to be the
same path. -/
def Context.bind (ctx : Context) (bound : Option ResolvedAccessor) (path : AccessorPath)
    (offset : Nat) : Except ClauseError ResolvedAccessor :=
  match bound with
  | none => ctx.registry.resolve ctx.subject path
  | some a =>
    if a.path = path then .ok a
    else .error (.accessorConflict a.path.render path.render offset)

/-- The accessor of a comparison that names none. -/
def Context.elided (ctx : Context) (bound : Option ResolvedAccessor) :
    Except ClauseError ResolvedAccessor :=
  match bound with
  | none => ctx.registry.resolve ctx.subject ⟨[]⟩
  | some a => .ok a

def comparison (ctx : Context) (s : Cursor) : Except ClauseError (Constraint × After s) :=
  match h : s.rest with
  | ⟨.operator op, offset⟩ :: rest =>
    if ctx.limits.maxComparisons ≤ s.comparisons then
      .error (.tooManyComparisons ctx.limits.maxComparisons offset)
    else
      match rest with
      | ⟨.literal value, _⟩ :: rest =>
        .ok (.leaf ⟨op, value, offset⟩,
          ⟨{ s with rest, comparisons := s.comparisons + 1 }, by
            simp only [h, List.length_cons]; omega⟩)
      | _ => .error (.danglingOperator op offset)
  | rest => .error (ctx.unexpected "comparison operator or `(`" rest)

/-! ## Expressions -/

mutual

def orExpression (ctx : Context) (s : Cursor) : Except ClauseError (Constraint × After s) := do
  let (first, ⟨s₁, h₁⟩) ← andExpression ctx s
  let (others, ⟨s₂, h₂⟩) ← orOthers ctx s₁
  return (.join .or (first :: others), ⟨s₂, Nat.lt_of_le_of_lt h₂ h₁⟩)
termination_by (s.rest.length, 2)

/-- Parses the parts of a chain of `||` after the first. -/
def orOthers (ctx : Context) (s : Cursor) :
    Except ClauseError (List Constraint × NotBefore s) :=
  match h : s.rest with
  | ⟨.connective .or, _⟩ :: rest => do
    let (part, ⟨s₁, h₁⟩) ← andExpression ctx { s with rest }
    let (others, ⟨s₂, h₂⟩) ← orOthers ctx s₁
    return (part :: others, ⟨s₂, by simp [h] at h₁ ⊢; omega⟩)
  | _ => .ok ([], ⟨s, Nat.le_refl _⟩)
termination_by (s.rest.length, 0)
decreasing_by all_goals simp [h] at *; omega

def andExpression (ctx : Context) (s : Cursor) : Except ClauseError (Constraint × After s) := do
  let (first, ⟨s₁, h₁⟩) ← term ctx s
  let (others, ⟨s₂, h₂⟩) ← andOthers ctx s₁
  return (.join .and (first :: others), ⟨s₂, Nat.lt_of_le_of_lt h₂ h₁⟩)
termination_by (s.rest.length, 1)

/-- Parses the parts of a chain of `&&` after the first. -/
def andOthers (ctx : Context) (s : Cursor) :
    Except ClauseError (List Constraint × NotBefore s) :=
  match h : s.rest with
  | ⟨.connective .and, _⟩ :: rest => do
    let (part, ⟨s₁, h₁⟩) ← term ctx { s with rest }
    let (others, ⟨s₂, h₂⟩) ← andOthers ctx s₁
    return (part :: others, ⟨s₂, by simp [h] at h₁ ⊢; omega⟩)
  | _ => .ok ([], ⟨s, Nat.le_refl _⟩)
termination_by (s.rest.length, 0)
decreasing_by all_goals simp [h] at *; omega

/-- Parses a group or a comparison, with or without an accessor in front. -/
def term (ctx : Context) (s : Cursor) : Except ClauseError (Constraint × After s) :=
  match h : s.rest with
  | ⟨.openParen, offset⟩ :: rest => do
    let (node, ⟨s₁, h₁⟩) ← group ctx offset { s with rest }
    return (node, ⟨s₁, by simp [h] at h₁ ⊢; omega⟩)
  | ⟨.accessor segments, offset⟩ :: rest => do
    let accessor ← ctx.bind s.accessor (.ofSegments segments) offset
    match hr : rest with
    | ⟨.openParen, inner⟩ :: rest' => do
      let (node, ⟨s₁, h₁⟩) ← group ctx inner { s with rest := rest', accessor := some accessor }
      return (node, ⟨s₁, by simp [h, hr] at h₁ ⊢; omega⟩)
    | _ => do
      let (node, ⟨s₁, h₁⟩) ← comparison ctx { s with rest, accessor := some accessor }
      return (node, ⟨s₁, by simp [h] at h₁ ⊢; omega⟩)
  | ⟨.operator _, _⟩ :: _ => do
    let accessor ← ctx.elided s.accessor
    let (node, ⟨s₁, h₁⟩) ← comparison ctx { s with accessor := some accessor }
    return (node, ⟨s₁, h₁⟩)
  | rest => .error (ctx.unexpected "comparison or `(`" rest)
termination_by (s.rest.length, 0)
decreasing_by
  · exact Prod.Lex.left _ _ (by simp only [h, List.length_cons]; omega)
  · exact Prod.Lex.left _ _ (by simp only [h, hr, List.length_cons]; omega)

/-- Parses what follows the parenthesis opened at `start`, up to the one that closes it. -/
def group (ctx : Context) (start : Nat) (s : Cursor) :
    Except ClauseError (Constraint × After s) :=
  if ctx.limits.maxNesting < s.nesting + 1 then
    .error (.nestingTooDeep ctx.limits.maxNesting (s.nesting + 1) start)
  else do
    let (node, ⟨s₁, h₁⟩) ← orExpression ctx { s with nesting := s.nesting + 1 }
    match h : s₁.rest with
    | ⟨.closeParen, _⟩ :: rest =>
      return (node, ⟨{ s₁ with rest, nesting := s₁.nesting - 1 }, by simp [h] at h₁ ⊢; omega⟩)
    | [] => .error (.unmatchedParen start)
    | rest => .error (ctx.unexpected "`)`, `&&`, or `||`" rest)
termination_by (s.rest.length, 3)

end

/-! ## Clauses -/

/-- Parses the tokens of a clause to their end. -/
def ofTokens (ctx : Context) (tokens : List Located) : Except ClauseError Clause := do
  let (root, ⟨s, _⟩) ← orExpression ctx ⟨tokens, 0, 0, none⟩
  match s.rest with
  | [] =>
    match s.accessor with
    | some accessor => return ⟨accessor, root⟩
    | none => .error .emptyExpression
  | ⟨.closeParen, offset⟩ :: _ => .error (.unmatchedParen offset)
  | rest => .error (ctx.unexpected "`&&`, `||`, or end of input" rest)

/-- Parses a clause for a subject type. -/
def parse (registry : Registry) (subject : String) (limits : Limits) (clause : String) :
    Except ClauseError Clause := do
  limits.checkSize clause
  let stream ← Token.ofClause clause
  ofTokens ⟨registry, subject, limits, stream.stop⟩ stream.tokens

end HalfBinary.Clause
