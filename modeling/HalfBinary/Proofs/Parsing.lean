import HalfBinary.Clause.Parser
import HalfBinary.Proofs.Grammar

/-!
# Parsing is derivation

The parser reads exactly the tokens of a derivation (`run_orExpression_eq_ok_iff`). What it counts and binds on
the way is a fold over these tokens (`Context.pass`), one token after another and whatever their
structure, so that its checks are conditions on the tokens alone.
-/

namespace HalfBinary.Clause

/-! ### The parser without its bounds -/

/-- A result without the fact that ends the recursion. -/
def forget {p : Cursor → Prop} (r : Except ClauseError (α × { t : Cursor // p t })) :
    Except ClauseError (α × Cursor) :=
  r.map fun (x, t) => (x, t.1)

/-- What the parser reads of a symbol. -/
def run (ctx : Context) : (n : Symbol) → Cursor → Except ClauseError (n.Tree × Cursor)
  | .orExpression, s => forget (orExpression ctx s)
  | .orOthers, s => forget (orOthers ctx s)
  | .andExpression, s => forget (andExpression ctx s)
  | .andOthers, s => forget (andOthers ctx s)
  | .term, s => forget (term ctx s)

/-- What the parser reads after an opening parenthesis. -/
def runGroup (ctx : Context) (start : Nat) (s : Cursor) :
    Except ClauseError (Constraint × Cursor) := forget (group ctx start s)

/-- What the parser reads of an operator and its literal. -/
def runComparison (ctx : Context) (s : Cursor) : Except ClauseError (Constraint × Cursor) :=
  forget (comparison ctx s)

variable (ctx : Context)

theorem run_orExpression (s : Cursor) :
    run ctx .orExpression s = do
      let (first, s₁) ← run ctx .andExpression s
      let (others, s₂) ← run ctx .orOthers s₁
      return (.join .or (first :: others), s₂) := by
  simp only [run]
  rw [orExpression]
  rcases andExpression ctx s with e | ⟨first, s₁, h₁⟩
  · rfl
  · rcases h : orOthers ctx s₁ with e | ⟨others, s₂, h₂⟩ <;>
      simp [h, bind, Except.bind, forget, Except.map, pure, Except.pure]

theorem run_orOthers_cons (offset : Nat) (rest : List Located) (k m : Nat)
    (a : Option ResolvedAccessor) :
    run ctx .orOthers ⟨⟨.connective .or, offset⟩ :: rest, k, m, a⟩ = do
      let (part, s₁) ← run ctx .andExpression ⟨rest, k, m, a⟩
      let (others, s₂) ← run ctx .orOthers s₁
      return (part :: others, s₂) := by
  simp only [run]
  rw [orOthers]
  dsimp only
  rcases andExpression ctx ⟨rest, k, m, a⟩ with e | ⟨part, s₁, h₁⟩
  · rfl
  · rcases h : orOthers ctx s₁ with e | ⟨others, s₂, h₂⟩ <;>
      simp [h, bind, Except.bind, forget, Except.map, pure, Except.pure]

theorem run_orOthers_end {s : Cursor}
    (other : ∀ offset rest, s.rest ≠ ⟨.connective .or, offset⟩ :: rest) :
    run ctx .orOthers s = .ok ([], s) := by
  simp only [run]
  rw [orOthers]
  split
  · next offset rest h => exact absurd h (other offset rest)
  · rfl

theorem run_andExpression (s : Cursor) :
    run ctx .andExpression s = do
      let (first, s₁) ← run ctx .term s
      let (others, s₂) ← run ctx .andOthers s₁
      return (.join .and (first :: others), s₂) := by
  simp only [run]
  rw [andExpression]
  rcases term ctx s with e | ⟨first, s₁, h₁⟩
  · rfl
  · rcases h : andOthers ctx s₁ with e | ⟨others, s₂, h₂⟩ <;>
      simp [h, bind, Except.bind, forget, Except.map, pure, Except.pure]

theorem run_andOthers_cons (offset : Nat) (rest : List Located) (k m : Nat)
    (a : Option ResolvedAccessor) :
    run ctx .andOthers ⟨⟨.connective .and, offset⟩ :: rest, k, m, a⟩ = do
      let (part, s₁) ← run ctx .term ⟨rest, k, m, a⟩
      let (others, s₂) ← run ctx .andOthers s₁
      return (part :: others, s₂) := by
  simp only [run]
  rw [andOthers]
  dsimp only
  rcases term ctx ⟨rest, k, m, a⟩ with e | ⟨part, s₁, h₁⟩
  · rfl
  · rcases h : andOthers ctx s₁ with e | ⟨others, s₂, h₂⟩ <;>
      simp [h, bind, Except.bind, forget, Except.map, pure, Except.pure]

theorem run_andOthers_end {s : Cursor}
    (other : ∀ offset rest, s.rest ≠ ⟨.connective .and, offset⟩ :: rest) :
    run ctx .andOthers s = .ok ([], s) := by
  simp only [run]
  rw [andOthers]
  split
  · next offset rest h => exact absurd h (other offset rest)
  · rfl

theorem run_term (s : Cursor) :
    run ctx .term s =
      match s.rest with
      | ⟨.openParen, offset⟩ :: rest => runGroup ctx offset { s with rest }
      | ⟨.accessor segments, offset⟩ :: rest => do
        let accessor ← ctx.bind s.accessor (.ofSegments segments) offset
        match rest with
        | ⟨.openParen, inner⟩ :: rest =>
          runGroup ctx inner { s with rest, accessor := some accessor }
        | rest => runComparison ctx { s with rest, accessor := some accessor }
      | ⟨.operator _, _⟩ :: _ => do
        let accessor ← ctx.elided s.accessor
        runComparison ctx { s with accessor := some accessor }
      | rest => .error (ctx.unexpected "comparison or `(`" rest) := by
  obtain ⟨rest, k, m, a⟩ := s
  simp only [run]
  rw [term]
  rcases rest with _ | ⟨⟨t, offset⟩, rest⟩
  · rfl
  cases t with
  | openParen =>
    dsimp only
    rw [runGroup]
    rcases group ctx offset ⟨rest, k, m, a⟩ with e | ⟨x, t, h⟩ <;> rfl
  | accessor segments =>
    dsimp only
    rcases ctx.bind a (.ofSegments segments) offset with e | accessor
    · rfl
    rcases rest with _ | ⟨⟨t, inner⟩, rest⟩
    · rfl
    cases t with
    | openParen =>
      dsimp only [bind, Except.bind]
      rw [runGroup]
      rcases group ctx inner ⟨rest, k, m, some accessor⟩ with e | ⟨x, t, h⟩ <;> rfl
    | accessor _ | operator _ | connective _ | closeParen | literal _ =>
      dsimp only [bind, Except.bind]
      rw [runComparison]
      rcases comparison ctx ⟨_, k, m, some accessor⟩ with e | ⟨x, t, h⟩ <;> rfl
  | operator op =>
    dsimp only
    rcases ctx.elided a with e | accessor
    · rfl
    dsimp only [bind, Except.bind]
    rw [runComparison]
    rcases comparison ctx ⟨_, k, m, some accessor⟩ with e | ⟨x, t, h⟩ <;> rfl
  | closeParen | literal _ | connective _ => rfl

theorem runGroup_eq (start : Nat) (s : Cursor) :
    runGroup ctx start s =
      if ctx.limits.maxNesting < s.nesting + 1 then
        .error (.nestingTooDeep ctx.limits.maxNesting (s.nesting + 1) start)
      else
        run ctx .orExpression { s with nesting := s.nesting + 1 } >>= fun (node, t) =>
          match t.rest with
          | ⟨.closeParen, _⟩ :: rest => .ok (node, { t with rest, nesting := t.nesting - 1 })
          | [] => .error (.unmatchedParen start)
          | rest => .error (ctx.unexpected "`)`, `&&`, or `||`" rest) := by
  rw [runGroup, group]
  split
  · rfl
  · simp only [run]
    rcases orExpression ctx { s with nesting := s.nesting + 1 } with e | ⟨node, ⟨rest, k, m, a⟩, h⟩
    · rfl
    · rcases rest with _ | ⟨⟨t, offset⟩, rest⟩
      · rfl
      · cases t <;> rfl

theorem runComparison_eq (s : Cursor) :
    runComparison ctx s =
      match s.rest with
      | ⟨.operator op, offset⟩ :: rest =>
        if ctx.limits.maxComparisons ≤ s.comparisons then
          .error (.tooManyComparisons ctx.limits.maxComparisons offset)
        else
          match rest with
          | ⟨.literal value, _⟩ :: rest =>
            .ok (.leaf ⟨op, value, offset⟩, { s with rest, comparisons := s.comparisons + 1 })
          | _ => .error (.danglingOperator op offset)
      | rest => .error (ctx.unexpected "comparison operator or `(`" rest) := by
  obtain ⟨rest, k, m, a⟩ := s
  rw [runComparison, comparison]
  rcases rest with _ | ⟨⟨t, offset⟩, rest⟩
  · rfl
  cases t with
  | operator op =>
    dsimp only
    split
    · rfl
    · rcases rest with _ | ⟨⟨t, _⟩, rest⟩
      · rfl
      · cases t <;> rfl
  | accessor _ | openParen | closeParen | literal _ | connective _ => rfl

/-! ### What is counted and bound -/

/-- What has been counted and bound before a position. -/
structure Tally where
  nesting : Nat
  comparisons : Nat
  accessor : Option ResolvedAccessor

/-- The part of a cursor that is no position. -/
def Cursor.tally (s : Cursor) : Tally := ⟨s.nesting, s.comparisons, s.accessor⟩

/-- The tally after one more token. -/
def Context.pass (b : Tally) (t : Located) : Except ClauseError Tally :=
  match t.token with
  | .openParen =>
    if ctx.limits.maxNesting < b.nesting + 1 then
      .error (.nestingTooDeep ctx.limits.maxNesting (b.nesting + 1) t.offset)
    else .ok { b with nesting := b.nesting + 1 }
  | .closeParen => .ok { b with nesting := b.nesting - 1 }
  | .accessor segments => do
    let accessor ← ctx.bind b.accessor (.ofSegments segments) t.offset
    return { b with accessor := some accessor }
  | .operator _ => do
    let accessor ← ctx.elided b.accessor
    if ctx.limits.maxComparisons ≤ b.comparisons then
      .error (.tooManyComparisons ctx.limits.maxComparisons t.offset)
    else return ⟨b.nesting, b.comparisons + 1, some accessor⟩
  | .connective _ | .literal _ => .ok b

variable {ctx}

theorem pass_openParen_iff {b b' : Tally} {offset : Nat} :
    ctx.pass b ⟨.openParen, offset⟩ = .ok b' ↔
      b.nesting + 1 ≤ ctx.limits.maxNesting ∧ b' = { b with nesting := b.nesting + 1 } := by
  by_cases deep : ctx.limits.maxNesting < b.nesting + 1
  · simp [Context.pass, deep, Nat.not_le.2 deep]
  · simp [Context.pass, deep, Nat.not_lt.1 deep, eq_comm]

theorem pass_accessor_iff {b b' : Tally} {segments : List String} {offset : Nat} :
    ctx.pass b ⟨.accessor segments, offset⟩ = .ok b' ↔
      ∃ a, ctx.bind b.accessor (.ofSegments segments) offset = .ok a ∧
        b' = { b with accessor := some a } := by
  simp only [Context.pass, bind_eq_ok_iff]
  simp [pure, Except.pure, eq_comm]

theorem pass_operator_iff {b b' : Tally} {op : Operator} {offset : Nat} :
    ctx.pass b ⟨.operator op, offset⟩ = .ok b' ↔
      ∃ a, ctx.elided b.accessor = .ok a ∧ b.comparisons + 1 ≤ ctx.limits.maxComparisons ∧
        b' = ⟨b.nesting, b.comparisons + 1, some a⟩ := by
  simp only [Context.pass, bind_eq_ok_iff]
  refine exists_congr fun a => and_congr_right fun _ => ?_
  by_cases many : ctx.limits.maxComparisons ≤ b.comparisons
  · simp [many, Nat.not_le.2 (Nat.lt_succ_of_le many)]
  · simp [many, Nat.succ_le_of_lt (Nat.not_le.1 many), pure, Except.pure, eq_comm]

/-- Some tokens lead from one cursor to another. -/
structure Leads (ctx : Context) (s : Cursor) (tokens : List Located) (t : Cursor) : Prop where
  rest : s.rest = tokens ++ t.rest
  tally : tokens.foldlM ctx.pass s.tally = .ok t.tally

theorem Leads.nil (s : Cursor) : Leads ctx s [] s := ⟨rfl, rfl⟩

theorem Leads.append {s t u : Cursor} {first second : List Located} (h : Leads ctx s first t)
    (h' : Leads ctx t second u) : Leads ctx s (first ++ second) u where
  rest := by rw [h.rest, h'.rest, List.append_assoc]
  tally := by rw [List.foldlM_append, h.tally]; exact h'.tally

theorem Leads.split {s u : Cursor} {first second : List Located}
    (h : Leads ctx s (first ++ second) u) : ∃ t, Leads ctx s first t ∧ Leads ctx t second u := by
  have tally := h.tally
  rw [List.foldlM_append, bind_eq_ok_iff] at tally
  obtain ⟨⟨k, m, a⟩, before, after⟩ := tally
  refine ⟨⟨second ++ u.rest, k, m, a⟩, ⟨?_, before⟩, ⟨rfl, after⟩⟩
  rw [h.rest, List.append_assoc]

theorem leads_nil_iff {s t : Cursor} : Leads ctx s [] t ↔ s = t := by
  constructor
  · rintro ⟨rest, tally⟩
    obtain ⟨rest₁, k, m, a⟩ := s
    obtain ⟨rest₂, k', m', a'⟩ := t
    obtain rfl : rest₁ = rest₂ := rest
    simp [Cursor.tally, pure, Except.pure] at tally
    obtain ⟨rfl, rfl, rfl⟩ := tally
    rfl
  · rintro rfl; exact .nil s

theorem leads_cons_iff {s u : Cursor} {t : Located} {tokens : List Located} :
    Leads ctx s (t :: tokens) u ↔
      ∃ rest b, s.rest = t :: rest ∧ ctx.pass s.tally t = .ok b ∧
        Leads ctx ⟨rest, b.nesting, b.comparisons, b.accessor⟩ tokens u := by
  constructor
  · rintro ⟨rest, tally⟩
    rw [List.foldlM_cons, bind_eq_ok_iff] at tally
    obtain ⟨b, first, others⟩ := tally
    exact ⟨_, b, rest, first, rfl, others⟩
  · rintro ⟨rest, b, head, first, tail⟩
    have after : rest = tokens ++ u.rest := tail.rest
    refine ⟨by rw [head, after, List.cons_append], ?_⟩
    rw [List.foldlM_cons, first]
    exact tail.tally

/-! ### Only derivations are read -/

theorem leads_of_runComparison {s t : Cursor} {x : Constraint} {a : ResolvedAccessor}
    (bound : ctx.elided s.accessor = .ok a)
    (h : runComparison ctx { s with accessor := some a } = .ok (x, t)) :
    ∃ op offset literal literalOffset, x = .leaf ⟨op, literal, offset⟩ ∧
      Leads ctx s [⟨.operator op, offset⟩, ⟨.literal literal, literalOffset⟩] t := by
  obtain ⟨rest, k, m, b⟩ := s
  rw [runComparison_eq] at h
  dsimp only at h bound
  split at h
  · next op offset rest =>
    split at h
    · cases h
    · next few =>
      split at h
      · next literal literalOffset rest =>
        simp only [Except.ok.injEq, Prod.mk.injEq] at h
        obtain ⟨rfl, rfl⟩ := h
        refine ⟨op, offset, literal, literalOffset, rfl, ?_⟩
        refine leads_cons_iff.2 ⟨_, ⟨k, m + 1, some a⟩, rfl, ?_, ?_⟩
        · exact pass_operator_iff.2 ⟨a, bound, Nat.not_le.1 few, rfl⟩
        · exact leads_cons_iff.2 ⟨_, ⟨k, m + 1, some a⟩, rfl, rfl, .nil _⟩
      · cases h
  · cases h

/-- The derivation of what the parser has read, up to the cursor where it stopped. -/
def Derived (ctx : Context) (n : Symbol) (s : Cursor) (x : n.Tree) (t : Cursor) : Prop :=
  ∃ d : Derivation n, d.tree = x ∧ Leads ctx s d.tokens t ∧ n.Stops t.rest

/-- The same for a group whose opening parenthesis has been read. -/
def DerivedGroup (ctx : Context) (start : Nat) (s : Cursor) (x : Constraint) (t : Cursor) : Prop :=
  ∃ (d : Derivation .orExpression) (stop : Nat), d.tree = x ∧
    Leads ctx { s with rest := ⟨.openParen, start⟩ :: s.rest }
      (⟨.openParen, start⟩ :: (d.tokens ++ [⟨.closeParen, stop⟩])) t

theorem Derived.shorter {n : Symbol} {s t : Cursor} {x : n.Tree} (h : Derived ctx n s x t)
    (expression : n.IsExpression) : t.rest.length < s.rest.length := by
  obtain ⟨d, -, leads, -⟩ := h
  have := d.two_le_length_tokens expression
  rw [leads.rest, List.length_append]
  omega

theorem Derived.stops {n : Symbol} {s t : Cursor} {x : n.Tree} (h : Derived ctx n s x t) :
    n.Stops t.rest := by
  obtain ⟨-, -, -, stops⟩ := h
  exact stops

section

variable {s t u : Cursor} {rest : List Located} {k m : Nat} {b : Option ResolvedAccessor}
  {x : Constraint} {xs : List Constraint} {start offset : Nat} {segments : List String}
  {a : ResolvedAccessor}

theorem Derived.or (h : Derived ctx .andExpression s x t) (h' : Derived ctx .orOthers t xs u) :
    Derived ctx .orExpression s (.join .or (x :: xs)) u := by
  obtain ⟨d, rfl, leads, -⟩ := h
  obtain ⟨d', rfl, leads', stops⟩ := h'
  exact ⟨.or d d', rfl, leads.append leads', stops⟩

theorem Derived.orMore (h : Derived ctx .andExpression ⟨rest, k, m, b⟩ x t)
    (h' : Derived ctx .orOthers t xs u) :
    Derived ctx .orOthers ⟨⟨.connective .or, offset⟩ :: rest, k, m, b⟩ (x :: xs) u := by
  obtain ⟨d, rfl, leads, -⟩ := h
  obtain ⟨d', rfl, leads', stops⟩ := h'
  refine ⟨.orMore offset d d', rfl, ?_, stops⟩
  exact leads_cons_iff.2 ⟨_, _, rfl, rfl, leads.append leads'⟩

theorem Derived.and (h : Derived ctx .term s x t) (h' : Derived ctx .andOthers t xs u) :
    Derived ctx .andExpression s (.join .and (x :: xs)) u := by
  obtain ⟨d, rfl, leads, -⟩ := h
  obtain ⟨d', rfl, leads', stops⟩ := h'
  exact ⟨.and d d', rfl, leads.append leads', stops⟩

theorem Derived.andMore (h : Derived ctx .term ⟨rest, k, m, b⟩ x t)
    (h' : Derived ctx .andOthers t xs u) :
    Derived ctx .andOthers ⟨⟨.connective .and, offset⟩ :: rest, k, m, b⟩ (x :: xs) u := by
  obtain ⟨d, rfl, leads, -⟩ := h
  obtain ⟨d', rfl, leads', stops⟩ := h'
  refine ⟨.andMore offset d d', rfl, ?_, stops⟩
  exact leads_cons_iff.2 ⟨_, _, rfl, rfl, leads.append leads'⟩

/-- No further part is read where the next token is no `||`. -/
theorem derived_orEnd (other : ∀ offset rest, s.rest ≠ ⟨.connective .or, offset⟩ :: rest)
    (stops : Symbol.andExpression.Stops s.rest) : Derived ctx .orOthers s [] s := by
  refine ⟨.orEnd, rfl, .nil s, ?_⟩
  intro next head
  have notAnd := stops next head
  simp only [Symbol.extends, Bool.or_eq_false_iff]
  refine ⟨?_, notAnd⟩
  obtain ⟨rest, tail⟩ := List.head?_eq_some_iff.1 head
  simpa using fun same => other next.offset rest (by rw [tail, ← same])

theorem derived_andEnd (other : ∀ offset rest, s.rest ≠ ⟨.connective .and, offset⟩ :: rest) :
    Derived ctx .andOthers s [] s := by
  refine ⟨.andEnd, rfl, .nil s, ?_⟩
  intro next head
  obtain ⟨rest, tail⟩ := List.head?_eq_some_iff.1 head
  simpa [Symbol.extends] using fun same => other next.offset rest (by rw [tail, ← same])

theorem Derived.group {stop : Nat} {rest' : List Located} {k' m' : Nat}
    {b' : Option ResolvedAccessor} (fits : k + 1 ≤ ctx.limits.maxNesting)
    (h : Derived ctx .orExpression ⟨rest, k + 1, m, b⟩ x
      ⟨⟨.closeParen, stop⟩ :: rest', k', m', b'⟩) :
    DerivedGroup ctx start ⟨rest, k, m, b⟩ x ⟨rest', k' - 1, m', b'⟩ := by
  obtain ⟨d, rfl, leads, -⟩ := h
  refine ⟨d, stop, rfl, leads_cons_iff.2 ⟨rest, ⟨k + 1, m, b⟩, rfl, ?_, ?_⟩⟩
  · exact pass_openParen_iff.2 ⟨fits, rfl⟩
  · exact leads.append (leads_cons_iff.2 ⟨rest', ⟨k' - 1, m', b'⟩, rfl, rfl, .nil _⟩)

theorem DerivedGroup.term (h : DerivedGroup ctx start ⟨rest, k, m, b⟩ x t) :
    Derived ctx .term ⟨⟨.openParen, start⟩ :: rest, k, m, b⟩ x t := by
  obtain ⟨d, stop, rfl, leads⟩ := h
  exact ⟨.group none start d stop, rfl, leads, Symbol.stops_term _⟩

theorem DerivedGroup.accessorTerm (bound : ctx.bind b (.ofSegments segments) offset = .ok a)
    (h : DerivedGroup ctx start ⟨rest, k, m, some a⟩ x t) :
    Derived ctx .term ⟨⟨.accessor segments, offset⟩ :: ⟨.openParen, start⟩ :: rest, k, m, b⟩ x t := by
  obtain ⟨d, stop, rfl, leads⟩ := h
  refine ⟨.group (some (segments, offset)) start d stop, rfl, ?_, Symbol.stops_term _⟩
  exact leads_cons_iff.2 ⟨_, ⟨k, m, some a⟩, rfl, pass_accessor_iff.2 ⟨a, bound, rfl⟩, leads⟩

theorem derived_of_runComparison (bound : ctx.elided b = .ok a)
    (h : runComparison ctx ⟨rest, k, m, some a⟩ = .ok (x, t)) :
    Derived ctx .term ⟨rest, k, m, b⟩ x t := by
  obtain ⟨op, opOffset, literal, literalOffset, rfl, leads⟩ :=
    leads_of_runComparison (s := ⟨rest, k, m, b⟩) bound h
  exact ⟨.comparison none op opOffset literal literalOffset, rfl, leads, Symbol.stops_term _⟩

theorem derived_of_runComparison_accessor (bound : ctx.bind b (.ofSegments segments) offset = .ok a)
    (h : runComparison ctx ⟨rest, k, m, some a⟩ = .ok (x, t)) :
    Derived ctx .term ⟨⟨.accessor segments, offset⟩ :: rest, k, m, b⟩ x t := by
  obtain ⟨op, opOffset, literal, literalOffset, rfl, leads⟩ :=
    leads_of_runComparison (s := ⟨rest, k, m, some a⟩) rfl h
  refine ⟨.comparison (some (segments, offset)) op opOffset literal literalOffset, rfl, ?_,
    Symbol.stops_term _⟩
  exact leads_cons_iff.2 ⟨_, ⟨k, m, some a⟩, rfl, pass_accessor_iff.2 ⟨a, bound, rfl⟩, leads⟩

end

theorem derived_of_run :
    (∀ s x t, run ctx .orExpression s = .ok (x, t) → Derived ctx .orExpression s x t) ∧
    (∀ s x t, Symbol.andExpression.Stops s.rest → run ctx .orOthers s = .ok (x, t) →
      Derived ctx .orOthers s x t) ∧
    (∀ s x t, run ctx .andExpression s = .ok (x, t) → Derived ctx .andExpression s x t) ∧
    (∀ s x t, run ctx .andOthers s = .ok (x, t) → Derived ctx .andOthers s x t) ∧
    (∀ s x t, run ctx .term s = .ok (x, t) → Derived ctx .term s x t) ∧
    (∀ start s x t, runGroup ctx start s = .ok (x, t) → DerivedGroup ctx start s x t) := by
  -- The further parts of a chain are read where the first part ended, which is what bounds them.
  apply orExpression.mutual_induct
  case case1 =>
    intro s firstIh othersIh x t h
    simp only [run_orExpression, bind_eq_ok_iff] at h
    obtain ⟨⟨first, s₁⟩, hfirst, ⟨others, s₂⟩, hothers, h⟩ := h
    cases h
    have first := firstIh _ _ hfirst
    exact first.or (othersIh s₁ (first.shorter trivial) _ _ first.stops hothers)
  case case2 =>
    intro s offset rest head partIh othersIh x t _ h
    obtain ⟨rest₀, k, m, a⟩ := s
    obtain rfl : rest₀ = _ := head
    simp only [run_orOthers_cons, bind_eq_ok_iff] at h
    obtain ⟨⟨part, s₁⟩, hpart, ⟨others, s₂⟩, hothers, h⟩ := h
    cases h
    have part := partIh _ _ hpart
    exact part.orMore (othersIh s₁ (part.shorter trivial) _ _ part.stops hothers)
  case case3 =>
    intro s other x t stops h
    rw [run_orOthers_end _ other] at h
    cases h
    exact derived_orEnd other stops
  case case4 =>
    intro s firstIh othersIh x t h
    simp only [run_andExpression, bind_eq_ok_iff] at h
    obtain ⟨⟨first, s₁⟩, hfirst, ⟨others, s₂⟩, hothers, h⟩ := h
    cases h
    have first := firstIh _ _ hfirst
    exact first.and (othersIh s₁ (first.shorter trivial) _ _ hothers)
  case case5 =>
    intro s offset rest head partIh othersIh x t h
    obtain ⟨rest₀, k, m, a⟩ := s
    obtain rfl : rest₀ = _ := head
    simp only [run_andOthers_cons, bind_eq_ok_iff] at h
    obtain ⟨⟨part, s₁⟩, hpart, ⟨others, s₂⟩, hothers, h⟩ := h
    cases h
    have part := partIh _ _ hpart
    exact part.andMore (othersIh s₁ (part.shorter trivial) _ _ hothers)
  case case6 =>
    intro s other x t h
    rw [run_andOthers_end _ other] at h
    cases h
    exact derived_andEnd other
  case case7 =>
    intro s offset rest head groupIh x t h
    obtain ⟨rest₀, k, m, a⟩ := s
    obtain rfl : rest₀ = _ := head
    rw [run_term] at h
    exact (groupIh _ _ h).term
  case case8 =>
    intro s segments offset rest head groupIh x t h
    obtain ⟨rest₀, k, m, b⟩ := s
    obtain rfl : rest₀ = _ := head
    simp only [run_term, bind_eq_ok_iff] at h
    obtain ⟨a, bound, h⟩ := h
    split at h
    · next inner rest => exact (groupIh a inner rest rfl _ _ h).accessorTerm bound
    · exact derived_of_runComparison_accessor bound h
  case case9 =>
    intro s op offset rest head x t h
    obtain ⟨rest₀, k, m, b⟩ := s
    obtain rfl : rest₀ = _ := head
    simp only [run_term, bind_eq_ok_iff] at h
    obtain ⟨a, bound, h⟩ := h
    exact derived_of_runComparison bound h
  case case10 =>
    intro s noOpen noAccessor noOperator x t h
    rw [run_term] at h
    split at h
    · next offset rest head => exact (noOpen offset rest head).elim
    · next segments offset rest head => exact (noAccessor segments offset rest head).elim
    · next op offset rest head => exact (noOperator op offset rest head).elim
    · cases h
  case case11 =>
    intro start s deep x t h
    rw [runGroup_eq, if_pos deep] at h
    cases h
  case case12 =>
    intro start s fits innerIh x t h
    obtain ⟨rest, k, m, a⟩ := s
    rw [runGroup_eq, if_neg fits, bind_eq_ok_iff] at h
    obtain ⟨⟨node, ⟨rest₁, k₁, m₁, a₁⟩⟩, hinner, h⟩ := h
    dsimp only at h
    split at h
    · next stop rest₂ =>
      cases h
      exact (innerIh _ _ hinner).group (Nat.not_lt.1 fits)
    · cases h
    · cases h

/-! ### Every derivation is read -/

theorem runComparison_of_leads {s t : Cursor} {op : Operator} {offset : Nat} {literal : Literal}
    {literalOffset : Nat}
    (leads : Leads ctx s [⟨.operator op, offset⟩, ⟨.literal literal, literalOffset⟩] t) :
    ∃ a, ctx.elided s.accessor = .ok a ∧
      runComparison ctx { s with accessor := some a } = .ok (.leaf ⟨op, literal, offset⟩, t) := by
  obtain ⟨rest, k, m, b⟩ := s
  obtain ⟨rest₁, b₁, head, pass, leads⟩ := leads_cons_iff.1 leads
  obtain ⟨a, bound, few, rfl⟩ := pass_operator_iff.1 pass
  obtain ⟨rest₂, b₂, head', pass', leads⟩ := leads_cons_iff.1 leads
  cases pass'
  obtain rfl := leads_nil_iff.1 leads
  obtain rfl : rest = _ := head
  obtain rfl : rest₁ = _ := head'
  refine ⟨a, bound, ?_⟩
  rw [runComparison_eq]
  exact if_neg (Nat.not_le.2 few)

theorem runGroup_of_leads {s t : Cursor} {start stop : Nat} {inner : Derivation .orExpression}
    (ih : ∀ {s t : Cursor}, Leads ctx s inner.tokens t → Symbol.orExpression.Stops t.rest →
      run ctx .orExpression s = .ok (inner.tree, t))
    (leads : Leads ctx s (⟨.openParen, start⟩ :: (inner.tokens ++ [⟨.closeParen, stop⟩])) t) :
    ∃ rest, s.rest = ⟨.openParen, start⟩ :: rest ∧
      runGroup ctx start { s with rest } = .ok (inner.tree, t) := by
  obtain ⟨rest, k, m, a⟩ := s
  obtain ⟨rest₁, b, head, pass, leads⟩ := leads_cons_iff.1 leads
  obtain ⟨fits, rfl⟩ := pass_openParen_iff.1 pass
  obtain ⟨⟨rest₂, k₂, m₂, a₂⟩, content, leads⟩ := leads.split
  obtain ⟨rest₃, b₃, head', pass', leads⟩ := leads_cons_iff.1 leads
  cases pass'
  obtain rfl := leads_nil_iff.1 leads
  obtain rfl : rest₂ = _ := head'
  refine ⟨rest₁, head, ?_⟩
  have read := ih content (Symbol.stops_closeParen _ _ _)
  rw [runGroup_eq]
  exact (if_neg (Nat.not_lt.2 fits)).trans (bind_eq_ok_iff.2 ⟨_, read, rfl⟩)

theorem run_of_leads {n : Symbol} (d : Derivation n) {s t : Cursor}
    (leads : Leads ctx s d.tokens t) (stops : n.Stops t.rest) :
    run ctx n s = .ok (d.tree, t) := by
  induction d generalizing s t with
  | or first others firstIh othersIh =>
    obtain ⟨s₁, before, after⟩ := leads.split
    have between : Symbol.andExpression.Stops s₁.rest := by
      rw [after.rest]
      exact Derivation.stops_orOthers others stops
    rw [run_orExpression]
    exact bind_eq_ok_iff.2 ⟨_, firstIh before between,
      bind_eq_ok_iff.2 ⟨_, othersIh after stops, rfl⟩⟩
  | orEnd =>
    obtain rfl := leads_nil_iff.1 leads
    refine run_orOthers_end ctx ?_
    intro offset rest head
    have := stops ⟨.connective .or, offset⟩ (by rw [head]; rfl)
    simp [Symbol.extends] at this
  | orMore offset part others partIh othersIh =>
    obtain ⟨rest, k, m, a⟩ := s
    obtain ⟨rest₁, b, head, pass, leads⟩ := leads_cons_iff.1 leads
    cases pass
    obtain rfl : rest = _ := head
    obtain ⟨s₁, before, after⟩ := leads.split
    have between : Symbol.andExpression.Stops s₁.rest := by
      rw [after.rest]
      exact Derivation.stops_orOthers others stops
    rw [run_orOthers_cons]
    exact bind_eq_ok_iff.2 ⟨_, partIh before between,
      bind_eq_ok_iff.2 ⟨_, othersIh after stops, rfl⟩⟩
  | and first others firstIh othersIh =>
    obtain ⟨s₁, before, after⟩ := leads.split
    rw [run_andExpression]
    exact bind_eq_ok_iff.2 ⟨_, firstIh before (Symbol.stops_term _),
      bind_eq_ok_iff.2 ⟨_, othersIh after stops, rfl⟩⟩
  | andEnd =>
    obtain rfl := leads_nil_iff.1 leads
    refine run_andOthers_end ctx ?_
    intro offset rest head
    have := stops ⟨.connective .and, offset⟩ (by rw [head]; rfl)
    simp [Symbol.extends] at this
  | andMore offset part others partIh othersIh =>
    obtain ⟨rest, k, m, a⟩ := s
    obtain ⟨rest₁, b, head, pass, leads⟩ := leads_cons_iff.1 leads
    cases pass
    obtain rfl : rest = _ := head
    obtain ⟨s₁, before, after⟩ := leads.split
    rw [run_andOthers_cons]
    exact bind_eq_ok_iff.2 ⟨_, partIh before (Symbol.stops_term _),
      bind_eq_ok_iff.2 ⟨_, othersIh after stops, rfl⟩⟩
  | comparison lead op offset literal literalOffset =>
    rcases lead with _ | ⟨segments, leadOffset⟩
    · obtain ⟨rest, k, m, b⟩ := s
      obtain ⟨a, bound, read⟩ := runComparison_of_leads leads
      obtain rfl : rest = _ := leads.rest
      rw [run_term]
      exact bind_eq_ok_iff.2 ⟨a, bound, read⟩
    · obtain ⟨rest, k, m, b⟩ := s
      obtain ⟨rest₁, b₁, head, pass, leads⟩ := leads_cons_iff.1 leads
      obtain ⟨a, bound, rfl⟩ := pass_accessor_iff.1 pass
      obtain ⟨a', bound', read⟩ := runComparison_of_leads leads
      cases bound'
      obtain rfl : rest = _ := head
      obtain rfl : rest₁ = _ := leads.rest
      rw [run_term]
      exact bind_eq_ok_iff.2 ⟨a, bound, read⟩
  | group lead start inner stop ih =>
    rcases lead with _ | ⟨segments, leadOffset⟩
    · obtain ⟨rest, head, read⟩ := runGroup_of_leads ih leads
      rw [run_term, head]
      exact read
    · obtain ⟨rest, k, m, b⟩ := s
      obtain ⟨rest₁, b₁, head, pass, leads⟩ := leads_cons_iff.1 leads
      obtain ⟨a, bound, rfl⟩ := pass_accessor_iff.1 pass
      obtain ⟨rest₂, head', read⟩ := runGroup_of_leads ih leads
      obtain rfl : rest = _ := head
      obtain rfl : rest₁ = _ := head'
      rw [run_term]
      exact bind_eq_ok_iff.2 ⟨a, bound, read⟩

/-- The parser reads an or-expression exactly where one is derived whose tokens pass all checks and
which nothing continues. -/
theorem run_orExpression_eq_ok_iff {s t : Cursor} {x : Constraint} :
    run ctx .orExpression s = .ok (x, t) ↔ Derived ctx .orExpression s x t := by
  constructor
  · exact derived_of_run.1 s x t
  · rintro ⟨d, rfl, leads, stops⟩
    exact run_of_leads d leads stops

/-! ### The checks as conditions on tokens -/

theorem resolve_path {r : Registry} {subject : String} {path : AccessorPath} {a : ResolvedAccessor}
    (h : r.resolve subject path = .ok a) : a.path = path := by
  simp only [Registry.resolve, bind_eq_ok_iff] at h
  obtain ⟨start, -, ⟨segments, valueType⟩, -, h⟩ := h
  cases h
  rfl

/-- Tokens bind an accessor, or agree with the one that is bound already. -/
def Binds (ctx : Context) (words : List Token) (a : ResolvedAccessor) :
    Option ResolvedAccessor → Prop
  | some bound => bound = a ∧ ∀ path ∈ Token.paths words, path = a.path
  | none => (∃ w ∈ words, w.isBinding) ∧
      ctx.registry.resolve ctx.subject (Token.clausePath words) = .ok a ∧
      ∀ path ∈ Token.paths words, path = Token.clausePath words

theorem binds_nil_iff {b : Option ResolvedAccessor} {a : ResolvedAccessor} :
    Binds ctx [] a b ↔ b = some a := by
  cases b <;> simp [Binds, Token.paths]

theorem binds_accessor_iff {b : Option ResolvedAccessor} {a : ResolvedAccessor}
    {segments : List String} {words : List Token} (offset : Nat) :
    Binds ctx (.accessor segments :: words) a b ↔
      ∃ bound, ctx.bind b (.ofSegments segments) offset = .ok bound ∧
        Binds ctx words a (some bound) := by
  cases b with
  | none =>
    constructor
    · rintro ⟨-, resolved, agree⟩
      have path := resolve_path resolved
      refine ⟨a, resolved, rfl, fun p mem => ?_⟩
      rw [path]
      exact agree p (List.mem_cons_of_mem _ mem)
    · rintro ⟨bound, resolved, same, agree⟩
      subst same
      have path : bound.path = .ofSegments segments := resolve_path resolved
      refine ⟨⟨_, List.mem_cons_self, rfl⟩, resolved, fun p mem => ?_⟩
      rw [path] at agree
      exact (List.mem_cons.1 mem).elim id (agree p)
  | some bound =>
    by_cases same : bound.path = .ofSegments segments
    · simp [Context.bind, same, Binds, Token.paths, Token.path?]
      rintro rfl -
      exact same.symm
    · simp [Context.bind, same, Binds, Token.paths, Token.path?]
      rintro rfl again
      exact absurd again.symm same

theorem binds_operator_iff {b : Option ResolvedAccessor} {a : ResolvedAccessor} {op : Operator}
    {words : List Token} :
    Binds ctx (.operator op :: words) a b ↔
      ∃ bound, ctx.elided b = .ok bound ∧ Binds ctx words a (some bound) := by
  cases b with
  | none =>
    constructor
    · rintro ⟨-, resolved, agree⟩
      have path := resolve_path resolved
      exact ⟨a, resolved, rfl, fun p mem => (agree p mem).trans path.symm⟩
    · rintro ⟨bound, resolved, same, agree⟩
      subst same
      have path := resolve_path resolved
      exact ⟨⟨_, List.mem_cons_self, rfl⟩, resolved, fun p mem => (agree p mem).trans path⟩
  | some bound => simp [Context.elided, Binds, Token.paths, Token.path?]

theorem binds_other_iff {b : Option ResolvedAccessor} {a : ResolvedAccessor} {w : Token}
    {words : List Token} (other : w.isBinding = false) :
    Binds ctx (w :: words) a b ↔ Binds ctx words a b := by
  cases w with
  | accessor _ | operator _ => cases other
  | connective _ | openParen | closeParen | literal _ =>
    cases b <;> simp [Binds, Token.isBinding, Token.isOperator, Token.path?, Token.paths,
      Token.clausePath]

theorem foldlM_pass_iff {tokens : List Located} {k m : Nat} {b : Option ResolvedAccessor}
    {a : ResolvedAccessor} (nested : k ≤ ctx.limits.maxNesting)
    (few : m ≤ ctx.limits.maxComparisons) :
    (∃ t, tokens.foldlM ctx.pass ⟨k, m, b⟩ = .ok t ∧ t.accessor = some a) ↔
      Token.deepest k (tokens.map (·.token)) ≤ ctx.limits.maxNesting ∧
        m + Token.operatorCount (tokens.map (·.token)) ≤ ctx.limits.maxComparisons ∧
        Binds ctx (tokens.map (·.token)) a b := by
  induction tokens generalizing k m b with
  | nil => simp [pure, Except.pure, Token.deepest, Token.operatorCount, nested, few, binds_nil_iff]
  | cons t rest ih =>
    obtain ⟨w, offset⟩ := t
    simp only [List.foldlM_cons, List.map_cons, bind_eq_ok_iff]
    cases w with
    | openParen =>
      rw [binds_other_iff rfl]
      constructor
      · rintro ⟨t, ⟨b₁, pass, after⟩, bound⟩
        obtain ⟨deeper, rfl⟩ := pass_openParen_iff.1 pass
        exact (ih deeper few).1 ⟨t, after, bound⟩
      · rintro ⟨deep, more, binds⟩
        have deeper : k + 1 ≤ ctx.limits.maxNesting := Nat.le_trans (Token.le_deepest _ _) deep
        obtain ⟨t, after, bound⟩ := (ih (b := b) deeper few).2 ⟨deep, more, binds⟩
        exact ⟨t, ⟨_, pass_openParen_iff.2 ⟨deeper, rfl⟩, after⟩, bound⟩
    | closeParen =>
      have nested' : k - 1 ≤ ctx.limits.maxNesting := Nat.le_trans (Nat.sub_le k 1) nested
      rw [binds_other_iff rfl]
      constructor
      · rintro ⟨t, ⟨b₁, pass, after⟩, bound⟩
        cases pass
        obtain ⟨deep, more, binds⟩ := (ih nested' few).1 ⟨t, after, bound⟩
        exact ⟨Nat.max_le.2 ⟨nested, deep⟩, more, binds⟩
      · rintro ⟨deep, more, binds⟩
        obtain ⟨t, after, bound⟩ :=
          (ih (b := b) nested' few).2 ⟨(Nat.max_le.1 deep).2, more, binds⟩
        exact ⟨t, ⟨_, rfl, after⟩, bound⟩
    | accessor segments =>
      rw [binds_accessor_iff offset]
      constructor
      · rintro ⟨t, ⟨b₁, pass, after⟩, bound⟩
        obtain ⟨a₁, first, rfl⟩ := pass_accessor_iff.1 pass
        obtain ⟨deep, more, binds⟩ := (ih nested few).1 ⟨t, after, bound⟩
        exact ⟨deep, more, a₁, first, binds⟩
      · rintro ⟨deep, more, a₁, first, binds⟩
        obtain ⟨t, after, bound⟩ := (ih nested few).2 ⟨deep, more, binds⟩
        exact ⟨t, ⟨_, pass_accessor_iff.2 ⟨a₁, first, rfl⟩, after⟩, bound⟩
    | operator op =>
      have count : Token.operatorCount (.operator op :: rest.map (·.token)) =
          Token.operatorCount (rest.map (·.token)) + 1 := List.countP_cons_of_pos rfl
      rw [binds_operator_iff, count]
      constructor
      · rintro ⟨t, ⟨b₁, pass, after⟩, bound⟩
        obtain ⟨a₁, first, fewer, rfl⟩ := pass_operator_iff.1 pass
        obtain ⟨deep, more, binds⟩ := (ih (m := m + 1) nested fewer).1 ⟨t, after, bound⟩
        exact ⟨deep, by omega, a₁, first, binds⟩
      · rintro ⟨deep, more, a₁, first, binds⟩
        have fewer : m + 1 ≤ ctx.limits.maxComparisons := by omega
        obtain ⟨t, after, bound⟩ := (ih nested fewer).2 ⟨deep, by omega, binds⟩
        exact ⟨t, ⟨_, pass_operator_iff.2 ⟨a₁, first, fewer, rfl⟩, after⟩, bound⟩
    | connective _ | literal _ =>
      rw [binds_other_iff rfl]
      constructor
      · rintro ⟨t, ⟨b₁, pass, after⟩, bound⟩
        cases pass
        exact (ih nested few).1 ⟨t, after, bound⟩
      · intro checks
        obtain ⟨t, after, bound⟩ := (ih nested few).2 checks
        exact ⟨t, ⟨_, rfl, after⟩, bound⟩

/-! ### Whole clauses -/

theorem ofTokens_eq (tokens : List Located) :
    ofTokens ctx tokens =
      run ctx .orExpression ⟨tokens, 0, 0, none⟩ >>= fun (root, s) =>
        match s.rest with
        | [] =>
          match s.accessor with
          | some accessor => .ok ⟨accessor, root⟩
          | none => .error .emptyExpression
        | ⟨.closeParen, offset⟩ :: _ => .error (.unmatchedParen offset)
        | rest => .error (ctx.unexpected "`&&`, `||`, or end of input" rest) := by
  rw [ofTokens]
  simp only [run]
  rcases orExpression ctx ⟨tokens, 0, 0, none⟩ with e | ⟨root, ⟨rest, k, m, a⟩, h⟩
  · rfl
  · rcases rest with _ | ⟨⟨t, offset⟩, rest⟩
    · cases a <;> rfl
    · cases t <;> rfl

/-- Tokens are a clause exactly if an or-expression derives them and they pass all checks. -/
theorem ofTokens_eq_ok_iff {tokens : List Located} {c : Clause} :
    ofTokens ctx tokens = .ok c ↔ ∃ d : Derivation .orExpression, d.tokens = tokens ∧
      Token.parenDepth (tokens.map (·.token)) ≤ ctx.limits.maxNesting ∧
      Token.operatorCount (tokens.map (·.token)) ≤ ctx.limits.maxComparisons ∧
      ctx.registry.resolve ctx.subject (Token.clausePath (tokens.map (·.token))) = .ok c.accessor ∧
      (∀ path ∈ Token.paths (tokens.map (·.token)),
        path = Token.clausePath (tokens.map (·.token))) ∧
      d.tree = c.root := by
  have checks {a : ResolvedAccessor} :=
    @foldlM_pass_iff ctx tokens 0 0 none a (Nat.zero_le _) (Nat.zero_le _)
  simp only [Nat.zero_add] at checks
  rw [ofTokens_eq, bind_eq_ok_iff]
  constructor
  · rintro ⟨⟨root, ⟨rest, k, m, a⟩⟩, read, h⟩
    obtain ⟨d, rfl, ⟨spelled, passed⟩, -⟩ := run_orExpression_eq_ok_iff.1 read
    dsimp only at h spelled
    split at h
    · split at h
      · cases h
        obtain rfl : tokens = d.tokens := by rw [spelled, List.append_nil]
        obtain ⟨shallow, few, -, resolved, agree⟩ := checks.1 ⟨_, passed, rfl⟩
        exact ⟨d, rfl, shallow, few, resolved, agree, rfl⟩
      · cases h
    · cases h
    · cases h
  · rintro ⟨d, rfl, shallow, few, resolved, agree, root⟩
    have binding := d.exists_isBinding trivial
    obtain ⟨⟨k, m, a⟩, passed, bound⟩ := checks.2 ⟨shallow, few, binding, resolved, agree⟩
    refine ⟨(d.tree, ⟨[], k, m, a⟩), run_orExpression_eq_ok_iff.2 ⟨d, rfl, ⟨?_, passed⟩, ?_⟩, ?_⟩
    · exact (List.append_nil _).symm
    · exact Symbol.stops_nil _
    · cases c
      simp only at root bound
      rw [bound, root]

theorem parse_eq_ok_iff {registry : Registry} {subject : String} {limits : Limits}
    {clause : String} {c : Clause} :
    parse registry subject limits clause = .ok c ↔
      clause.utf8ByteSize ≤ limits.maxClauseBytes ∧
        ∃ stream, Token.ofClause clause = .ok stream ∧
          ofTokens ⟨registry, subject, limits, stream.stop⟩ stream.tokens = .ok c := by
  simp only [parse, bind_eq_ok_iff, Limits.checkSize_eq_ok_iff, exists_and_left, exists_const]

/-- A clause is accepted exactly if it is not too long, its tokens derive from an or-expression, they
are nested no deeper and hold no more operators than the limits allow, the clause's path is one of
the subject, and every accessor names this path. The tree is that of the derivation, and the
accessor is the path resolved. -/
theorem parse_eq_ok_iff_exists_derivation (registry : Registry) (subject : String)
    (limits : Limits) (clause : String) (c : Clause) :
    parse registry subject limits clause = .ok c ↔
      clause.utf8ByteSize ≤ limits.maxClauseBytes ∧
        ∃ stream, Token.ofClause clause = .ok stream ∧
          ∃ d : Derivation .orExpression, d.tokens = stream.tokens ∧
            Token.parenDepth stream.words ≤ limits.maxNesting ∧
            Token.operatorCount stream.words ≤ limits.maxComparisons ∧
            registry.resolve subject (Token.clausePath stream.words) = .ok c.accessor ∧
            (∀ path ∈ Token.paths stream.words, path = Token.clausePath stream.words) ∧
            d.tree = c.root := by
  rw [parse_eq_ok_iff]
  refine and_congr_right fun _ => exists_congr fun stream => and_congr_right fun _ => ?_
  exact ofTokens_eq_ok_iff

end HalfBinary.Clause
