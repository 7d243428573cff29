import HalfBinary.Proofs.CutOffs

/-!
# Two readings side by side

The parser does nothing with a literal but keep it, and asks the registry for nothing but the path
of the clause. Two clauses whose tokens look the same behind a mask of their literals are therefore
parsed alike, under any two registries that resolve this path alike (`parse_alike`).
-/

namespace HalfBinary

/-! ### Masked literals -/

/-- The comparison with what is shown of its literal. -/
def Comparison.mask (shown : Literal → Literal) (c : Comparison) : Comparison :=
  { c with literal := shown c.literal }

def Token.isLiteral : Token → Bool
  | literal _ => true
  | accessor _ | operator _ | connective _ | openParen | closeParen => false

/-- The token with what is shown of its literal. -/
def Token.mask (shown : Literal → Literal) : Token → Token
  | literal value => literal (shown value)
  | accessor segments => accessor segments
  | operator op => operator op
  | connective c => connective c
  | openParen => openParen
  | closeParen => closeParen

def Located.mask (shown : Literal → Literal) (t : Located) : Located :=
  { t with token := t.token.mask shown }

section

variable {shown : Literal → Literal}

/-- A token without a literal is shown as it is. -/
theorem Located.eq_of_mask_eq {w : Token} {offset : Nat} {t : Located}
    (same : Located.mask shown ⟨w, offset⟩ = t.mask shown) (plain : w.isLiteral = false) :
    t = ⟨w, offset⟩ := by
  obtain ⟨w', offset'⟩ := t
  cases w <;> cases w' <;> simp_all [Located.mask, Token.mask, Token.isLiteral]

theorem Located.exists_literal_of_mask_eq {value : Literal} {offset : Nat} {t : Located}
    (same : Located.mask shown ⟨.literal value, offset⟩ = t.mask shown) :
    ∃ value', t = ⟨.literal value', offset⟩ ∧ shown value = shown value' := by
  obtain ⟨w', offset'⟩ := t
  cases w' <;> simp_all [Located.mask, Token.mask]

theorem Located.exists_cons_of_map_mask_eq {t : Located} {rest rest' : List Located}
    (same : (t :: rest).map (Located.mask shown) = rest'.map (Located.mask shown)) :
    ∃ t' rest₁, rest' = t' :: rest₁ ∧ t.mask shown = t'.mask shown ∧
      rest.map (Located.mask shown) = rest₁.map (Located.mask shown) := by
  obtain ⟨t', rest₁, rfl, first, others⟩ := List.map_eq_cons_iff.1 same.symm
  exact ⟨t', rest₁, rfl, first.symm, others.symm⟩

end

/-! ### Results that are alike -/

/-- What two runs have in common: what is shown of literals, and errors as far as `same` tells.
After an error of the first run that is excused nothing is asked of the second. -/
structure Likeness where
  shown : Literal → Literal
  same : ClauseError → ClauseError → Prop
  excused : ClauseError → Prop
  refl : ∀ e, same e e
  found : ∀ expected l l' offset, shown l = shown l' →
    same (.unexpectedToken expected l.render offset) (.unexpectedToken expected l'.render offset)

namespace Likeness

/-- Two results that are related, or errors that are alike. -/
inductive Results (k : Likeness) (related : α → β → Prop) :
    Except ClauseError α → Except ClauseError β → Prop
  | ok {a : α} {b : β} (values : related a b) : Results k related (.ok a) (.ok b)
  | error {e e' : ClauseError} (errors : k.same e e') : Results k related (.error e) (.error e')
  | excused {e : ClauseError} {r : Except ClauseError β} (excuse : k.excused e) :
      Results k related (.error e) r

variable {k : Likeness} {α β α' β' : Type}

theorem Results.of_eq {related : α → α → Prop} (refl : ∀ a, related a a)
    (r : Except ClauseError α) : k.Results related r r := by
  cases r with
  | error e => exact .error (k.refl e)
  | ok a => exact .ok (refl a)

theorem Results.bind {related : α → β → Prop} {related' : α' → β' → Prop}
    {r : Except ClauseError α} {r' : Except ClauseError β} {f : α → Except ClauseError α'}
    {f' : β → Except ClauseError β'} (first : k.Results related r r')
    (next : ∀ a b, r = .ok a → related a b → k.Results related' (f a) (f' b)) :
    k.Results related' (r >>= f) (r' >>= f') := by
  cases first with
  | ok values => exact next _ _ rfl values
  | error errors => exact .error errors
  | excused excuse => exact .excused excuse

theorem Results.mapM {related : α → β → Prop} {related' : α' → β' → Prop}
    {f : α → Except ClauseError α'} {f' : β → Except ClauseError β'} {xs : List α} {ys : List β}
    (lists : List.Forall₂ related xs ys)
    (each : ∀ x y, related x y → k.Results related' (f x) (f' y)) :
    k.Results (List.Forall₂ related') (xs.mapM f) (ys.mapM f') := by
  induction lists with
  | nil => exact .ok .nil
  | cons first _ ih =>
    rw [List.mapM_cons, List.mapM_cons]
    apply (each _ _ first).bind
    rintro a b - values
    apply ih.bind
    rintro as bs - others
    exact .ok (.cons values others)

/-- Results whose images are alike are alike themselves. -/
theorem Results.of_map {related : α → β → Prop} {related' : α' → β' → Prop} {f : α → α'}
    {f' : β → β'} {r : Except ClauseError α} {r' : Except ClauseError β}
    (images : k.Results related' (f <$> r) (f' <$> r'))
    (back : ∀ a b, related' (f a) (f' b) → related a b) : k.Results related r r' := by
  cases r with
  | error e =>
    cases r' with
    | error e' =>
      cases images with
      | error errors => exact .error errors
      | excused excuse => exact .excused excuse
    | ok b =>
      cases images with
      | excused excuse => exact .excused excuse
  | ok a =>
    cases r' with
    | error e' => cases images
    | ok b =>
      cases images with
      | ok values => exact .ok (back a b values)

end Likeness

namespace Clause

open Likeness (Results)

variable {k : Likeness} {ctx ctx' : Context}

/-! ### Cursors that are alike -/

/-- Two cursors at tokens of which the same is shown. -/
structure Cursor.Alike (k : Likeness) (s s' : Cursor) : Prop where
  rest : s.rest.map (Located.mask k.shown) = s'.rest.map (Located.mask k.shown)
  nesting : s.nesting = s'.nesting
  comparisons : s.comparisons = s'.comparisons
  accessor : s.accessor = s'.accessor

theorem Cursor.Alike.symm {s s' : Cursor} (cursors : s.Alike k s') : s'.Alike k s :=
  ⟨cursors.rest.symm, cursors.nesting.symm, cursors.comparisons.symm, cursors.accessor.symm⟩

/-- A token without a literal is the next one of both cursors. -/
theorem Cursor.Alike.exists_cons {w : Token} {offset n m : Nat} {rest : List Located}
    {b : Option ResolvedAccessor} {s : Cursor}
    (cursors : Cursor.Alike k ⟨⟨w, offset⟩ :: rest, n, m, b⟩ s) (plain : w.isLiteral = false) :
    ∃ rest', s = ⟨⟨w, offset⟩ :: rest', n, m, b⟩ ∧
      rest.map (Located.mask k.shown) = rest'.map (Located.mask k.shown) := by
  obtain ⟨rest', n', m', b'⟩ := s
  obtain ⟨same, rfl, rfl, rfl⟩ := cursors
  obtain ⟨t, rest', rfl, first, others⟩ := Located.exists_cons_of_map_mask_eq same
  obtain rfl := Located.eq_of_mask_eq first plain
  exact ⟨rest', rfl, others⟩

theorem Cursor.Alike.not_cons {w : Token} {s s' : Cursor} (cursors : s.Alike k s')
    (plain : w.isLiteral = false) (other : ∀ offset rest, s.rest ≠ ⟨w, offset⟩ :: rest) :
    ∀ offset rest, s'.rest ≠ ⟨w, offset⟩ :: rest := by
  intro offset rest head
  obtain ⟨rest', n, m, b⟩ := s'
  obtain rfl : rest' = _ := head
  obtain ⟨rest₁, rfl, -⟩ := cursors.symm.exists_cons plain
  exact other offset rest₁ rfl

/-- Two contexts that differ in their registries at most. -/
structure Context.Alike (ctx ctx' : Context) : Prop where
  subject : ctx'.subject = ctx.subject
  limits : ctx'.limits = ctx.limits
  stop : ctx'.stop = ctx.stop

/-- Unless an accessor is bound already, the registries resolve alike the path that the tokens
name. -/
def Settled (k : Likeness) (ctx ctx' : Context) (s : Cursor) : Prop :=
  s.accessor = none → k.Results Eq
    (ctx.registry.resolve ctx.subject (Token.clausePath (s.rest.map (·.token))))
    (ctx'.registry.resolve ctx.subject (Token.clausePath (s.rest.map (·.token))))

theorem settled_of_isSome {s : Cursor} (bound : s.accessor.isSome) : Settled k ctx ctx' s := by
  intro none
  rw [none] at bound
  cases bound

/-- Two readings of a symbol from a position that end alike. After an expression an accessor is
bound. -/
structure Ends (k : Likeness) (n : Symbol) (s : Cursor) (r r' : n.Tree × Cursor) : Prop where
  tree : n.mapTree (Comparison.mask k.shown) r.1 = n.mapTree (Comparison.mask k.shown) r'.1
  cursor : r.2.Alike k r'.2
  bound : n.IsExpression ∨ s.accessor.isSome → r.2.accessor.isSome

/-- It does not matter where an expression started. -/
theorem Ends.start {n : Symbol} {s s₀ : Cursor} {r : Except ClauseError (n.Tree × Cursor)}
    {r' : Except ClauseError (n.Tree × Cursor)} (expression : n.IsExpression)
    (ends : k.Results (Ends k n s) r r') : k.Results (Ends k n s₀) r r' := by
  cases ends with
  | ok ends => exact .ok ⟨ends.tree, ends.cursor, fun _ => ends.bound (.inl expression)⟩
  | error errors => exact .error errors
  | excused excuse => exact .excused excuse

/-- The readings of a part of a chain and of the parts after it, put together. -/
theorem alike_chain (n n' whole : Symbol) {start s s' : Cursor}
    (join : n.Tree → n'.Tree → whole.Tree)
    (masked : ∀ x xs x' xs',
      n.mapTree (Comparison.mask k.shown) x = n.mapTree (Comparison.mask k.shown) x' →
      n'.mapTree (Comparison.mask k.shown) xs = n'.mapTree (Comparison.mask k.shown) xs' →
      whole.mapTree (Comparison.mask k.shown) (join x xs) =
        whole.mapTree (Comparison.mask k.shown) (join x' xs'))
    (expression : n.IsExpression)
    (derived : ∀ x t, run ctx n s = .ok (x, t) → Derived ctx n s x t)
    (first : k.Results (Ends k n s) (run ctx n s) (run ctx' n s'))
    (others : ∀ t : Cursor, t.rest.length < s.rest.length → ∀ t', t.Alike k t' →
      Settled k ctx ctx' t → k.Results (Ends k n' t) (run ctx n' t) (run ctx' n' t')) :
    k.Results (Ends k whole start)
      (do
        let (x, t) ← run ctx n s
        let (xs, u) ← run ctx n' t
        return (join x xs, u))
      (do
        let (x, t) ← run ctx' n s'
        let (xs, u) ← run ctx' n' t
        return (join x xs, u)) := by
  apply first.bind
  rintro ⟨x, t⟩ ⟨x', t'⟩ read ends
  -- The first part has taken a token and bound an accessor: no path is left for the others.
  have shorter := (derived x t read).shorter expression
  have bound := ends.bound (.inl expression)
  apply (others t shorter t' ends.cursor (settled_of_isSome bound)).bind
  rintro ⟨xs, u⟩ ⟨xs', u'⟩ - ends'
  exact .ok ⟨masked _ _ _ _ ends.tree ends'.tree, ends'.cursor,
    fun _ => ends'.bound (.inr bound)⟩

theorem masked_join (connective : Connective) {shown : Literal → Literal}
    (x : Constraint) (xs : List Constraint) (x' : Constraint) (xs' : List Constraint)
    (first : x.map (Comparison.mask shown) = x'.map (Comparison.mask shown))
    (others : Constraint.mapAll (Comparison.mask shown) xs =
      Constraint.mapAll (Comparison.mask shown) xs') :
    (Constraint.join connective (x :: xs)).map (Comparison.mask shown) =
      (Constraint.join connective (x' :: xs')).map (Comparison.mask shown) := by
  rw [Constraint.map_join, Constraint.map_join, Constraint.mapAll, Constraint.mapAll, first, others]

theorem masked_cons {shown : Literal → Literal}
    (x : Constraint) (xs : List Constraint) (x' : Constraint) (xs' : List Constraint)
    (first : x.map (Comparison.mask shown) = x'.map (Comparison.mask shown))
    (others : Constraint.mapAll (Comparison.mask shown) xs =
      Constraint.mapAll (Comparison.mask shown) xs') :
    Constraint.mapAll (Comparison.mask shown) (x :: xs) =
      Constraint.mapAll (Comparison.mask shown) (x' :: xs') := by
  rw [Constraint.mapAll, Constraint.mapAll, first, others]

section

variable (alike : ctx.Alike ctx') {s : Cursor}

include alike

theorem alike_unexpected (expected : String) {rest rest' : List Located}
    (same : rest.map (Located.mask k.shown) = rest'.map (Located.mask k.shown)) :
    k.same (ctx.unexpected expected rest) (ctx'.unexpected expected rest') := by
  rcases rest with _ | ⟨⟨w, offset⟩, rest⟩
  · obtain rfl : rest' = [] := List.map_eq_nil_iff.1 same.symm
    rw [Context.unexpected, Context.unexpected, alike.stop]
    exact k.refl _
  · obtain ⟨t, rest₁, rfl, first, -⟩ := Located.exists_cons_of_map_mask_eq same
    cases w with
    | literal value =>
      obtain ⟨value', rfl, shown⟩ := Located.exists_literal_of_mask_eq first
      exact k.found expected value value' offset shown
    | accessor _ | operator _ | connective _ | openParen | closeParen =>
      obtain rfl := Located.eq_of_mask_eq first rfl
      exact k.refl _

theorem alike_bind (settled : Settled k ctx ctx' s) {segments : List String} {offset : Nat}
    {rest : List Located} (head : s.rest = ⟨.accessor segments, offset⟩ :: rest) :
    k.Results Eq (ctx.bind s.accessor (.ofSegments segments) offset)
      (ctx'.bind s.accessor (.ofSegments segments) offset) := by
  rcases bound : s.accessor with _ | a
  · have resolved := settled bound
    rw [head] at resolved
    rw [Context.bind, Context.bind, alike.subject]
    exact resolved
  · exact .of_eq (fun _ => rfl) _

theorem alike_elided (settled : Settled k ctx ctx' s) {op : Operator} {offset : Nat}
    {rest : List Located} (head : s.rest = ⟨.operator op, offset⟩ :: rest) :
    k.Results Eq (ctx.elided s.accessor) (ctx'.elided s.accessor) := by
  rcases bound : s.accessor with _ | a
  · have resolved := settled bound
    rw [head] at resolved
    rw [Context.elided, Context.elided, alike.subject]
    exact resolved
  · exact .of_eq (fun _ => rfl) _

/-! ### Runs that are alike -/

theorem alike_runComparison {a : ResolvedAccessor} {rest rest' : List Located} {n m : Nat}
    (same : rest.map (Located.mask k.shown) = rest'.map (Located.mask k.shown)) (s : Cursor) :
    k.Results (Ends k .term s) (runComparison ctx ⟨rest, n, m, some a⟩)
      (runComparison ctx' ⟨rest', n, m, some a⟩) := by
  rw [runComparison_eq, runComparison_eq, alike.limits]
  rcases rest with _ | ⟨⟨w, offset⟩, rest⟩
  · obtain rfl : rest' = [] := List.map_eq_nil_iff.1 same.symm
    exact .error (alike_unexpected alike _ rfl)
  obtain ⟨t, rest₁, rfl, first, others⟩ := Located.exists_cons_of_map_mask_eq same
  cases w with
  | operator op =>
    obtain rfl := Located.eq_of_mask_eq first rfl
    dsimp only
    split
    · exact .error (k.refl _)
    · rcases rest with _ | ⟨⟨w, literalOffset⟩, rest⟩
      · obtain rfl : rest₁ = [] := List.map_eq_nil_iff.1 others.symm
        exact .error (k.refl _)
      obtain ⟨t, rest₂, rfl, second, tail⟩ := Located.exists_cons_of_map_mask_eq others
      cases w with
      | literal value =>
        obtain ⟨value', rfl, shown⟩ := Located.exists_literal_of_mask_eq second
        refine .ok ⟨?_, ⟨tail, rfl, rfl, rfl⟩, fun _ => rfl⟩
        exact congrArg (fun l => Constraint.leaf ⟨op, l, offset⟩) shown
      | accessor _ | operator _ | connective _ | openParen | closeParen =>
        obtain rfl := Located.eq_of_mask_eq second rfl
        exact .error (k.refl _)
  | literal value =>
    obtain ⟨value', rfl, -⟩ := Located.exists_literal_of_mask_eq first
    exact .error (alike_unexpected alike _ same)
  | accessor _ | connective _ | openParen | closeParen =>
    obtain rfl := Located.eq_of_mask_eq first rfl
    exact .error (alike_unexpected alike _ same)

theorem alike_runGroup {start : Nat} {rest rest' : List Located} {n m : Nat}
    {b : Option ResolvedAccessor} (s : Cursor) (fits : ¬ ctx.limits.maxNesting < n + 1)
    (inner : k.Results (Ends k .orExpression ⟨rest, n + 1, m, b⟩)
      (run ctx .orExpression ⟨rest, n + 1, m, b⟩) (run ctx' .orExpression ⟨rest', n + 1, m, b⟩)) :
    k.Results (Ends k .term s) (runGroup ctx start ⟨rest, n, m, b⟩)
      (runGroup ctx' start ⟨rest', n, m, b⟩) := by
  rw [runGroup_eq, runGroup_eq, alike.limits, if_neg fits, if_neg fits]
  apply inner.bind
  rintro ⟨node, ⟨rest₁, n₁, m₁, b₁⟩⟩ ⟨node', ⟨rest₂, n₂, m₂, b₂⟩⟩ - ends
  obtain ⟨tree, ⟨same, rfl, rfl, rfl⟩, bound⟩ := ends
  dsimp only at tree same bound ⊢
  rcases rest₁ with _ | ⟨⟨w, offset⟩, rest₁⟩
  · obtain rfl : rest₂ = [] := List.map_eq_nil_iff.1 same.symm
    exact .error (k.refl _)
  obtain ⟨t, rest₃, rfl, first, others⟩ := Located.exists_cons_of_map_mask_eq same
  cases w with
  | closeParen =>
    obtain rfl := Located.eq_of_mask_eq first rfl
    exact .ok ⟨tree, ⟨others, rfl, rfl, rfl⟩, fun _ => bound (.inl trivial)⟩
  | literal value =>
    obtain ⟨value', rfl, -⟩ := Located.exists_literal_of_mask_eq first
    exact .error (alike_unexpected alike _ same)
  | accessor _ | operator _ | connective _ | openParen =>
    obtain rfl := Located.eq_of_mask_eq first rfl
    exact .error (alike_unexpected alike _ same)

end

/-- A term starts with a parenthesis, an accessor or an operator. -/
theorem run_term_of_unexpected {s : Cursor}
    (noOpen : ∀ offset rest, s.rest ≠ ⟨.openParen, offset⟩ :: rest)
    (noAccessor : ∀ segments offset rest, s.rest ≠ ⟨.accessor segments, offset⟩ :: rest)
    (noOperator : ∀ op offset rest, s.rest ≠ ⟨.operator op, offset⟩ :: rest) :
    run ctx .term s = .error (ctx.unexpected "comparison or `(`" s.rest) := by
  rw [run_term]
  split
  · next offset rest head => exact (noOpen offset rest head).elim
  · next segments offset rest head => exact (noAccessor segments offset rest head).elim
  · next op offset rest head => exact (noOperator op offset rest head).elim
  · rfl

/-- The parser reads a symbol alike from any two cursors that are alike. -/
def RunsAlike (k : Likeness) (ctx ctx' : Context) (n : Symbol) (s : Cursor) : Prop :=
  ∀ s', s.Alike k s' → Settled k ctx ctx' s → k.Results (Ends k n s) (run ctx n s) (run ctx' n s')

/-- The same of a group whose opening parenthesis has been read. -/
def GroupRunsAlike (k : Likeness) (ctx ctx' : Context) (start : Nat) (s : Cursor) : Prop :=
  ∀ s', s.Alike k s' → Settled k ctx ctx' s →
    k.Results (Ends k .term s) (runGroup ctx start s) (runGroup ctx' start s')

theorem alike_run (alike : ctx.Alike ctx') :
    (∀ s, RunsAlike k ctx ctx' .orExpression s) ∧ (∀ s, RunsAlike k ctx ctx' .orOthers s) ∧
    (∀ s, RunsAlike k ctx ctx' .andExpression s) ∧ (∀ s, RunsAlike k ctx ctx' .andOthers s) ∧
    (∀ s, RunsAlike k ctx ctx' .term s) ∧ (∀ start s, GroupRunsAlike k ctx ctx' start s) := by
  obtain ⟨-, -, derivedAnd, -, derivedTerm, -⟩ := @derived_of_run ctx
  -- Along the recursion of the first run, which the second follows: what is shown of the next token
  -- decides the branch.
  apply orExpression.mutual_induct ctx
  case case1 =>
    intro s firstIh othersIh s' cursors settled
    rw [run_orExpression, run_orExpression]
    exact alike_chain .andExpression .orOthers .orExpression (fun x xs => .join .or (x :: xs))
      (masked_join .or) trivial (derivedAnd s) (firstIh s' cursors settled) othersIh
  case case2 =>
    intro s offset rest head partIh othersIh s' cursors settled
    obtain ⟨rest₀, n, m, b⟩ := s
    obtain rfl : rest₀ = _ := head
    obtain ⟨rest', rfl, others⟩ := cursors.exists_cons rfl
    rw [run_orOthers_cons, run_orOthers_cons]
    exact alike_chain .andExpression .orOthers .orOthers List.cons masked_cons trivial
      (derivedAnd _)
      (partIh ⟨rest', n, m, b⟩ ⟨others, rfl, rfl, rfl⟩ settled) othersIh
  case case3 =>
    intro s other s' cursors settled
    rw [run_orOthers_end _ other, run_orOthers_end _ (cursors.not_cons rfl other)]
    exact .ok ⟨rfl, cursors, fun bound => bound.elim False.elim id⟩
  case case4 =>
    intro s firstIh othersIh s' cursors settled
    rw [run_andExpression, run_andExpression]
    exact alike_chain .term .andOthers .andExpression (fun x xs => .join .and (x :: xs))
      (masked_join .and) trivial (derivedTerm s) (firstIh s' cursors settled) othersIh
  case case5 =>
    intro s offset rest head partIh othersIh s' cursors settled
    obtain ⟨rest₀, n, m, b⟩ := s
    obtain rfl : rest₀ = _ := head
    obtain ⟨rest', rfl, others⟩ := cursors.exists_cons rfl
    rw [run_andOthers_cons, run_andOthers_cons]
    exact alike_chain .term .andOthers .andOthers List.cons masked_cons trivial (derivedTerm _)
      (partIh ⟨rest', n, m, b⟩ ⟨others, rfl, rfl, rfl⟩ settled) othersIh
  case case6 =>
    intro s other s' cursors settled
    rw [run_andOthers_end _ other, run_andOthers_end _ (cursors.not_cons rfl other)]
    exact .ok ⟨rfl, cursors, fun bound => bound.elim False.elim id⟩
  case case7 =>
    intro s offset rest head groupIh s' cursors settled
    obtain ⟨rest₀, n, m, b⟩ := s
    obtain rfl : rest₀ = _ := head
    obtain ⟨rest', rfl, others⟩ := cursors.exists_cons rfl
    rw [run_term, run_term]
    exact Ends.start (n := .term) trivial
      (groupIh ⟨rest', n, m, b⟩ ⟨others, rfl, rfl, rfl⟩ settled)
  case case8 =>
    intro s segments offset rest head groupIh s' cursors settled
    obtain ⟨rest₀, n, m, b⟩ := s
    obtain rfl : rest₀ = _ := head
    obtain ⟨rest', rfl, others⟩ := cursors.exists_cons rfl
    rw [run_term, run_term]
    apply (alike_bind alike settled rfl).bind
    rintro a _ - rfl
    rcases rest with _ | ⟨⟨w, inner⟩, rest⟩
    · obtain rfl : rest' = [] := List.map_eq_nil_iff.1 others.symm
      exact alike_runComparison alike rfl _
    obtain ⟨t, rest'', rfl, second, others'⟩ := Located.exists_cons_of_map_mask_eq others
    cases w with
    | openParen =>
      obtain rfl := Located.eq_of_mask_eq second rfl
      have ends := groupIh a inner rest rfl ⟨rest'', n, m, some a⟩ ⟨others', rfl, rfl, rfl⟩
        (settled_of_isSome rfl)
      exact Ends.start (n := .term) trivial ends
    | literal value =>
      obtain ⟨value', rfl, -⟩ := Located.exists_literal_of_mask_eq second
      exact alike_runComparison alike others _
    | accessor _ | operator _ | connective _ | closeParen =>
      obtain rfl := Located.eq_of_mask_eq second rfl
      exact alike_runComparison alike others _
  case case9 =>
    intro s op offset rest head s' cursors settled
    obtain ⟨rest₀, n, m, b⟩ := s
    obtain rfl : rest₀ = _ := head
    obtain ⟨rest', rfl, others⟩ := cursors.exists_cons rfl
    rw [run_term, run_term]
    apply (alike_elided alike settled rfl).bind
    rintro a _ - rfl
    exact alike_runComparison alike cursors.rest _
  case case10 =>
    intro s noOpen noAccessor noOperator s' cursors settled
    have noOpen' := cursors.not_cons (w := .openParen) rfl noOpen
    have noAccessor' (segments : List String) :=
      cursors.not_cons (w := .accessor segments) rfl (noAccessor segments)
    have noOperator' (op : Operator) :=
      cursors.not_cons (w := .operator op) rfl (noOperator op)
    rw [run_term_of_unexpected noOpen noAccessor noOperator,
      run_term_of_unexpected noOpen' noAccessor' noOperator']
    exact .error (alike_unexpected alike _ cursors.rest)
  case case11 =>
    intro start s deep s' cursors settled
    rw [runGroup_eq, runGroup_eq, alike.limits, ← cursors.nesting, if_pos deep, if_pos deep]
    exact .error (k.refl _)
  case case12 =>
    intro start s fits innerIh s' cursors settled
    obtain ⟨rest, n, m, b⟩ := s
    obtain ⟨rest', n', m', b'⟩ := s'
    obtain ⟨same, rfl, rfl, rfl⟩ := cursors
    exact alike_runGroup alike _ fits (innerIh ⟨rest', n + 1, m, b⟩ ⟨same, rfl, rfl, rfl⟩ settled)

/-! ### Whole clauses -/

/-- Two clauses on the same path of which the same is shown. -/
structure Alike (k : Likeness) (c c' : Clause) : Prop where
  accessor : c.accessor = c'.accessor
  root : c.root.map (Comparison.mask k.shown) = c'.root.map (Comparison.mask k.shown)

theorem ofTokens_alike (alike : ctx.Alike ctx') {tokens tokens' : List Located}
    (same : tokens.map (Located.mask k.shown) = tokens'.map (Located.mask k.shown))
    (resolved : k.Results Eq
      (ctx.registry.resolve ctx.subject (Token.clausePath (tokens.map (·.token))))
      (ctx'.registry.resolve ctx.subject (Token.clausePath (tokens.map (·.token))))) :
    k.Results (Alike k) (ofTokens ctx tokens) (ofTokens ctx' tokens') := by
  rw [ofTokens_eq, ofTokens_eq]
  have read := (alike_run alike).1 ⟨tokens, 0, 0, none⟩ ⟨tokens', 0, 0, none⟩
    ⟨same, rfl, rfl, rfl⟩ (fun _ => resolved)
  apply read.bind
  rintro ⟨root, ⟨rest, n, m, b⟩⟩ ⟨root', ⟨rest', n', m', b'⟩⟩ - ⟨tree, ⟨same, rfl, rfl, rfl⟩, -⟩
  dsimp only at tree same ⊢
  rcases rest with _ | ⟨⟨w, offset⟩, rest⟩
  · obtain rfl : rest' = [] := List.map_eq_nil_iff.1 same.symm
    cases b with
    | none => exact .error (k.refl _)
    | some accessor => exact .ok ⟨rfl, tree⟩
  obtain ⟨t, rest₁, rfl, first, -⟩ := Located.exists_cons_of_map_mask_eq same
  cases w with
  | literal value =>
    obtain ⟨value', rfl, -⟩ := Located.exists_literal_of_mask_eq first
    exact .error (alike_unexpected alike _ same)
  | closeParen =>
    obtain rfl := Located.eq_of_mask_eq first rfl
    exact .error (k.refl _)
  | accessor _ | operator _ | connective _ | openParen =>
    obtain rfl := Located.eq_of_mask_eq first rfl
    exact .error (alike_unexpected alike _ same)

/-- Two streams that end at the same position, of whose tokens the same is shown, under registries
that resolve their path alike. -/
structure StreamsAlike (k : Likeness) (registry registry' : Registry) (subject : String)
    (stream stream' : TokenStream) : Prop where
  stop : stream.stop = stream'.stop
  tokens : stream.tokens.map (Located.mask k.shown) = stream'.tokens.map (Located.mask k.shown)
  resolved : k.Results Eq (registry.resolve subject (Token.clausePath stream.words))
    (registry'.resolve subject (Token.clausePath stream.words))

theorem parse_alike {registry registry' : Registry} {subject : String} (limits : Limits)
    {clause clause' : String} (size : clause.utf8ByteSize = clause'.utf8ByteSize)
    (lexed : k.Results (StreamsAlike k registry registry' subject) (Token.ofClause clause)
      (Token.ofClause clause')) :
    k.Results (Alike k) (parse registry subject limits clause)
      (parse registry' subject limits clause') := by
  by_cases large : limits.maxClauseBytes < clause.utf8ByteSize
  · rw [parse_of_large registry subject limits clause large,
      parse_of_large registry' subject limits clause' (size ▸ large), size]
    exact .error (k.refl _)
  · have small := Nat.not_lt.1 large
    rw [parse_of_small registry subject limits clause small,
      parse_of_small registry' subject limits clause' (size ▸ small)]
    apply lexed.bind
    rintro stream stream' - streams
    have alike : Context.Alike ⟨registry, subject, limits, stream.stop⟩
        ⟨registry', subject, limits, stream'.stop⟩ := ⟨rfl, rfl, streams.stop.symm⟩
    exact ofTokens_alike alike streams.tokens streams.resolved

end Clause

end HalfBinary
