import HalfBinary.Proofs.Failures
import HalfBinary.Proofs.Viability

/-!
# Parsing by index

A clause is parsed with an index into its tokens and the mark of the end behind them. A call reads
the slot at the index and steps to the next one, and nothing but the number of nested calls bounds
it. Parsing by index never leaves the slots, never steps over the mark and needs no more than four
nested calls for each slot, so that it is parsing (`parse_keeps_state`).
-/

namespace HalfBinary.Clause

namespace Indexed

/-! ### The parser -/

/-- Why parsing by index ends without a clause. -/
inductive Halt where
  | error (e : ClauseError)
  /-- A slot is read that is not there. -/
  | outOfBounds
  /-- A step is made from the mark of the end. -/
  | pastEnd
  /-- More calls are nested than there may be. -/
  | endless

/-- An index and what has been counted and bound before it. -/
structure State where
  index : Nat
  nesting : Nat
  comparisons : Nat
  accessor : Option ResolvedAccessor

/-- The state after a step. -/
def State.next (s : State) : State := { s with index := s.index + 1 }

def refuse (e : ClauseError) : Except Halt α := .error (.error e)

section

variable (ctx : Context) (tokens : List Located)

/-- The tokens of a clause and, in the last slot, the mark of its end. -/
def slots : List (Option Located) := tokens.map some ++ [none]

def InBounds (s : State) : Prop := s.index < (slots tokens).length

/-- The slot at the index. -/
def current (s : State) : Except Halt (Option Located) :=
  match (slots tokens)[s.index]? with
  | some slot => .ok slot
  | none => .error .outOfBounds

/-- Steps to the next slot. -/
def advance (s : State) : Except Halt State :=
  if s.index + 1 < (slots tokens).length then .ok s.next else .error .pastEnd

/-- Steps over a token if it is the next one. -/
def accepts (token : Token) (s : State) : Except Halt (Bool × State) := do
  let slot ← current tokens s
  if slot.map (·.token) = some token then return (true, ← advance tokens s) else return (false, s)

def unexpected (expected : String) (slot : Option Located) : Except Halt α :=
  refuse (ctx.unexpected expected slot.toList)

def parseComparison (s : State) : Except Halt (Constraint × State) := do
  match ← current tokens s with
  | some ⟨.operator op, offset⟩ =>
    if ctx.limits.maxComparisons ≤ s.comparisons then
      refuse (.tooManyComparisons ctx.limits.maxComparisons offset)
    else
      let s ← advance tokens s
      match ← current tokens s with
      | some ⟨.literal value, _⟩ =>
        let s ← advance tokens s
        return (.leaf ⟨op, value, offset⟩, { s with comparisons := s.comparisons + 1 })
      | _ => refuse (.danglingOperator op offset)
  | slot => unexpected ctx "comparison operator or `(`" slot

mutual

def parseOr : (calls : Nat) → State → Except Halt (Constraint × State)
  | 0, _ => .error .endless
  | calls + 1, s => do
    let (first, s) ← parseAnd calls s
    let (others, s) ← orLoop calls s
    return (.join .or (first :: others), s)

def orLoop : (calls : Nat) → State → Except Halt (List Constraint × State)
  | 0, _ => .error .endless
  | calls + 1, s => do
    let (more, s) ← accepts tokens (.connective .or) s
    if more then
      let (part, s) ← parseAnd calls s
      let (others, s) ← orLoop calls s
      return (part :: others, s)
    else return ([], s)

def parseAnd : (calls : Nat) → State → Except Halt (Constraint × State)
  | 0, _ => .error .endless
  | calls + 1, s => do
    let (first, s) ← parseTerm calls s
    let (others, s) ← andLoop calls s
    return (.join .and (first :: others), s)

def andLoop : (calls : Nat) → State → Except Halt (List Constraint × State)
  | 0, _ => .error .endless
  | calls + 1, s => do
    let (more, s) ← accepts tokens (.connective .and) s
    if more then
      let (part, s) ← parseTerm calls s
      let (others, s) ← andLoop calls s
      return (part :: others, s)
    else return ([], s)

def parseTerm : (calls : Nat) → State → Except Halt (Constraint × State)
  | 0, _ => .error .endless
  | calls + 1, s => do
    match ← current tokens s with
    | some ⟨.openParen, _⟩ => parseGroup calls s
    | some ⟨.accessor segments, offset⟩ =>
      let accessor ← (ctx.bind s.accessor (.ofSegments segments) offset).mapError .error
      let s ← advance tokens { s with accessor := some accessor }
      match ← current tokens s with
      | some ⟨.openParen, _⟩ => parseGroup calls s
      | _ => parseComparison ctx tokens s
    | some ⟨.operator _, _⟩ =>
      let accessor ← (ctx.elided s.accessor).mapError .error
      parseComparison ctx tokens { s with accessor := some accessor }
    | slot => unexpected ctx "comparison or `(`" slot

def parseGroup : (calls : Nat) → State → Except Halt (Constraint × State)
  | 0, _ => .error .endless
  | calls + 1, s => do
    let opening ← current tokens s
    let start := opening.elim ctx.stop (·.offset)
    let s ← advance tokens s
    if ctx.limits.maxNesting < s.nesting + 1 then
      refuse (.nestingTooDeep ctx.limits.maxNesting (s.nesting + 1) start)
    else
      let (node, s) ← parseOr calls { s with nesting := s.nesting + 1 }
      match ← current tokens s with
      | some ⟨.closeParen, _⟩ =>
        let s ← advance tokens s
        return (node, { s with nesting := s.nesting - 1 })
      | none => refuse (.unmatchedParen start)
      | slot => unexpected ctx "`)`, `&&`, or `||`" slot

end

/-- Parses the tokens of a clause to their end. -/
def parse (calls : Nat) : Except Halt Clause := do
  let (root, s) ← parseOr ctx tokens calls ⟨0, 0, 0, none⟩
  match ← current tokens s with
  | none =>
    match s.accessor with
    | some accessor => return ⟨accessor, root⟩
    | none => refuse .emptyExpression
  | some ⟨.closeParen, offset⟩ => refuse (.unmatchedParen offset)
  | slot => unexpected ctx "`&&`, `||`, or end of input" slot

end

/-! ### States and cursors -/

variable {ctx : Context} {tokens : List Located}

/-- The tokens from the index on. -/
def State.cursor (tokens : List Located) (s : State) : Cursor :=
  ⟨tokens.drop s.index, s.nesting, s.comparisons, s.accessor⟩

theorem inBounds_iff {s : State} : InBounds tokens s ↔ s.index ≤ tokens.length := by
  rw [InBounds, slots, List.length_append, List.length_map]
  exact Nat.lt_succ_iff

theorem length_rest_cursor (s : State) :
    (s.cursor tokens).rest.length = tokens.length - s.index := List.length_drop

theorem current_eq {s : State} (inside : InBounds tokens s) :
    current tokens s = .ok (s.cursor tokens).rest.head? := by
  rw [inBounds_iff] at inside
  have slot : (slots tokens)[s.index]? = some tokens[s.index]? := by
    rcases Nat.lt_or_eq_of_le inside with before | last
    · rw [slots, List.getElem?_append_left (by rwa [List.length_map]), List.getElem?_map,
        List.getElem?_eq_getElem before]
      rfl
    · rw [slots, List.getElem?_append_right (by rw [List.length_map, last]), last]
      simp
  rw [current, slot, State.cursor, List.head?_drop]

theorem cursor_eq {s : State} {rest : List Located} (next : (s.cursor tokens).rest = rest) :
    s.cursor tokens = ⟨rest, s.nesting, s.comparisons, s.accessor⟩ := by
  rw [← next]
  rfl

theorem index_lt_length {s : State} {k : Located} {rest : List Located}
    (next : (s.cursor tokens).rest = k :: rest) : s.index < tokens.length := by
  have length : (s.cursor tokens).rest.length = tokens.length - s.index := length_rest_cursor s
  rw [next, List.length_cons] at length
  omega

/-- There is a step to make wherever a token is next. -/
theorem advance_eq {s : State} {k : Located} {rest : List Located}
    (next : (s.cursor tokens).rest = k :: rest) :
    advance tokens s = .ok s.next ∧ InBounds tokens s.next ∧
      s.next.cursor tokens = ⟨rest, s.nesting, s.comparisons, s.accessor⟩ := by
  have inside : InBounds tokens s.next := inBounds_iff.2 (index_lt_length next)
  have tail : tokens.drop (s.index + 1) = rest := by
    rw [List.drop_add_one_eq_tail_drop]
    exact congrArg List.tail next
  exact ⟨if_pos inside, inside, cursor_eq tail⟩

/-! ### Runs by index are runs of the parser -/

/-- A run by index goes as the parser goes on the tokens from the index on, or ends for want of calls
if they are few. -/
inductive Agrees (tokens : List Located) (few : Prop) :
    Except Halt (α × State) → Except ClauseError (α × Cursor) → Prop
  | ok {x : α} {s : State} (inside : InBounds tokens s) :
      Agrees tokens few (.ok (x, s)) (.ok (x, s.cursor tokens))
  | error (e : ClauseError) : Agrees tokens few (refuse e) (.error e)
  | endless (short : few) (r : Except ClauseError (α × Cursor)) :
      Agrees tokens few (.error .endless) r

theorem Agrees.weaken {few few' : Prop} {r : Except Halt (α × State)}
    {r' : Except ClauseError (α × Cursor)} (agrees : Agrees tokens few r r') (fewer : few → few') :
    Agrees tokens few' r r' := by
  cases agrees with
  | ok inside => exact .ok inside
  | error e => exact .error e
  | endless short => exact .endless (fewer short) _

theorem Agrees.bind {few : Prop} {r : Except Halt (α × State)}
    {r' : Except ClauseError (α × Cursor)} {f : α × State → Except Halt (β × State)}
    {f' : α × Cursor → Except ClauseError (β × Cursor)} (agrees : Agrees tokens few r r')
    (next : ∀ x s, InBounds tokens s → r' = .ok (x, s.cursor tokens) →
      Agrees tokens few (f (x, s)) (f' (x, s.cursor tokens))) :
    Agrees tokens few (r >>= f) (r' >>= f') := by
  cases agrees with
  | ok inside => exact next _ _ inside rfl
  | error e => exact .error e
  | endless short => exact .endless short _

theorem Agrees.mapError {few : Prop} {a : Except ClauseError γ}
    {f : γ → Except Halt (β × State)} {f' : γ → Except ClauseError (β × Cursor)}
    (next : ∀ x, a = .ok x → Agrees tokens few (f x) (f' x)) :
    Agrees tokens few (a.mapError .error >>= f) (a >>= f') := by
  cases a with
  | error e => exact .error e
  | ok x => exact next x rfl

theorem agrees_unexpected {few : Prop} (expected : String) (rest : List Located) :
    Agrees (α := α) tokens few (unexpected ctx expected rest.head?)
      (.error (ctx.unexpected expected rest)) := by
  cases rest with
  | nil => exact .error _
  | cons k rest => exact .error _

theorem ok_bind {ε : Type u} (x : α) (f : α → Except ε β) : (Except.ok x >>= f) = f x := rfl

theorem agrees_comparison {few : Prop} {s : State} (inside : InBounds tokens s) :
    Agrees tokens few (parseComparison ctx tokens s) (runComparison ctx (s.cursor tokens)) := by
  rw [parseComparison, current_eq inside, runComparison_eq, ok_bind]
  rcases next : (s.cursor tokens).rest with _ | ⟨⟨w, offset⟩, rest⟩
  · exact agrees_unexpected _ []
  cases w with
  | operator op =>
    obtain ⟨step, inside', cursor⟩ := advance_eq next
    rw [cursor_eq next]
    dsimp only [List.head?_cons]
    by_cases many : ctx.limits.maxComparisons ≤ s.comparisons
    · rw [if_pos many, if_pos many]
      exact .error _
    · rw [if_neg many, if_neg many, step, ok_bind, current_eq inside', ok_bind, cursor]
      rcases rest with _ | ⟨⟨w', offset'⟩, rest⟩
      · exact .error _
      cases w' with
      | literal value =>
        obtain ⟨step', inside'', cursor'⟩ := advance_eq (s := s.next) (congrArg Cursor.rest cursor)
        dsimp only [List.head?_cons]
        rw [step', ok_bind]
        have counted := congrArg (fun t : Cursor => { t with comparisons := t.comparisons + 1 }) cursor'
        exact counted ▸ .ok (s := { s.next.next with comparisons := s.comparisons + 1 }) inside''
      | accessor _ | operator _ | connective _ | openParen | closeParen => exact .error _
  | accessor _ | openParen | closeParen | literal _ | connective _ =>
    exact agrees_unexpected _ (⟨_, offset⟩ :: rest)

/-- A chain agrees if its first part does, and the others do where the first part has ended. -/
theorem agrees_chain {n m : Symbol} {few : Prop} {s : State} (join : n.Tree → m.Tree → α)
    {part : State → Except Halt (n.Tree × State)} {loop : State → Except Halt (m.Tree × State)}
    (derived : ∀ x t, run ctx n (s.cursor tokens) = .ok (x, t) →
      Derived ctx n (s.cursor tokens) x t)
    (expression : n.IsExpression) (first : Agrees tokens few (part s) (run ctx n (s.cursor tokens)))
    (others : ∀ t, InBounds tokens t → s.index < t.index →
      Agrees tokens few (loop t) (run ctx m (t.cursor tokens))) :
    Agrees tokens few
      (do
        let (x, t) ← part s
        let (xs, u) ← loop t
        return (join x xs, u))
      (do
        let (x, t) ← run ctx n (s.cursor tokens)
        let (xs, u) ← run ctx m t
        return (join x xs, u)) := by
  refine first.bind fun x t inside read => ?_
  have shorter := (derived x _ read).shorter expression
  rw [length_rest_cursor, length_rest_cursor] at shorter
  refine (others t inside (by omega)).bind fun xs u inside' _ => ?_
  exact .ok inside'

theorem accepts_eq {c : Connective} {s : State} (inside : InBounds tokens s) :
    (∃ offset rest, (s.cursor tokens).rest = ⟨.connective c, offset⟩ :: rest ∧
      accepts tokens (.connective c) s = .ok (true, s.next)) ∨
    ((∀ offset rest, (s.cursor tokens).rest ≠ ⟨.connective c, offset⟩ :: rest) ∧
      accepts tokens (.connective c) s = .ok (false, s)) := by
  rw [accepts, current_eq inside, ok_bind]
  by_cases same : (s.cursor tokens).rest.head?.map (·.token) = some (.connective c)
  · obtain ⟨⟨w, offset⟩, head, rfl⟩ := Option.map_eq_some_iff.1 same
    obtain ⟨rest, next⟩ := List.head?_eq_some_iff.1 head
    rw [if_pos same, (advance_eq next).1]
    exact .inl ⟨offset, rest, next, rfl⟩
  · rw [if_neg same]
    refine .inr ⟨fun offset rest next => same ?_, rfl⟩
    rw [next]
    rfl

/-- Runs by index agree with the parser if they have enough nested calls for the tokens ahead. -/
structure Agreement (ctx : Context) (tokens : List Located) (calls : Nat) : Prop where
  orExpression {s : State} (inside : InBounds tokens s) :
    Agrees tokens (calls < 4 * (tokens.length - s.index) + 4) (parseOr ctx tokens calls s)
      (run ctx .orExpression (s.cursor tokens))
  orOthers {s : State} (inside : InBounds tokens s) :
    Agrees tokens (calls < 4 * (tokens.length - s.index) + 1) (orLoop ctx tokens calls s)
      (run ctx .orOthers (s.cursor tokens))
  andExpression {s : State} (inside : InBounds tokens s) :
    Agrees tokens (calls < 4 * (tokens.length - s.index) + 3) (parseAnd ctx tokens calls s)
      (run ctx .andExpression (s.cursor tokens))
  andOthers {s : State} (inside : InBounds tokens s) :
    Agrees tokens (calls < 4 * (tokens.length - s.index) + 1) (andLoop ctx tokens calls s)
      (run ctx .andOthers (s.cursor tokens))
  term {s : State} (inside : InBounds tokens s) :
    Agrees tokens (calls < 4 * (tokens.length - s.index) + 2) (parseTerm ctx tokens calls s)
      (run ctx .term (s.cursor tokens))
  group {s : State} {start : Nat} {rest : List Located} (inside : InBounds tokens s)
    (opening : (s.cursor tokens).rest = ⟨.openParen, start⟩ :: rest) :
    Agrees tokens (calls < 4 * (tokens.length - s.index) + 1) (parseGroup ctx tokens calls s)
      (runGroup ctx start { s.cursor tokens with rest })

theorem agreement_zero : Agreement ctx tokens 0 where
  orExpression _ := .endless (Nat.succ_pos _) _
  orOthers _ := .endless (Nat.succ_pos _) _
  andExpression _ := .endless (Nat.succ_pos _) _
  andOthers _ := .endless (Nat.succ_pos _) _
  term _ := .endless (Nat.succ_pos _) _
  group _ _ := .endless (Nat.succ_pos _) _

section

variable {calls : Nat} {s : State}

theorem Agreement.succ_orExpression (agreement : Agreement ctx tokens calls)
    (inside : InBounds tokens s) :
    Agrees tokens (calls + 1 < 4 * (tokens.length - s.index) + 4) (parseOr ctx tokens (calls + 1) s)
      (run ctx .orExpression (s.cursor tokens)) := by
  rw [run_orExpression]
  refine agrees_chain (m := .orOthers) (fun first others => Constraint.join .or (first :: others))
    (derived_of_run.2.2.1 _) trivial ?_ ?_
  · exact (agreement.andExpression inside).weaken fun few => by omega
  · intro t inside' further
    exact (agreement.orOthers inside').weaken fun few => by omega

theorem Agreement.succ_orOthers (agreement : Agreement ctx tokens calls)
    (inside : InBounds tokens s) :
    Agrees tokens (calls + 1 < 4 * (tokens.length - s.index) + 1) (orLoop ctx tokens (calls + 1) s)
      (run ctx .orOthers (s.cursor tokens)) := by
  rw [orLoop]
  rcases accepts_eq (c := .or) inside with ⟨offset, rest, next, taken⟩ | ⟨other, taken⟩
  · obtain ⟨-, inside', cursor⟩ := advance_eq next
    have before := index_lt_length next
    have step : s.next.index = s.index + 1 := rfl
    rw [taken, ok_bind, cursor_eq next, run_orOthers_cons, ← cursor]
    refine agrees_chain (m := .orOthers) List.cons (derived_of_run.2.2.1 _) trivial ?_ ?_
    · exact (agreement.andExpression inside').weaken fun few => by omega
    · intro t inside'' further
      exact (agreement.orOthers inside'').weaken fun few => by omega
  · rw [taken, ok_bind, run_orOthers_end ctx other]
    exact .ok inside

theorem Agreement.succ_andExpression (agreement : Agreement ctx tokens calls)
    (inside : InBounds tokens s) :
    Agrees tokens (calls + 1 < 4 * (tokens.length - s.index) + 3) (parseAnd ctx tokens (calls + 1) s)
      (run ctx .andExpression (s.cursor tokens)) := by
  rw [run_andExpression]
  refine agrees_chain (m := .andOthers)
    (fun first others => Constraint.join .and (first :: others)) (derived_of_run.2.2.2.2.1 _) trivial ?_ ?_
  · exact (agreement.term inside).weaken fun few => by omega
  · intro t inside' further
    exact (agreement.andOthers inside').weaken fun few => by omega

theorem Agreement.succ_andOthers (agreement : Agreement ctx tokens calls)
    (inside : InBounds tokens s) :
    Agrees tokens (calls + 1 < 4 * (tokens.length - s.index) + 1) (andLoop ctx tokens (calls + 1) s)
      (run ctx .andOthers (s.cursor tokens)) := by
  rw [andLoop]
  rcases accepts_eq (c := .and) inside with ⟨offset, rest, next, taken⟩ | ⟨other, taken⟩
  · obtain ⟨-, inside', cursor⟩ := advance_eq next
    have before := index_lt_length next
    have step : s.next.index = s.index + 1 := rfl
    rw [taken, ok_bind, cursor_eq next, run_andOthers_cons, ← cursor]
    refine agrees_chain (m := .andOthers) List.cons (derived_of_run.2.2.2.2.1 _) trivial ?_ ?_
    · exact (agreement.term inside').weaken fun few => by omega
    · intro t inside'' further
      exact (agreement.andOthers inside'').weaken fun few => by omega
  · rw [taken, ok_bind, run_andOthers_end ctx other]
    exact .ok inside

theorem Agreement.succ_term (agreement : Agreement ctx tokens calls)
    (inside : InBounds tokens s) :
    Agrees tokens (calls + 1 < 4 * (tokens.length - s.index) + 2) (parseTerm ctx tokens (calls + 1) s)
      (run ctx .term (s.cursor tokens)) := by
  rw [parseTerm, current_eq inside, run_term, ok_bind]
  rcases next : (s.cursor tokens).rest with _ | ⟨⟨w, offset⟩, rest⟩
  · exact agrees_unexpected _ []
  cases w with
  | openParen =>
    exact (agreement.group inside next).weaken fun few => by omega
  | accessor segments =>
    dsimp only [List.head?_cons]
    refine Agrees.mapError fun accessor _ => ?_
    have before := index_lt_length next
    obtain ⟨step, inside', cursor⟩ := advance_eq (s := { s with accessor := some accessor }) next
    generalize here : State.next { s with accessor := some accessor } = s' at step inside' cursor
    have index : s'.index = s.index + 1 := by rw [← here]; rfl
    rw [step, ok_bind, current_eq inside', ok_bind, cursor]
    have compared : Agrees tokens (calls + 1 < 4 * (tokens.length - s.index) + 2)
        (parseComparison ctx tokens s') (runComparison ctx (s'.cursor tokens)) :=
      agrees_comparison inside'
    rw [cursor] at compared
    rcases rest with _ | ⟨⟨w', inner⟩, rest⟩
    · exact compared
    cases w' with
    | openParen =>
      have grouped := agreement.group inside' (congrArg Cursor.rest cursor)
      rw [cursor] at grouped
      exact grouped.weaken fun few => by omega
    | accessor _ | operator _ | closeParen | literal _ | connective _ => exact compared
  | operator op =>
    dsimp only [List.head?_cons]
    refine Agrees.mapError fun accessor _ => ?_
    have compared : Agrees tokens (calls + 1 < 4 * (tokens.length - s.index) + 2)
        (parseComparison ctx tokens { s with accessor := some accessor })
        (runComparison ctx (State.cursor tokens { s with accessor := some accessor })) :=
      agrees_comparison inside
    rw [cursor_eq (s := { s with accessor := some accessor }) next] at compared
    exact compared
  | closeParen | literal _ | connective _ => exact agrees_unexpected _ (⟨_, offset⟩ :: rest)

theorem Agreement.succ_group (agreement : Agreement ctx tokens calls) {start : Nat}
    {rest : List Located} (inside : InBounds tokens s)
    (opening : (s.cursor tokens).rest = ⟨.openParen, start⟩ :: rest) :
    Agrees tokens (calls + 1 < 4 * (tokens.length - s.index) + 1) (parseGroup ctx tokens (calls + 1) s)
      (runGroup ctx start { s.cursor tokens with rest }) := by
  have before := index_lt_length opening
  obtain ⟨step, inside', cursor⟩ := advance_eq opening
  have index : s.next.index = s.index + 1 := rfl
  rw [parseGroup, current_eq inside, ok_bind, opening, step, ok_bind, runGroup_eq]
  dsimp only [List.head?_cons]
  by_cases deep : ctx.limits.maxNesting < s.next.nesting + 1
  · rw [if_pos deep, if_pos (show _ < (s.cursor tokens).nesting + 1 from deep)]
    exact .error _
  rw [if_neg deep, if_neg (show ¬ _ < (s.cursor tokens).nesting + 1 from deep)]
  have content := agreement.orExpression (s := { s.next with nesting := s.nesting + 1 }) inside'
  have tail : (s.next.cursor tokens).rest = rest := congrArg Cursor.rest cursor
  rw [cursor_eq (s := { s.next with nesting := s.nesting + 1 }) tail] at content
  refine (content.weaken fun few => by dsimp only at few; omega).bind ?_
  rintro node t inside'' -
  dsimp only
  rw [current_eq inside'', ok_bind]
  rcases ending : (t.cursor tokens).rest with _ | ⟨⟨w, stop⟩, rest'⟩
  · exact .error _
  cases w with
  | closeParen =>
    obtain ⟨step', closed, cursor'⟩ := advance_eq ending
    dsimp only [List.head?_cons]
    rw [step', ok_bind]
    have left := congrArg (fun u : Cursor => { u with nesting := u.nesting - 1 }) cursor'
    exact left ▸ .ok (s := { t.next with nesting := t.nesting - 1 }) closed
  | accessor _ | operator _ | openParen | literal _ | connective _ =>
    exact agrees_unexpected _ (⟨_, stop⟩ :: rest')

end

/-- Every nested call takes one from the number, and each token is taken within four of them. -/
theorem agreement (calls : Nat) : Agreement ctx tokens calls := by
  induction calls with
  | zero => exact agreement_zero
  | succ calls ih =>
    exact ⟨ih.succ_orExpression, ih.succ_orOthers, ih.succ_andExpression, ih.succ_andOthers,
      ih.succ_term, ih.succ_group⟩

/-- A run by index halts for an error of the parser, or for want of calls. -/
theorem Agrees.outcome {few : Prop} {r : Except Halt (α × State)}
    {r' : Except ClauseError (α × Cursor)} (agrees : Agrees tokens few r r') :
    r ≠ .error .outOfBounds ∧ r ≠ .error .pastEnd ∧ (¬ few → r ≠ .error .endless) ∧
      ∀ x t, r = .ok (x, t) → InBounds tokens t ∧ r' = .ok (x, t.cursor tokens) := by
  cases agrees with
  | ok inside =>
    refine ⟨nofun, nofun, nofun, ?_⟩
    rintro x t ⟨⟩
    exact ⟨inside, rfl⟩
  | error e => exact ⟨nofun, nofun, nofun, nofun⟩
  | endless short r => exact ⟨nofun, nofun, fun many => absurd short many, nofun⟩

theorem parse_eq (ctx : Context) (tokens : List Located) (calls : Nat) :
    parse ctx tokens calls = (ofTokens ctx tokens).mapError .error ∨
      calls < 4 * tokens.length + 4 ∧ parse ctx tokens calls = .error .endless := by
  have inside : InBounds tokens ⟨0, 0, 0, none⟩ := inBounds_iff.2 (Nat.zero_le _)
  have agreement : Agreement ctx tokens calls := agreement calls
  have agrees := agreement.orExpression inside
  rw [ofTokens_eq, parse]
  have start : State.cursor tokens ⟨0, 0, 0, none⟩ = ⟨tokens, 0, 0, none⟩ := rfl
  rw [start] at agrees
  generalize run ctx .orExpression ⟨tokens, 0, 0, none⟩ = r' at agrees ⊢
  generalize parseOr ctx tokens calls ⟨0, 0, 0, none⟩ = r at agrees ⊢
  cases agrees with
  | error e => exact .inl rfl
  | endless short r => exact .inr ⟨short, rfl⟩
  | @ok root t inside =>
    left
    rw [ok_bind, ok_bind]
    dsimp only
    rw [current_eq inside, ok_bind]
    rcases (t.cursor tokens).rest with _ | ⟨⟨w, offset⟩, rest⟩
    · obtain ⟨index, k, m, a⟩ := t
      cases a <;> rfl
    · cases w <;> rfl

end Indexed

/-! ### What is counted and bound -/

section

variable {ctx : Context}

/-- As many parentheses are open after balanced tokens as before. -/
theorem foldl_depthAfter {words : List Token} (balanced : Token.Balanced words) (depth : Nat) :
    words.foldl Token.depthAfter depth = depth := by
  induction balanced generalizing depth with
  | nil => rfl
  | @other w words neither _ ih =>
    rw [List.foldl_cons, ih]
    cases w with
    | openParen => exact absurd rfl neither.1
    | closeParen => exact absurd rfl neither.2
    | accessor _ | operator _ | connective _ | literal _ => rfl
  | group _ _ contentIh ih =>
    rw [List.foldl_cons, List.foldl_append, List.foldl_cons, contentIh, ih]
    rfl

/-- An accessor that is bound stays bound, and one is bound after a token that binds. -/
theorem accessor_of_pass {b b' : Tally} {k : Located} (pass : ctx.pass b k = .ok b') :
    (∀ a, b.accessor = some a → b'.accessor = some a) ∧
      (k.token.isBinding = true → ∃ a, b'.accessor = some a) := by
  obtain ⟨w, offset⟩ := k
  cases w with
  | accessor segments =>
    obtain ⟨a, binds, rfl⟩ := pass_accessor_iff.1 pass
    refine ⟨fun a' before => ?_, fun _ => ⟨a, rfl⟩⟩
    rw [before, Context.bind] at binds
    split at binds
    · cases binds
      rfl
    · cases binds
  | operator op =>
    obtain ⟨a, elided, -, rfl⟩ := pass_operator_iff.1 pass
    refine ⟨fun a' before => ?_, fun _ => ⟨a, rfl⟩⟩
    rw [before] at elided
    cases elided
    rfl
  | openParen =>
    obtain ⟨-, rfl⟩ := pass_openParen_iff.1 pass
    refine ⟨fun _ before => before, fun binding => ?_⟩
    cases binding
  | closeParen | connective _ | literal _ =>
    cases pass
    refine ⟨fun _ before => before, fun binding => ?_⟩
    cases binding

theorem accessor_of_foldlM_pass {tokens : List Located} {b b' : Tally}
    (passed : tokens.foldlM ctx.pass b = .ok b') :
    (∀ a, b.accessor = some a → b'.accessor = some a) ∧
      ((∃ w ∈ tokens.map (·.token), w.isBinding = true) → ∃ a, b'.accessor = some a) := by
  induction tokens generalizing b with
  | nil =>
    cases passed
    exact ⟨fun _ before => before, by simp⟩
  | cons k tokens ih =>
    rw [List.foldlM_cons, bind_eq_ok_iff] at passed
    obtain ⟨b₁, pass, others⟩ := passed
    obtain ⟨keeps, binds⟩ := accessor_of_pass pass
    obtain ⟨keeps', binds'⟩ := ih others
    refine ⟨fun a before => keeps' a (keeps a before), ?_⟩
    rintro ⟨w, mem, binding⟩
    rw [List.map_cons, List.mem_cons] at mem
    rcases mem with rfl | mem
    · obtain ⟨a, bound⟩ := binds binding
      exact ⟨a, keeps' a bound⟩
    · exact binds' ⟨w, mem, binding⟩

/-- Reading an expression closes what it opens, counts its comparisons and binds an accessor. -/
theorem Derived.keeps {n : Symbol} {s t : Cursor} {x : n.Tree} (derived : Derived ctx n s x t)
    (expression : n.IsExpression) : t.nesting = s.nesting ∧
      t.comparisons = s.comparisons + (n.allComparisons x).length ∧
      (∃ a, t.accessor = some a) ∧ ∀ a, s.accessor = some a → t.accessor = some a := by
  obtain ⟨d, rfl, leads, -⟩ := derived
  obtain ⟨nesting, comparisons, -⟩ := foldlM_pass_counts leads.tally
  obtain ⟨keeps, binds⟩ := accessor_of_foldlM_pass leads.tally
  refine ⟨nesting.trans (foldl_depthAfter d.balanced _), comparisons.trans ?_,
    binds (d.exists_isBinding expression), keeps⟩
  rw [d.comparisons_tree, ← d.operatorCount_words]
  rfl

theorem unexpected_ne_emptyExpression (expected : String) (rest : List Located) :
    ctx.unexpected expected rest ≠ .emptyExpression := by
  cases rest <;> exact nofun

theorem Failure.ne_emptyExpression {n : Symbol} {s : Cursor} {e : ClauseError}
    (failure : Failure ctx n s e) : e ≠ .emptyExpression := by
  induction failure with
  | orFirst _ ih | orOthers _ _ ih | orMore _ _ ih | andFirst _ ih | andOthers _ _ ih
  | andMore _ _ ih | content _ _ _ ih => exact ih
  | noTerm | noOperator | noClose => exact unexpected_ne_emptyExpression _ _
  | noLiteral | unclosed => exact nofun
  | notPassed lead leads next fault =>
    rcases pass_error fault with unresolved | ⟨a, segments, -, -, -, rfl⟩ | ⟨-, -, rfl⟩ | ⟨-, -, rfl⟩
    · cases unresolved <;> exact nofun
    · exact nofun
    · exact nofun
    · exact nofun

/-- Tokens are never refused for being empty: an expression that is read binds an accessor. -/
theorem ofTokens_ne_emptyExpression (ctx : Context) (tokens : List Located) :
    ofTokens ctx tokens ≠ .error .emptyExpression := by
  intro h
  rw [ofTokens_eq] at h
  rcases bind_eq_error_iff.1 h with fault | ⟨⟨root, t⟩, read, ended⟩
  · exact (failsAt .orExpression _ _ fault).ne_emptyExpression rfl
  · obtain ⟨-, -, ⟨a, bound⟩, -⟩ := (run_orExpression_eq_ok_iff.1 read).keeps trivial
    dsimp only at ended
    rw [bound] at ended
    split at ended
    · cases ended
    · cases ended
    · exact unexpected_ne_emptyExpression _ _ (Except.error.inj ended)

end

namespace Indexed

/-- What a call does to the state when it reads an expression. -/
structure Reads (tokens : List Located) (s : State) (x : Constraint) (t : State) : Prop where
  inBounds : InBounds tokens t
  further : s.index + 2 ≤ t.index
  nesting : t.nesting = s.nesting
  comparisons : t.comparisons = s.comparisons + x.comparisonCount
  bound : ∃ a, t.accessor = some a
  kept : ∀ a, s.accessor = some a → t.accessor = some a

theorem reads_of_derived {ctx : Context} {tokens : List Located} {n : Symbol} {s t : State}
    {x : n.Tree} {root : Constraint} (inside : InBounds tokens t)
    (derived : Derived ctx n (s.cursor tokens) x (t.cursor tokens)) (expression : n.IsExpression)
    (same : n.allComparisons x = root.comparisons) : Reads tokens s root t := by
  obtain ⟨nesting, comparisons, bound, kept⟩ := derived.keeps expression
  obtain ⟨d, -, leads, -⟩ := derived
  have two := d.two_le_length_tokens expression
  have length := congrArg List.length leads.rest
  rw [List.length_append, length_rest_cursor, length_rest_cursor] at length
  rw [same, ← Constraint.comparisonCount_eq] at comparisons
  exact ⟨inside, by omega, nesting, comparisons, bound, kept⟩

/-- A call that agrees with the reading of an expression halts for an error of the parser, or for
want of calls, or it reads the expression. -/
theorem Agrees.reads {ctx : Context} {tokens : List Located} {few : Prop} {n : Symbol} {s : State}
    {r : Except Halt (n.Tree × State)} {r' : Except ClauseError (n.Tree × Cursor)}
    (agrees : Agrees tokens few r r')
    (derived : ∀ x t, r' = .ok (x, t) → Derived ctx n (s.cursor tokens) x t)
    (expression : n.IsExpression) {root : n.Tree → Constraint}
    (same : ∀ x, n.allComparisons x = (root x).comparisons) :
    r ≠ .error .outOfBounds ∧ r ≠ .error .pastEnd ∧ (¬ few → r ≠ .error .endless) ∧
      ∀ x t, r = .ok (x, t) → Reads tokens s (root x) t := by
  obtain ⟨stays, halts, ends, reads⟩ := agrees.outcome
  refine ⟨stays, halts, ends, fun x t read => ?_⟩
  obtain ⟨inside, run⟩ := reads x t read
  exact reads_of_derived inside (derived x _ run) expression (same x)

/-- Parsing by index with four nested calls for each slot is parsing. With any number of them, it
stays in the slots, never steps over the mark of the end and never finds a clause without an
accessor. A call that reads an expression takes two tokens at least, closes the parentheses that it
opens, counts the comparisons of what it gives, and leaves an accessor bound, which is the one that
was bound before if there was one. -/
theorem parse_keeps_state (ctx : Context) (tokens : List Located) :
    (∀ calls, 4 * (slots tokens).length ≤ calls →
      parse ctx tokens calls = (ofTokens ctx tokens).mapError .error) ∧
    (∀ calls, parse ctx tokens calls ≠ .error .outOfBounds ∧
      parse ctx tokens calls ≠ .error .pastEnd ∧
      parse ctx tokens calls ≠ .error (.error .emptyExpression)) ∧
    ∀ call ∈ [parseOr ctx tokens, parseAnd ctx tokens, parseTerm ctx tokens],
      ∀ (calls : Nat) (s : State), InBounds tokens s →
        call calls s ≠ .error .outOfBounds ∧ call calls s ≠ .error .pastEnd ∧
        (4 * ((slots tokens).length - s.index) ≤ calls → call calls s ≠ .error .endless) ∧
        ∀ x t, call calls s = .ok (x, t) → Reads tokens s x t := by
  have size : (slots tokens).length = tokens.length + 1 := by
    rw [slots, List.length_append, List.length_map]
    rfl
  refine ⟨?_, ?_, ?_⟩
  · intro calls enough
    rcases parse_eq ctx tokens calls with same | ⟨few, -⟩
    · exact same
    · omega
  · intro calls
    have some := ofTokens_ne_emptyExpression ctx tokens
    rcases parse_eq ctx tokens calls with same | ⟨-, same⟩
    · rw [same]
      generalize ofTokens ctx tokens = r at some
      cases r with
      | ok c => exact ⟨nofun, nofun, nofun⟩
      | error e =>
        refine ⟨nofun, nofun, ?_⟩
        rintro ⟨⟩
        exact some rfl
    · rw [same]
      exact ⟨nofun, nofun, nofun⟩
  · intro call mem calls s inside
    have bound := inBounds_iff.1 inside
    simp only [List.mem_cons, List.not_mem_nil, or_false] at mem
    rcases mem with rfl | rfl | rfl
    · obtain ⟨stays, halts, ends, reads⟩ := ((agreement calls).orExpression inside).reads
        (n := .orExpression) (derived_of_run.1 _) trivial fun _ => rfl
      exact ⟨stays, halts, fun enough => ends (by omega), reads⟩
    · obtain ⟨stays, halts, ends, reads⟩ := ((agreement calls).andExpression inside).reads
        (n := .andExpression) (derived_of_run.2.2.1 _) trivial fun _ => rfl
      exact ⟨stays, halts, fun enough => ends (by omega), reads⟩
    · obtain ⟨stays, halts, ends, reads⟩ := ((agreement calls).term inside).reads
        (n := .term) (derived_of_run.2.2.2.2.1 _) trivial fun _ => rfl
      exact ⟨stays, halts, fun enough => ends (by omega), reads⟩

/-- A comparison in parentheses behind an accessor that is bound already. -/
theorem parse_keeps_state_group :
    let ctx : Context := ⟨.builtin, "Integer", {}, 13⟩
    let self : ResolvedAccessor := ⟨⟨[]⟩, "Integer", [], ⟨"Integer", .scalar .integer⟩⟩
    let tokens : List Located := [⟨.accessor ["this"], 0⟩, ⟨.openParen, 5⟩, ⟨.operator .ge, 6⟩,
      ⟨.literal (.integer 18), 9⟩, ⟨.closeParen, 11⟩]
    let s : State := ⟨0, 2, 5, some self⟩
    parseTerm ctx tokens 24 s = .ok (.leaf ⟨.ge, .integer 18, 6⟩, ⟨5, 2, 6, some self⟩) ∧
      Reads tokens s (.leaf ⟨.ge, .integer 18, 6⟩) ⟨5, 2, 6, some self⟩ ∧
      parse ctx tokens 24 = (ofTokens ctx tokens).mapError .error := by
  intro ctx self tokens s
  have read : parseTerm ctx tokens 24 s =
      .ok (.leaf ⟨.ge, .integer 18, 6⟩, ⟨5, 2, 6, some self⟩) := rfl
  obtain ⟨whole, -, calls⟩ := parse_keeps_state ctx tokens
  have inside : InBounds tokens s := inBounds_iff.2 (Nat.zero_le _)
  obtain ⟨-, -, -, reads⟩ := calls (parseTerm ctx tokens) (by simp) 24 s inside
  exact ⟨read, reads _ _ read, whole 24 (by decide)⟩

end Indexed

end HalfBinary.Clause
