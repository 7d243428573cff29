import HalfBinary.Proofs.Failures

/-!
# Where no clause goes on

A grammar error points to the first token that no clause with the tokens before it goes on with
(`parse_halts`). The parser reads on as long as its tokens are the start of a derivation, so that
each of its error exits is at a token where every derivation has another one.
-/

namespace HalfBinary

/-! ### Brackets -/

namespace Token

/-- Every parenthesis has a partner among some tokens. -/
inductive Balanced : List Token → Prop
  | nil : Balanced []
  | other {w : Token} {words : List Token} (neither : w ≠ openParen ∧ w ≠ closeParen)
      (balanced : Balanced words) : Balanced (w :: words)
  | group {inner words : List Token} (content : Balanced inner) (balanced : Balanced words) :
      Balanced (openParen :: (inner ++ closeParen :: words))

/-- At two positions stand a parenthesis and the one that closes it. -/
def Partners (words : List Token) (i j : Nat) : Prop :=
  ∃ before inner after, words = before ++ openParen :: (inner ++ closeParen :: after) ∧
    Balanced inner ∧ i = before.length ∧ j = before.length + inner.length + 1

theorem Balanced.append {words words' : List Token} (balanced : Balanced words)
    (balanced' : Balanced words') : Balanced (words ++ words') := by
  induction balanced with
  | nil => exact balanced'
  | other neither _ ih => exact .other neither ih
  | @group inner words content _ _ ih =>
    simpa using Balanced.group content ih

theorem Balanced.count_eq {words : List Token} (balanced : Balanced words) :
    words.count openParen = words.count closeParen := by
  induction balanced with
  | nil => rfl
  | other neither _ ih => rwa [List.count_cons_of_ne neither.1, List.count_cons_of_ne neither.2]
  | group _ _ contentIh ih =>
    simp only [List.count_cons, List.count_append, beq_self_eq_true, if_true, contentIh, ih]
    simp
    omega

/-- No more parentheses are closed than have been opened. -/
theorem Balanced.count_le {words before after : List Token} (balanced : Balanced words)
    (split : words = before ++ after) : before.count closeParen ≤ before.count openParen := by
  induction balanced generalizing before after with
  | nil =>
    obtain ⟨rfl, -⟩ := List.append_eq_nil_iff.1 split.symm
    exact Nat.le_refl _
  | @other w words neither _ ih =>
    cases before with
    | nil => exact Nat.le_refl _
    | cons b before =>
      obtain ⟨rfl, others⟩ := List.cons.inj split
      rw [List.count_cons_of_ne neither.1, List.count_cons_of_ne neither.2]
      exact ih others
  | @group inner words content _ contentIh ih =>
    cases before with
    | nil => exact Nat.le_refl _
    | cons b before =>
      obtain ⟨rfl, others⟩ := List.cons.inj split
      rcases List.append_eq_append_iff.1 others with ⟨more, rfl, closing⟩ | ⟨more, rfl, -⟩
      · cases more with
        | nil =>
          have equal := content.count_eq
          simp
          omega
        | cons c more =>
          obtain ⟨rfl, later⟩ := List.cons.inj closing
          have equal := content.count_eq
          have fewer := ih later
          simp [List.count_append]
          omega
      · have fewer : before.count closeParen ≤ before.count openParen := contentIh rfl
        simp
        omega

/-- A parenthesis that is opened among balanced tokens is closed there. -/
theorem Balanced.exists_partner {words before after : List Token} (balanced : Balanced words)
    (split : words = before ++ openParen :: after) :
    ∃ inner later, Balanced inner ∧ after = inner ++ closeParen :: later := by
  induction balanced generalizing before after with
  | nil => simp at split
  | @other w words neither _ ih =>
    cases before with
    | nil => exact absurd (List.cons.inj split).1 neither.1
    | cons b before => exact ih (List.cons.inj split).2
  | @group inner words content _ contentIh ih =>
    cases before with
    | nil =>
      obtain ⟨-, rfl⟩ := List.cons.inj split
      exact ⟨inner, words, content, rfl⟩
    | cons b before =>
      obtain ⟨-, split⟩ := List.cons.inj split
      rcases List.append_eq_append_iff.1 split with ⟨more, rfl, closing⟩ | ⟨more, rfl, opening⟩
      · cases more with
        | nil => cases closing
        | cons c more => exact ih (List.cons.inj closing).2
      · cases more with
        | nil => cases opening
        | cons c more =>
          obtain ⟨rfl, rfl⟩ := List.cons.inj opening
          obtain ⟨inner', later, balanced, rfl⟩ := contentIh rfl
          exact ⟨inner', later ++ closeParen :: words, balanced, by simp⟩

theorem Partners.getElem?_eq {words : List Token} {i j : Nat} (partners : Partners words i j) :
    words[i]? = some openParen ∧ words[j]? = some closeParen := by
  obtain ⟨before, inner, after, rfl, -, rfl, rfl⟩ := partners
  have split : before ++ openParen :: (inner ++ closeParen :: after) =
      (before ++ openParen :: inner) ++ closeParen :: after := by simp
  have count : before.length + inner.length + 1 = (before ++ openParen :: inner).length := by
    simp [Nat.add_assoc]
  refine ⟨by simp, ?_⟩
  rw [split, count, List.getElem?_append_right (Nat.le_refl _), Nat.sub_self, List.getElem?_cons_zero]

/-- A position has no partner. -/
def Unpartnered (words : List Token) (i : Nat) : Prop :=
  ∀ j, ¬ Partners words i j ∧ ¬ Partners words j i

/-- A parenthesis closed after balanced tokens has not been opened. -/
theorem Balanced.unpartnered_close {before : List Token} (balanced : Balanced before)
    (after : List Token) : Unpartnered (before ++ closeParen :: after) before.length := by
  intro j
  constructor
  · intro partners
    have opening := partners.getElem?_eq.1
    simp at opening
  · rintro ⟨outer, inner, later, split, content, -, position⟩
    have split' : before ++ closeParen :: after =
        (outer ++ openParen :: inner) ++ closeParen :: later := by simpa using split
    obtain ⟨rfl, -⟩ := List.append_inj split' (by simp; omega)
    have equal := balanced.count_eq
    have equal' := content.count_eq
    have fewer : outer.count closeParen ≤ outer.count openParen := balanced.count_le rfl
    simp at equal
    omega

/-- A parenthesis opened before balanced tokens is not closed by their end, but all after it are. -/
theorem Balanced.unpartnered_open {inner : List Token} (balanced : Balanced inner)
    (outer : List Token) : Unpartnered (outer ++ openParen :: inner) outer.length ∧
      ∀ i, outer.length < i → (outer ++ openParen :: inner)[i]? = some openParen →
        ∃ j, Partners (outer ++ openParen :: inner) i j := by
  refine ⟨fun j => ⟨?_, ?_⟩, ?_⟩
  · rintro ⟨before, content, after, split, balanced', position, -⟩
    obtain ⟨rfl, tail⟩ := List.append_inj split position
    obtain rfl := (List.cons.inj tail).2
    have split' : content ++ closeParen :: after = (content ++ [closeParen]) ++ after := by simp
    have fewer := balanced.count_le split'
    have equal := balanced'.count_eq
    simp at fewer
    omega
  · intro partners
    have closing := partners.getElem?_eq.2
    simp at closing
  · intro i later opening
    obtain ⟨k, rfl⟩ := Nat.exists_eq_add_of_lt later
    have here : inner[k]? = some openParen := by
      rw [Nat.add_assoc, List.getElem?_append_right (Nat.le_add_right _ _), Nat.add_sub_cancel_left,
        List.getElem?_cons_succ] at opening
      exact opening
    obtain ⟨inside, same⟩ := List.getElem?_eq_some_iff.1 here
    have split : inner = inner.take k ++ openParen :: inner.drop (k + 1) := by
      rw [← same, ← List.drop_eq_getElem_cons, List.take_append_drop]
    obtain ⟨content, after, balanced', closing⟩ := balanced.exists_partner split
    refine ⟨_, outer ++ openParen :: inner.take k, content, after, ?_, balanced', ?_, rfl⟩
    · rw [← closing, List.append_assoc, List.cons_append, ← split]
    · simp
      omega

end Token

/-- The parentheses of a derivation are balanced. -/
theorem Derivation.balanced {n : Symbol} (d : Derivation n) : Token.Balanced d.words := by
  have leads (lead : Lead) {words : List Token} (balanced : Token.Balanced words) :
      Token.Balanced (lead.words ++ words) := by
    rcases lead with _ | ⟨segments, offset⟩
    · exact balanced
    · exact .other (by simp) balanced
  induction d with
  | or first others firstIh othersIh | and first others firstIh othersIh =>
    simpa using firstIh.append othersIh
  | orEnd | andEnd => exact .nil
  | orMore _ part others partIh othersIh | andMore _ part others partIh othersIh =>
    simpa using Token.Balanced.other (by simp) (partIh.append othersIh)
  | comparison lead =>
    rw [words_comparison]
    exact leads lead (.other (by simp) (.other (by simp) .nil))
  | group lead start inner stop ih =>
    rw [words_group]
    exact leads lead (.group ih .nil)

/-! ### Errors of the grammar -/

/-- Whether an error says that the tokens are no clause, rather than one that does not compile. -/
def ClauseError.isGrammatical : ClauseError → Bool
  | unexpectedToken .. | unmatchedParen _ | danglingOperator .. => true
  | emptyExpression | inputTooLarge .. | lex .. | nestingTooDeep .. | tooManyComparisons ..
  | unknownType _ | unknownProperty .. | accessorConflict .. | incomparableTypes ..
  | invalidLiteral .. => false

namespace Clause

variable {ctx : Context} {e : ClauseError}

/-! ### Where derivations do not go on -/

/-- Some derivation of a symbol starts with the tokens before, but none goes on as the rest does. -/
structure Blocked (n : Symbol) (before rest : List Located) : Prop where
  viable : ∃ (d : Derivation n) (after : List Located), d.tokens = before ++ after
  blocked : ∀ (d : Derivation n) (follow after : List Located), n.Stops follow →
    d.tokens ++ follow = before ++ after → after.head? ≠ rest.head?

/-- Whether tokens go on with a symbol depends on the first of them. -/
theorem stops_append_of_head?_eq {n : Symbol} {before rest after : List Located}
    (stops : n.Stops (before ++ rest)) (same : after.head? = rest.head?) :
    n.Stops (before ++ after) := by
  rw [Symbol.Stops, List.head?_append] at stops ⊢
  rwa [same]

/-- How a chain is derived: from its first part and the others, and these from a connective and the
chain after it. -/
structure Chain (connective : Connective) (n n' m : Symbol) where
  make : Derivation n → Derivation n' → Derivation m
  none : Derivation n'
  more : Nat → Derivation m → Derivation n'
  tokens_make : ∀ first others, (make first others).tokens = first.tokens ++ others.tokens
  tokens_none : none.tokens = []
  tokens_more : ∀ offset d, (more offset d).tokens = ⟨.connective connective, offset⟩ :: d.tokens
  exists_make : ∀ d, ∃ first others, d = make first others
  none_or_more : ∀ others, others = none ∨ ∃ offset d, others = more offset d
  stops_first : ∀ (others : Derivation n') {rest : List Located}, m.Stops rest →
    n.Stops (others.tokens ++ rest)
  stops_others : ∀ {rest : List Located}, m.Stops rest ↔ n'.Stops rest
  not_stops : ∀ offset rest, ¬ n'.Stops (⟨.connective connective, offset⟩ :: rest)

/-- Chains of `||`. -/
def orChain : Chain .or .andExpression .orOthers .orExpression where
  make := .or
  none := .orEnd
  more := fun offset (.or part others) => .orMore offset part others
  tokens_make _ _ := rfl
  tokens_none := rfl
  tokens_more := fun _ (.or _ _) => rfl
  exists_make := fun (.or first others) => ⟨first, others, rfl⟩
  none_or_more
    | .orEnd => .inl rfl
    | .orMore offset part others => .inr ⟨offset, .or part others, rfl⟩
  stops_first := Derivation.stops_orOthers
  stops_others := Iff.rfl
  not_stops _ _ := by simp [Symbol.Stops, Symbol.extends]

/-- Chains of `&&`. -/
def andChain : Chain .and .term .andOthers .andExpression where
  make := .and
  none := .andEnd
  more := fun offset (.and part others) => .andMore offset part others
  tokens_make _ _ := rfl
  tokens_none := rfl
  tokens_more := fun _ (.and _ _) => rfl
  exists_make := fun (.and first others) => ⟨first, others, rfl⟩
  none_or_more
    | .andEnd => .inl rfl
    | .andMore offset part others => .inr ⟨offset, .and part others, rfl⟩
  stops_first _ _ _ := Symbol.stops_term _
  stops_others := Iff.rfl
  not_stops _ _ := by simp [Symbol.Stops, Symbol.extends]

section

variable {connective : Connective} {n n' m : Symbol} {before rest : List Located}

theorem Blocked.first (c : Chain connective n n' m) (blocked : Blocked n before rest) :
    Blocked m before rest := by
  obtain ⟨⟨d, after, viable⟩, blocked⟩ := blocked
  refine ⟨⟨c.make d c.none, after, ?_⟩, ?_⟩
  · rw [c.tokens_make, c.tokens_none, List.append_nil, viable]
  · intro d follow after stops same
    obtain ⟨first, others, rfl⟩ := c.exists_make d
    rw [c.tokens_make, List.append_assoc] at same
    exact blocked first _ after (c.stops_first others stops) same

theorem Blocked.others (c : Chain connective n n' m) (first : Derivation n)
    (stops : n.Stops (before ++ rest)) (blocked : Blocked n' before rest) :
    Blocked m (first.tokens ++ before) rest := by
  obtain ⟨⟨d, after, viable⟩, blocked⟩ := blocked
  refine ⟨⟨c.make first d, after, ?_⟩, ?_⟩
  · rw [c.tokens_make, viable, List.append_assoc]
  · intro d follow after stops' same next
    obtain ⟨first', others, rfl⟩ := c.exists_make d
    rw [c.tokens_make, List.append_assoc, List.append_assoc] at same
    obtain ⟨-, same⟩ := Derivation.append_inj same (c.stops_first others stops')
      (stops_append_of_head?_eq stops next)
    exact blocked others follow after (c.stops_others.1 stops') same next

/-- After a connective a chain goes on as it starts. -/
theorem Blocked.more (c : Chain connective n n' m) (offset : Nat) (blocked : Blocked m before rest) :
    Blocked n' (⟨.connective connective, offset⟩ :: before) rest := by
  obtain ⟨⟨d, after, viable⟩, blocked⟩ := blocked
  refine ⟨⟨c.more offset d, after, ?_⟩, ?_⟩
  · rw [c.tokens_more, viable, List.cons_append]
  · intro others follow after stops same
    rcases c.none_or_more others with rfl | ⟨offset', d', rfl⟩
    · rw [c.tokens_none, List.nil_append, List.cons_append] at same
      exact absurd (same ▸ stops) (c.not_stops offset _)
    · rw [c.tokens_more, List.cons_append, List.cons_append] at same
      exact blocked d' follow after (c.stops_others.2 stops) (List.cons.inj same).2

end

/-! ### Terms -/

section

variable {lead : Lead} {start : Nat} {before rest : List Located}

/-- A term is a group or a comparison, with or without an accessor in front. -/
theorem exists_term_tokens (d : Derivation .term) : ∃ (lead : Lead) (k : Located)
    (after : List Located), d.tokens = lead.tokens ++ k :: after ∧
      (k.token.isOperator = true ∨ k.token = .openParen) := by
  cases d with
  | comparison lead => exact ⟨lead, _, _, rfl, .inl rfl⟩
  | group lead => exact ⟨lead, _, _, rfl, .inr rfl⟩

/-- After its accessor a term is an operator with a literal, or a group. -/
theorem operator_or_group_of_term {k : Located} {d : Derivation .term} {follow after : List Located}
    (same : d.tokens ++ follow = lead.tokens ++ k :: after)
    (other : ∀ segments, k.token ≠ .accessor segments) :
    (∃ op offset literal literalOffset, k = ⟨.operator op, offset⟩ ∧
      ⟨.literal literal, literalOffset⟩ :: follow = after) ∨
    ∃ (start : Nat) (inner : Derivation .orExpression) (stop : Nat), k = ⟨.openParen, start⟩ ∧
      inner.tokens ++ ⟨.closeParen, stop⟩ :: follow = after := by
  cases d with
  | comparison lead' op offset literal literalOffset =>
    simp only [Derivation.tokens, List.append_assoc] at same
    have tail := (Lead.append_inj same (by simp) (by simpa using other)).2
    obtain ⟨rfl, rfl⟩ := List.cons.inj tail
    exact .inl ⟨op, offset, literal, literalOffset, rfl, rfl⟩
  | group lead' start inner stop =>
    simp only [Derivation.tokens, List.append_assoc] at same
    have tail := (Lead.append_inj same (by simp) (by simpa using other)).2
    obtain ⟨rfl, rfl⟩ := List.cons.inj tail
    exact .inr ⟨start, inner, stop, rfl, by simp⟩

/-- A term that opens a parenthesis is a group. -/
theorem exists_inner_of_term {d : Derivation .term} {follow after : List Located}
    (same : d.tokens ++ follow = lead.tokens ++ ⟨.openParen, start⟩ :: after) :
    ∃ (inner : Derivation .orExpression) (stop : Nat),
      inner.tokens ++ ⟨.closeParen, stop⟩ :: follow = after := by
  rcases operator_or_group_of_term same (by simp) with
    ⟨_, _, _, _, ⟨⟩, -⟩ | ⟨_, inner, stop, -, same⟩
  exact ⟨inner, stop, same⟩

theorem Blocked.group (lead : Lead) (start : Nat) (inner : Blocked .orExpression before rest) :
    Blocked .term (lead.tokens ++ ⟨.openParen, start⟩ :: before) rest := by
  obtain ⟨⟨d, after, viable⟩, blocked⟩ := inner
  refine ⟨⟨.group lead start d 0, after ++ [⟨.closeParen, 0⟩], ?_⟩, ?_⟩
  · simp [Derivation.tokens, viable]
  · intro d follow after stops same
    rw [List.append_assoc, List.cons_append] at same
    obtain ⟨inner, stop, same⟩ := exists_inner_of_term same
    exact blocked inner _ after (Symbol.stops_closeParen _ _ _) same

/-- A group goes on with a closing parenthesis where its content ends. -/
theorem blocked_group (lead : Lead) (start : Nat) (inner : Derivation .orExpression)
    (stops : Symbol.orExpression.Stops rest)
    (other : ∀ stop after, rest ≠ ⟨.closeParen, stop⟩ :: after) :
    Blocked .term (lead.tokens ++ ⟨.openParen, start⟩ :: inner.tokens) rest := by
  refine ⟨⟨.group lead start inner 0, [⟨.closeParen, 0⟩], by simp [Derivation.tokens]⟩, ?_⟩
  intro d follow after _ same next
  rw [List.append_assoc, List.cons_append] at same
  obtain ⟨inner', stop, same⟩ := exists_inner_of_term same
  have stops' : Symbol.orExpression.Stops after := fun k head => stops k (next ▸ head)
  obtain ⟨-, rfl⟩ := Derivation.append_inj same (Symbol.stops_closeParen _ _ _) stops'
  obtain ⟨later, tail⟩ := List.head?_eq_some_iff.1 next.symm
  exact other stop later tail

/-- A term goes on with an operator or a parenthesis after its accessor, or starts so. -/
theorem blocked_lead (lead : Lead) (other : ∀ k ∈ rest.head?, k.token.isOperator = false ∧
    k.token ≠ .openParen ∧ (lead = none → ∀ segments, k.token ≠ .accessor segments)) :
    Blocked .term lead.tokens rest := by
  refine ⟨⟨.comparison lead .eq 0 .null 0, _, rfl⟩, ?_⟩
  intro d follow after _ same next
  obtain ⟨lead', k, tail, tokens, opens⟩ := exists_term_tokens d
  rw [tokens, List.append_assoc, List.cons_append] at same
  have starts : ∀ k', k' ∈ after.head? → (k'.token.isOperator = true ∨ k'.token = .openParen) → False
  · intro k' head opens
    obtain ⟨noOperator, noOpen, -⟩ := other k' (next ▸ head)
    rcases opens with operator | opening
    · rw [noOperator] at operator
      cases operator
    · exact noOpen opening
  rcases lead with _ | ⟨segments, offset⟩ <;> rcases lead' with _ | ⟨segments', offset'⟩
  · obtain rfl : _ = after := same
    exact starts k rfl opens
  · obtain rfl : _ = after := same
    obtain ⟨-, -, noAccessor⟩ := other ⟨.accessor segments', offset'⟩ (next ▸ rfl)
    exact noAccessor rfl segments' rfl
  · obtain ⟨rfl, -⟩ := List.cons.inj same
    rcases opens with operator | opening
    · cases operator
    · cases opening
  · obtain rfl : _ = after := (List.cons.inj same).2
    exact starts k rfl opens

/-- A comparison goes on with a literal after its operator. -/
theorem blocked_operator (lead : Lead) (op : Operator) (offset : Nat)
    (other : ∀ literal literalOffset after, rest ≠ ⟨.literal literal, literalOffset⟩ :: after) :
    Blocked .term (lead.tokens ++ [⟨.operator op, offset⟩]) rest := by
  refine ⟨⟨.comparison lead op offset .null 0, [⟨.literal .null, 0⟩], by simp [Derivation.tokens]⟩,
    ?_⟩
  intro d follow after _ same next
  rw [List.append_assoc, List.cons_append, List.nil_append] at same
  rcases operator_or_group_of_term same (by simp) with
    ⟨_, _, literal, literalOffset, -, rfl⟩ | ⟨_, _, _, ⟨⟩, -⟩
  obtain ⟨later, tail⟩ := List.head?_eq_some_iff.1 next.symm
  exact other literal literalOffset later tail

end

/-! ### Every exit of the parser -/

/-- An error that the parser stops with when it has read some tokens and has a rest before it. -/
inductive Exit (ctx : Context) : ClauseError → List Located → List Located → Prop
  | unexpected (expected : String) (before rest : List Located) :
      Exit ctx (ctx.unexpected expected rest) before rest
  | dangling (before : List Located) (op : Operator) (offset : Nat) (rest : List Located) :
      Exit ctx (.danglingOperator op offset) (before ++ [⟨.operator op, offset⟩]) rest
  | unclosed (before : List Located) (start : Nat) (inner : Derivation .orExpression) :
      Exit ctx (.unmatchedParen start) (before ++ ⟨.openParen, start⟩ :: inner.tokens) []

theorem Exit.after {before rest : List Located} (earlier : List Located)
    (exit : Exit ctx e before rest) : Exit ctx e (earlier ++ before) rest := by
  cases exit with
  | unexpected expected => exact .unexpected expected _ _
  | dangling before op offset =>
    rw [← List.append_assoc]
    exact .dangling _ op offset _
  | unclosed before start inner =>
    rw [← List.append_assoc]
    exact .unclosed _ start inner

/-- The parser stops among some tokens, where no derivation of a symbol goes on. -/
def Halts (ctx : Context) (n : Symbol) (tokens : List Located) (e : ClauseError) : Prop :=
  ∃ before rest, tokens = before ++ rest ∧ Exit ctx e before rest ∧ Blocked n before rest

/-- Where the parser fails to read a symbol by the grammar, no derivation goes on. -/
def HaltsAt (ctx : Context) (n : Symbol) (s : Cursor) : Prop :=
  ∀ e, run ctx n s = .error e → e.isGrammatical = true → Halts ctx n s.rest e

section

variable {connective : Connective} {n n' m : Symbol} {tokens : List Located}

theorem Halts.first (c : Chain connective n n' m) (halts : Halts ctx n tokens e) : Halts ctx m tokens e := by
  obtain ⟨before, rest, rfl, exit, blocked⟩ := halts
  exact ⟨before, rest, rfl, exit, blocked.first c⟩

theorem Halts.others (c : Chain connective n n' m) (first : Derivation n) (stops : n.Stops tokens)
    (halts : Halts ctx n' tokens e) : Halts ctx m (first.tokens ++ tokens) e := by
  obtain ⟨before, rest, rfl, exit, blocked⟩ := halts
  exact ⟨_, rest, (List.append_assoc ..).symm, exit.after _, blocked.others c first stops⟩

theorem Halts.more (c : Chain connective n n' m) (offset : Nat) (halts : Halts ctx m tokens e) :
    Halts ctx n' (⟨.connective connective, offset⟩ :: tokens) e := by
  obtain ⟨before, rest, rfl, exit, blocked⟩ := halts
  exact ⟨_, rest, rfl, exit.after [_], blocked.more c offset⟩

end

/-- Where a symbol fails by the grammar, the start of a derivation has been read, and no derivation
goes on. -/
theorem Failure.halts {n : Symbol} {s : Cursor} (failure : Failure ctx n s e)
    (grammatical : e.isGrammatical = true) : Halts ctx n s.rest e := by
  induction failure with
  | orFirst _ ih => exact (ih grammatical).first orChain
  | orOthers first _ ih =>
    obtain ⟨d, -, leads, stops⟩ := first
    rw [leads.rest]
    exact (ih grammatical).others orChain d stops
  | orMore leads _ ih =>
    rw [leads.rest]
    exact (ih grammatical).more orChain _
  | andFirst _ ih => exact (ih grammatical).first andChain
  | andOthers first _ ih =>
    obtain ⟨d, -, leads, stops⟩ := first
    rw [leads.rest]
    exact (ih grammatical).others andChain d stops
  | andMore leads _ ih =>
    rw [leads.rest]
    exact (ih grammatical).more andChain _
  | noTerm other =>
    refine ⟨[], _, rfl, .unexpected _ _ _, blocked_lead none fun k next => ?_⟩
    obtain ⟨noOperator, noOpen, noAccessor⟩ := other k next
    exact ⟨noOperator, noOpen, fun _ => noAccessor⟩
  | notPassed lead leads next fault =>
    rcases pass_error fault with unresolved | ⟨_, _, -, -, -, rfl⟩ | ⟨-, -, rfl⟩ | ⟨-, -, rfl⟩
    · cases unresolved <;> cases grammatical
    · cases grammatical
    · cases grammatical
    · cases grammatical
  | @noOperator s t segments offset leads other =>
    refine ⟨_, t.rest, leads.rest, .unexpected _ _ _,
      blocked_lead (some (segments, offset)) fun k next => ?_⟩
    obtain ⟨noOperator, noOpen⟩ := other k next
    exact ⟨noOperator, noOpen, by simp⟩
  | noLiteral lead leads other =>
    exact ⟨_, _, leads.rest, .dangling _ _ _ _, blocked_operator lead _ _ other⟩
  | @content lead s t start e leads _ ih =>
    obtain ⟨before, after, split, exit, blocked⟩ := ih grammatical
    refine ⟨lead.tokens ++ ⟨.openParen, start⟩ :: before, after, ?_,
      (exit.after [_]).after lead.tokens, blocked.group lead start⟩
    rw [leads.rest, split]
    simp
  | @unclosed lead s t u start x leads content ended =>
    obtain ⟨d, -, inside, stops⟩ := content
    rw [ended] at stops
    refine ⟨lead.tokens ++ ⟨.openParen, start⟩ :: d.tokens, [], ?_, .unclosed _ start d,
      blocked_group lead start d stops (by simp)⟩
    rw [leads.rest, inside.rest, ended]
    simp
  | @noClose lead s t u start x leads content other =>
    obtain ⟨d, -, inside, stops⟩ := content
    refine ⟨lead.tokens ++ ⟨.openParen, start⟩ :: d.tokens, u.rest, ?_, .unexpected _ _ _,
      blocked_group lead start d stops other⟩
    rw [leads.rest, inside.rest]
    simp

/-- Wherever the parser fails by the grammar, it has read the start of a derivation, and no
derivation goes on. -/
theorem halts_run (n : Symbol) (s : Cursor) : HaltsAt ctx n s :=
  fun e h grammatical => (failsAt n s e h).halts grammatical

end Clause

/-! ### Whole clauses -/

/-- Some tokens are the start of a clause. -/
def Token.Viable (words : List Token) : Prop :=
  ∃ (d : Derivation .orExpression) (after : List Token), d.words = words ++ after

/-- A grammar error points to the place between the tokens read and the rest: to the next token or
the end, either of which it names, to the operator just before, to a parenthesis that is closed
there but has not been opened, or to the innermost one that is still open at the end. -/
def ClauseError.PointsTo (s : TokenStream) (before rest : List Located) : ClauseError → Prop
  | unexpectedToken _ found offset =>
    (∃ k after, rest = k :: after ∧ found = k.token.render ∧ offset = k.offset) ∨
      rest = [] ∧ found = endOfInput ∧ offset = s.stop
  | danglingOperator op offset => ∃ earlier, before = earlier ++ [⟨.operator op, offset⟩]
  | unmatchedParen offset =>
    (∃ after, rest = ⟨.closeParen, offset⟩ :: after ∧ Token.Unpartnered s.words before.length) ∨
      rest = [] ∧ ∃ outer inner, before = outer ++ ⟨.openParen, offset⟩ :: inner ∧
        Token.Unpartnered s.words outer.length ∧
        ∀ i, outer.length < i → s.words[i]? = some .openParen → ∃ j, Token.Partners s.words i j
  | emptyExpression | inputTooLarge .. | lex .. | nestingTooDeep .. | tooManyComparisons ..
  | unknownType _ | unknownProperty .. | accessorConflict .. | incomparableTypes ..
  | invalidLiteral .. => False

namespace Clause

variable {ctx : Context} {e : ClauseError} {before rest : List Located}

/-- Some clause starts with the tokens before, but none goes on as the rest does. -/
structure Dead (before rest : List Located) : Prop where
  viable : ∃ (d : Derivation .orExpression) (after : List Located), d.tokens = before ++ after
  blocked : ∀ (d : Derivation .orExpression) (after : List Located), d.tokens = before ++ after →
    after.head? ≠ rest.head?

theorem Blocked.dead (blocked : Blocked .orExpression before rest) : Dead before rest := by
  refine ⟨blocked.viable, fun d after same => ?_⟩
  exact blocked.blocked d [] after (Symbol.stops_nil _) (by rw [List.append_nil, same])

/-- A derivation ends where no derivation goes on with what follows it. -/
theorem dead_of_stops (d : Derivation .orExpression) (more : rest ≠ [])
    (stops : Symbol.orExpression.Stops rest) : Dead d.tokens rest := by
  refine ⟨⟨d, [], (List.append_nil _).symm⟩, fun d' after same next => ?_⟩
  have stops' : Symbol.orExpression.Stops after := fun k head => stops k (next ▸ head)
  rw [← List.append_nil d'.tokens] at same
  obtain ⟨-, rfl⟩ := Derivation.append_inj same (Symbol.stops_nil _) stops'
  exact more (List.head?_eq_none_iff.1 next.symm)

theorem Dead.viable_words (dead : Dead before rest) : Token.Viable (before.map (·.token)) := by
  obtain ⟨⟨d, after, tokens⟩, -⟩ := dead
  exact ⟨d, after.map (·.token), by rw [Derivation.words, tokens, List.map_append]⟩

theorem Dead.not_viable_words (dead : Dead before rest) {k : Located} (next : k ∈ rest.head?) :
    ¬ Token.Viable (before.map (·.token) ++ [k.token]) := by
  rintro ⟨d, after, words⟩
  have same : (before ++ k :: after.map fun w => (⟨w, 0⟩ : Located)).map (·.token) = d.words := by
    simp [words, Function.comp_def]
  obtain ⟨d', tokens⟩ := d.exists_tokens_eq same
  exact dead.blocked d' _ tokens (Option.mem_def.1 next).symm

theorem Dead.words_ne (dead : Dead before []) (d : Derivation .orExpression) :
    d.words ≠ before.map (·.token) := by
  intro words
  obtain ⟨d', tokens⟩ := d.exists_tokens_eq words.symm
  exact dead.blocked d' [] (by rw [tokens, List.append_nil]) rfl

theorem Exit.pointsTo {stream : TokenStream} {registry : Registry} {subject : String}
    {limits : Limits} (exit : Exit ⟨registry, subject, limits, stream.stop⟩ e before rest)
    (tokens : stream.tokens = before ++ rest) : e.PointsTo stream before rest := by
  cases exit with
  | unexpected expected =>
    cases rest with
    | nil => exact .inr ⟨rfl, rfl, rfl⟩
    | cons k after => exact .inl ⟨k, after, rfl, rfl, rfl⟩
  | dangling earlier op offset => exact ⟨earlier, rfl⟩
  | unclosed outer start inner =>
    have words : stream.words = outer.map (·.token) ++ .openParen :: inner.words := by
      rw [TokenStream.words, tokens]
      simp [Derivation.words]
    obtain ⟨unpartnered, later⟩ := inner.balanced.unpartnered_open (outer.map (·.token))
    rw [← words, List.length_map] at unpartnered later
    exact .inr ⟨rfl, outer, inner.tokens, rfl, unpartnered, later⟩

theorem pointsTo_ofTokens {stream : TokenStream} {registry : Registry} {subject : String}
    {limits : Limits}
    (h : ofTokens ⟨registry, subject, limits, stream.stop⟩ stream.tokens = .error e)
    (grammatical : e.isGrammatical = true) : ∃ before rest, stream.tokens = before ++ rest ∧
      e.PointsTo stream before rest ∧ Dead before rest := by
  rw [ofTokens_eq] at h
  rcases bind_eq_error_iff.1 h with fault | ⟨⟨root, t⟩, read, ended⟩
  · obtain ⟨before, rest, tokens, exit, blocked⟩ := halts_run .orExpression _ e fault grammatical
    exact ⟨before, rest, tokens, exit.pointsTo tokens, blocked.dead⟩
  · obtain ⟨d, rfl, leads, stops⟩ := run_orExpression_eq_ok_iff.1 read
    have tokens : stream.tokens = d.tokens ++ t.rest := leads.rest
    dsimp only at ended
    split at ended
    · split at ended
      · cases ended
      · cases ended
        cases grammatical
    · next offset after closing =>
      cases ended
      refine ⟨d.tokens, t.rest, tokens, .inl ⟨after, closing, ?_⟩,
        dead_of_stops d (by simp [closing]) stops⟩
      have words : stream.words = d.words ++ .closeParen :: after.map (·.token) := by
        rw [TokenStream.words, tokens, closing]
        simp [Derivation.words]
      have unpartnered := d.balanced.unpartnered_close (after.map (·.token))
      rwa [← words, Derivation.words, List.length_map] at unpartnered
    · next noEnd noClose =>
      cases ended
      exact ⟨d.tokens, t.rest, tokens,
        (Exit.unexpected _ d.tokens t.rest).pointsTo tokens, dead_of_stops d noEnd stops⟩

/-- The parser rejects a clause for its grammar at the first token that no clause with the same
tokens before it goes on with, and the error points there. -/
theorem parse_halts {registry : Registry} {subject : String} {limits : Limits} {clause : String}
    (h : parse registry subject limits clause = .error e) (grammatical : e.isGrammatical = true) :
    ∃ stream before rest, Token.ofClause clause = .ok stream ∧ stream.tokens = before ++ rest ∧
      e.PointsTo stream before rest ∧ Token.Viable (before.map (·.token)) ∧
      (∀ k ∈ rest.head?, ¬ Token.Viable (before.map (·.token) ++ [k.token])) ∧
      (rest = [] → ∀ d : Derivation .orExpression, d.words ≠ stream.words) := by
  by_cases large : limits.maxClauseBytes < clause.utf8ByteSize
  · rw [parse_of_large registry subject limits clause large] at h
    cases h
    cases grammatical
  rw [parse_of_small registry subject limits clause (Nat.not_lt.1 large)] at h
  rcases bind_eq_error_iff.1 h with fault | ⟨stream, lexed, h⟩
  · rcases Token.ofClause_error fault with rfl | ⟨_, _, rfl⟩ <;> cases grammatical
  obtain ⟨before, rest, tokens, points, dead⟩ := pointsTo_ofTokens h grammatical
  refine ⟨stream, before, rest, lexed, tokens, points, dead.viable_words,
    fun k next => dead.not_viable_words next, ?_⟩
  rintro rfl d
  rw [TokenStream.words, tokens, List.append_nil]
  exact dead.words_ne d

/-- The inner parenthesis is closed, and the outer one is still open where the clause ends. -/
theorem parse_halts_open :
    parse .builtin "Integer" {} "this ((== 1)" = .error (.unmatchedParen 5) ∧
      ∃ stream before rest, Token.ofClause "this ((== 1)" = .ok stream ∧
        stream.tokens = before ++ rest ∧
        (ClauseError.unmatchedParen 5).PointsTo stream before rest := by
  have failed : parse .builtin "Integer" {} "this ((== 1)" = .error (.unmatchedParen 5) := by cbv
  obtain ⟨stream, before, rest, lexed, tokens, points, -⟩ := parse_halts failed rfl
  exact ⟨failed, stream, before, rest, lexed, tokens, points⟩

end Clause

end HalfBinary
