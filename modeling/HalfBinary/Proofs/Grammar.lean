import HalfBinary.Accessor
import HalfBinary.Token
import HalfBinary.Proofs.Trees

/-!
# The grammar of clauses

Derivations of the grammar

    or-expression  := and-expression ('||' and-expression)*
    and-expression := term ('&&' term)*
    term           := [accessor] '(' or-expression ')' | [accessor] operator literal

as data. A derivation holds the tokens that it derives (`tokens`), the tree that it stands for
(`tree`) and its truth value (`value`), and no two derivations of one symbol derive the same tokens
(`eq_of_tokens_eq`).
-/

namespace HalfBinary

/-- The symbols of the grammar. The two lists of others are the repeated parts of the chains. -/
inductive Symbol where
  | orExpression | orOthers | andExpression | andOthers | term
  deriving DecidableEq, Repr

/-- The symbols that are no lists of others. -/
def Symbol.IsExpression : Symbol → Prop
  | .orExpression | .andExpression | .term => True
  | .orOthers | .andOthers => False

/-- What a symbol stands for: a constraint, or the parts of a chain after its first. -/
abbrev Symbol.Tree : Symbol → Type
  | .orExpression | .andExpression | .term => Constraint
  | .orOthers | .andOthers => List Constraint

/-- The accessor in front of a term if there is one, with its position. -/
abbrev Lead := Option (List String × Nat)

/-- The derivations of a symbol; tokens without content are given by their positions. -/
inductive Derivation : Symbol → Type where
  | or (first : Derivation .andExpression) (others : Derivation .orOthers) :
      Derivation .orExpression
  | orEnd : Derivation .orOthers
  | orMore (offset : Nat) (part : Derivation .andExpression) (others : Derivation .orOthers) :
      Derivation .orOthers
  | and (first : Derivation .term) (others : Derivation .andOthers) : Derivation .andExpression
  | andEnd : Derivation .andOthers
  | andMore (offset : Nat) (part : Derivation .term) (others : Derivation .andOthers) :
      Derivation .andOthers
  | comparison (lead : Lead) (op : Operator) (offset : Nat) (literal : Literal)
      (literalOffset : Nat) : Derivation .term
  | group (lead : Lead) (start : Nat) (inner : Derivation .orExpression) (stop : Nat) :
      Derivation .term

/-- The token of an accessor. -/
def Lead.tokens : Lead → List Located
  | none => []
  | some (segments, offset) => [⟨.accessor segments, offset⟩]

/-- The accessor without its position. -/
def Lead.words (lead : Lead) : List Token := lead.tokens.map (·.token)

@[simp] theorem Lead.words_none : Lead.words none = [] := rfl

@[simp] theorem Lead.words_some (segments : List String) (offset : Nat) :
    Lead.words (some (segments, offset)) = [.accessor segments] := rfl

namespace Derivation

/-- The tokens that are derived. -/
def tokens : Derivation n → List Located
  | or first others => first.tokens ++ others.tokens
  | orEnd => []
  | orMore offset part others => ⟨.connective .or, offset⟩ :: (part.tokens ++ others.tokens)
  | and first others => first.tokens ++ others.tokens
  | andEnd => []
  | andMore offset part others => ⟨.connective .and, offset⟩ :: (part.tokens ++ others.tokens)
  | comparison lead op offset literal literalOffset =>
    Lead.tokens lead ++ [⟨.operator op, offset⟩, ⟨.literal literal, literalOffset⟩]
  | group lead start inner stop =>
    Lead.tokens lead ++ ⟨.openParen, start⟩ :: (inner.tokens ++ [⟨.closeParen, stop⟩])

/-- The tree: a group is its content, and a chain of one part is that part. -/
def tree : Derivation n → n.Tree
  | or first others => Constraint.join .or (first.tree :: others.tree)
  | orEnd => []
  | orMore _ part others => part.tree :: others.tree
  | and first others => Constraint.join .and (first.tree :: others.tree)
  | andEnd => []
  | andMore _ part others => part.tree :: others.tree
  | comparison _ op offset literal _ => Constraint.leaf ⟨op, literal, offset⟩
  | group _ _ inner _ => inner.tree

/-- The comparisons from left to right. -/
def comparisons : Derivation n → List Comparison
  | or first others => first.comparisons ++ others.comparisons
  | orEnd => []
  | orMore _ part others => part.comparisons ++ others.comparisons
  | and first others => first.comparisons ++ others.comparisons
  | andEnd => []
  | andMore _ part others => part.comparisons ++ others.comparisons
  | comparison _ op offset literal _ => [⟨op, literal, offset⟩]
  | group _ _ inner _ => inner.comparisons

/-- The truth value, given that of every comparison: `||` is disjunction and `&&` conjunction. -/
def value (holds : Comparison → Bool) : Derivation n → Bool
  | or first others => first.value holds || others.value holds
  | orEnd => false
  | orMore _ part others => part.value holds || others.value holds
  | and first others => first.value holds && others.value holds
  | andEnd => true
  | andMore _ part others => part.value holds && others.value holds
  | comparison _ op offset literal _ => holds ⟨op, literal, offset⟩
  | group _ _ inner _ => inner.value holds

/-- An expression has an operator and a literal at least. -/
theorem two_le_length_tokens {n : Symbol} (d : Derivation n) (expression : n.IsExpression) :
    2 ≤ d.tokens.length := by
  induction d with
  | or first others firstIh | and first others firstIh =>
    have := firstIh trivial
    simp only [tokens, List.length_append]
    omega
  | orEnd | orMore | andEnd | andMore => exact expression.elim
  | comparison => simp [tokens]
  | group => simp only [tokens, List.length_append, List.length_cons, List.length_nil]; omega

end Derivation

/-! ### Where a derivation ends -/

/-- Whether a token goes on with what a symbol has derived so far. -/
def Symbol.extends : Symbol → Token → Bool
  | .orExpression, t | .orOthers, t => t == .connective .or || t == .connective .and
  | .andExpression, t | .andOthers, t => t == .connective .and
  | .term, _ => false

/-- The tokens that follow do not go on with what a symbol has derived. -/
def Symbol.Stops (n : Symbol) (rest : List Located) : Prop :=
  ∀ next ∈ rest.head?, n.extends next.token = false

/-- No symbol goes on with a closing parenthesis. -/
theorem Symbol.stops_closeParen (n : Symbol) (offset : Nat) (rest : List Located) :
    n.Stops (⟨.closeParen, offset⟩ :: rest) := by
  cases n <;> simp [Stops, Symbol.extends]

/-- Every token may follow a term. -/
theorem Symbol.stops_term (rest : List Located) : term.Stops rest := fun _ _ => rfl

theorem Symbol.stops_nil (n : Symbol) : n.Stops [] := by simp [Stops]

/-- An accessor, or its absence, is read off the tokens in front of any other token. -/
theorem Lead.append_inj {lead lead' : Lead} {rest rest' : List Located}
    (same : lead.tokens ++ rest = lead'.tokens ++ rest')
    (other : ∀ t ∈ rest.head?, ∀ segments, t.token ≠ .accessor segments)
    (other' : ∀ t ∈ rest'.head?, ∀ segments, t.token ≠ .accessor segments) :
    lead = lead' ∧ rest = rest' := by
  rcases lead with _ | ⟨segments, offset⟩ <;> rcases lead' with _ | ⟨segments', offset'⟩
  · exact ⟨rfl, same⟩
  · obtain rfl : rest = _ := same
    exact absurd rfl (other ⟨.accessor segments', offset'⟩ rfl segments')
  · obtain rfl : _ = rest' := same
    exact absurd rfl (other' ⟨.accessor segments, offset⟩ rfl segments)
  · simp only [Lead.tokens, List.cons_append, List.nil_append, List.cons.injEq, Located.mk.injEq,
      Token.accessor.injEq] at same
    obtain ⟨⟨rfl, rfl⟩, rfl⟩ := same
    exact ⟨rfl, rfl⟩

theorem Lead.exists_tokens_eq (lead : Lead) {located : List Located}
    (same : located.map (·.token) = lead.words) :
    ∃ lead' : Lead, lead'.tokens = located := by
  rcases lead with _ | ⟨segments, offset⟩
  · exact ⟨none, (List.map_eq_nil_iff.1 same).symm⟩
  · obtain ⟨⟨_, offset'⟩, tail, rfl, rfl, right⟩ := List.map_eq_cons_iff.1 same
    obtain rfl := List.map_eq_nil_iff.1 right
    exact ⟨some (segments, offset'), rfl⟩

namespace Derivation

/-- The further parts of a chain of `||` start where no chain of `&&` goes on. -/
theorem stops_orOthers (others : Derivation .orOthers) {rest : List Located}
    (stops : Symbol.orExpression.Stops rest) :
    Symbol.andExpression.Stops (others.tokens ++ rest) := by
  cases others with
  | orEnd =>
    intro next head
    have neither := stops next head
    simp only [Symbol.extends, Bool.or_eq_false_iff] at neither
    exact neither.2
  | orMore offset part others => simp [tokens, Symbol.Stops, Symbol.extends]

/-- A derivation and what follows it are determined by their tokens. -/
theorem append_inj {n : Symbol} {d d' : Derivation n} {rest rest' : List Located}
    (same : d.tokens ++ rest = d'.tokens ++ rest') (stops : n.Stops rest)
    (stops' : n.Stops rest') : d = d' ∧ rest = rest' := by
  induction d generalizing rest rest' with
  | or first others firstIh othersIh =>
    cases d' with
    | or first' others' =>
      simp only [tokens, List.append_assoc] at same
      obtain ⟨rfl, tail⟩ := firstIh same (stops_orOthers others stops) (stops_orOthers others' stops')
      obtain ⟨rfl, rfl⟩ := othersIh tail stops stops'
      exact ⟨rfl, rfl⟩
  | orEnd =>
    cases d' with
    | orEnd => exact ⟨rfl, same⟩
    | orMore offset part others =>
      obtain rfl : rest = _ := same
      simp [tokens, Symbol.Stops, Symbol.extends] at stops
  | orMore offset part others partIh othersIh =>
    cases d' with
    | orEnd =>
      obtain rfl : _ = rest' := same
      simp [tokens, Symbol.Stops, Symbol.extends] at stops'
    | orMore offset' part' others' =>
      simp only [tokens, List.cons_append, List.cons.injEq, Located.mk.injEq, List.append_assoc] at same
      obtain ⟨⟨-, rfl⟩, same⟩ := same
      obtain ⟨rfl, tail⟩ := partIh same (stops_orOthers others stops) (stops_orOthers others' stops')
      obtain ⟨rfl, rfl⟩ := othersIh tail stops stops'
      exact ⟨rfl, rfl⟩
  | and first others firstIh othersIh =>
    cases d' with
    | and first' others' =>
      simp only [tokens, List.append_assoc] at same
      obtain ⟨rfl, tail⟩ := firstIh same (Symbol.stops_term _) (Symbol.stops_term _)
      obtain ⟨rfl, rfl⟩ := othersIh tail stops stops'
      exact ⟨rfl, rfl⟩
  | andEnd =>
    cases d' with
    | andEnd => exact ⟨rfl, same⟩
    | andMore offset part others =>
      obtain rfl : rest = _ := same
      simp [tokens, Symbol.Stops, Symbol.extends] at stops
  | andMore offset part others partIh othersIh =>
    cases d' with
    | andEnd =>
      obtain rfl : _ = rest' := same
      simp [tokens, Symbol.Stops, Symbol.extends] at stops'
    | andMore offset' part' others' =>
      simp only [tokens, List.cons_append, List.cons.injEq, Located.mk.injEq, List.append_assoc] at same
      obtain ⟨⟨-, rfl⟩, same⟩ := same
      obtain ⟨rfl, tail⟩ := partIh same (Symbol.stops_term _) (Symbol.stops_term _)
      obtain ⟨rfl, rfl⟩ := othersIh tail stops stops'
      exact ⟨rfl, rfl⟩
  | comparison lead op offset literal literalOffset =>
    cases d' with
    | comparison lead' op' offset' literal' literalOffset' =>
      simp only [tokens, List.append_assoc] at same
      obtain ⟨rfl, tail⟩ := Lead.append_inj same (by simp) (by simp)
      simp at tail
      obtain ⟨⟨rfl, rfl⟩, ⟨rfl, rfl⟩, rfl⟩ := tail
      exact ⟨rfl, rfl⟩
    | group lead' start inner stop =>
      simp only [tokens, List.append_assoc] at same
      have tail := (Lead.append_inj same (by simp) (by simp)).2
      simp at tail
  | group lead start inner stop ih =>
    cases d' with
    | comparison lead' op' offset' literal' literalOffset' =>
      simp only [tokens, List.append_assoc] at same
      have tail := (Lead.append_inj same (by simp) (by simp)).2
      simp at tail
    | group lead' start' inner' stop' =>
      simp only [tokens, List.append_assoc] at same
      obtain ⟨rfl, tail⟩ := Lead.append_inj same (by simp) (by simp)
      simp only [List.cons_append, List.cons.injEq, Located.mk.injEq, List.append_assoc] at tail
      obtain ⟨⟨-, rfl⟩, tail⟩ := tail
      obtain ⟨rfl, closing⟩ := ih tail (Symbol.stops_closeParen _ _ _)
        (Symbol.stops_closeParen _ _ _)
      simp at closing
      obtain ⟨rfl, rfl⟩ := closing
      exact ⟨rfl, rfl⟩

/-- No two derivations of a symbol derive the same tokens. -/
theorem eq_of_tokens_eq {n : Symbol} {d d' : Derivation n} (same : d.tokens = d'.tokens) : d = d' :=
  by
  have whole : d.tokens ++ [] = d'.tokens ++ [] := by rw [same]
  exact (append_inj whole n.stops_nil n.stops_nil).1

end Derivation

/-! ### What tokens say, whatever their order -/

/-- The tokens of a stream without their positions. -/
def TokenStream.words (s : TokenStream) : List Token := s.tokens.map (·.token)

namespace Token

/-- The path that an accessor names. -/
def path? : Token → Option AccessorPath
  | accessor segments => some (.ofSegments segments)
  | operator _ | connective _ | openParen | closeParen | literal _ => none

def isOperator : Token → Bool
  | operator _ => true
  | accessor _ | connective _ | openParen | closeParen | literal _ => false

/-- The literal that a token is. -/
def literal? : Token → Option Literal
  | literal l => some l
  | accessor _ | operator _ | connective _ | openParen | closeParen => none

theorem literal?_eq_some_iff {w : Token} {l : Literal} : w.literal? = some l ↔ w = literal l := by
  cases w <;> simp [literal?]

/-- Whether a token binds the accessor of a clause that has none yet. -/
def isBinding (w : Token) : Bool := w.isOperator || w.path?.isSome

def operatorCount (words : List Token) : Nat := words.countP isOperator

/-- The paths that accessors name. -/
def paths (words : List Token) : List AccessorPath := words.filterMap path?

/-- The path of a clause: that of its first accessor, or the fact itself where an operator comes
before any accessor. -/
def clausePath : List Token → AccessorPath
  | [] => ⟨[]⟩
  | accessor segments :: _ => .ofSegments segments
  | operator _ :: _ => ⟨[]⟩
  | _ :: rest => clausePath rest

/-- The greatest number of parentheses that are open at once, if `depth` are open before. -/
def deepest (depth : Nat) : List Token → Nat
  | [] => depth
  | openParen :: rest => deepest (depth + 1) rest
  | closeParen :: rest => max depth (deepest (depth - 1) rest)
  | _ :: rest => deepest depth rest

/-- The greatest depth of parentheses. -/
def parenDepth (words : List Token) : Nat := deepest 0 words

theorem paths_cons {w : Token} (other : w.path? = none) (words : List Token) :
    paths (w :: words) = paths words := List.filterMap_cons_none other

theorem paths_append (words words' : List Token) : paths (words ++ words') = paths words ++ paths words' :=
  List.filterMap_append

theorem le_deepest (depth : Nat) (words : List Token) : depth ≤ deepest depth words := by
  induction words generalizing depth with
  | nil => exact Nat.le_refl depth
  | cons w rest ih =>
    cases w with
    | openParen => exact Nat.le_of_succ_le (ih (depth + 1))
    | closeParen => exact Nat.le_max_left ..
    | accessor _ | operator _ | connective _ | literal _ => exact ih depth

end Token

/-- An expression holds an operator, at least. -/
theorem Derivation.exists_isBinding {n : Symbol} (d : Derivation n) (expression : n.IsExpression) :
    ∃ w ∈ d.tokens.map (·.token), w.isBinding := by
  induction d with
  | or first others firstIh | and first others firstIh =>
    obtain ⟨w, mem, binding⟩ := firstIh trivial
    exact ⟨w, by simp only [tokens, List.map_append, List.mem_append]; exact .inl mem, binding⟩
  | orEnd | orMore | andEnd | andMore => exact expression.elim
  | comparison lead op => exact ⟨.operator op, by simp [tokens], rfl⟩
  | group lead start inner stop ih =>
    obtain ⟨w, mem, binding⟩ := ih trivial
    refine ⟨w, ?_, binding⟩
    simp only [tokens, List.map_append, List.map_cons, List.mem_append, List.mem_cons]
    exact .inr (.inr (.inl mem))

/-! ### The tree of a derivation -/

namespace Symbol

def allComparisons : (n : Symbol) → n.Tree → List Comparison
  | .orExpression, t | .andExpression, t | .term, t => t.comparisons
  | .orOthers, parts | .andOthers, parts => Constraint.comparisonsAll parts

def treeValue (holds : Comparison → Bool) : (n : Symbol) → n.Tree → Bool
  | .orExpression, t | .andExpression, t | .term, t => t.value holds
  | .orOthers, parts => Constraint.anyValue holds parts
  | .andOthers, parts => Constraint.allValue holds parts

def mapTree (f : Comparison → Comparison) : (n : Symbol) → n.Tree → n.Tree
  | .orExpression, t | .andExpression, t | .term, t => t.map f
  | .orOthers, parts | .andOthers, parts => Constraint.mapAll f parts

def TreeBranching : (n : Symbol) → n.Tree → Prop
  | .orExpression, t | .andExpression, t | .term, t => t.Branching
  | .orOthers, parts | .andOthers, parts => Constraint.AllBranching parts

end Symbol

namespace Derivation

theorem comparisons_tree {n : Symbol} (d : Derivation n) :
    n.allComparisons d.tree = d.comparisons := by
  induction d with
  | or first others firstIh othersIh | and first others firstIh othersIh =>
    rw [comparisons, ← firstIh, ← othersIh]
    exact Constraint.comparisons_join _ _
  | orMore _ part others partIh othersIh | andMore _ part others partIh othersIh =>
    rw [comparisons, ← partIh, ← othersIh]
    rfl
  | orEnd | andEnd | comparison => rfl
  | group lead start inner stop ih => exact ih

theorem comparisons_of_tree_eq {d : Derivation .orExpression} {t : Constraint} (root : d.tree = t) :
    t.comparisons = d.comparisons := by
  rw [← d.comparisons_tree, root]
  rfl

theorem value_tree {n : Symbol} (holds : Comparison → Bool) (d : Derivation n) :
    n.treeValue holds d.tree = d.value holds := by
  induction d with
  | or first others firstIh othersIh =>
    rw [value, ← firstIh, ← othersIh]
    exact Constraint.value_join_or _ _
  | and first others firstIh othersIh =>
    rw [value, ← firstIh, ← othersIh]
    exact Constraint.value_join_and _ _
  | orMore _ part others partIh othersIh | andMore _ part others partIh othersIh =>
    rw [value, ← partIh, ← othersIh]
    rfl
  | orEnd | andEnd | comparison => rfl
  | group lead start inner stop ih => exact ih

theorem branching_tree {n : Symbol} (d : Derivation n) : n.TreeBranching d.tree := by
  induction d with
  | or first others firstIh othersIh | and first others firstIh othersIh =>
    exact Constraint.branching_join _ firstIh othersIh
  | orMore _ part others partIh othersIh | andMore _ part others partIh othersIh =>
    exact ⟨partIh, othersIh⟩
  | orEnd | andEnd | comparison => trivial
  | group lead start inner stop ih => exact ih

/-! ### Positions -/

/-- The tokens without their positions. -/
def words (d : Derivation n) : List Token := d.tokens.map (·.token)

@[simp] theorem words_or (first : Derivation .andExpression) (others : Derivation .orOthers) :
    (or first others).words = first.words ++ others.words := List.map_append

@[simp] theorem words_orEnd : orEnd.words = [] := rfl

@[simp] theorem words_orMore (offset : Nat) (part : Derivation .andExpression)
    (others : Derivation .orOthers) :
    (orMore offset part others).words = .connective .or :: (part.words ++ others.words) := by
  simp [words, tokens]

@[simp] theorem words_and (first : Derivation .term) (others : Derivation .andOthers) :
    (and first others).words = first.words ++ others.words := List.map_append

@[simp] theorem words_andEnd : andEnd.words = [] := rfl

@[simp] theorem words_andMore (offset : Nat) (part : Derivation .term)
    (others : Derivation .andOthers) :
    (andMore offset part others).words = .connective .and :: (part.words ++ others.words) := by
  simp [words, tokens]

@[simp] theorem words_comparison (lead : Lead) (op : Operator) (offset : Nat) (literal : Literal)
    (literalOffset : Nat) :
    (comparison lead op offset literal literalOffset).words =
      lead.words ++ [.operator op, .literal literal] := by
  simp [words, tokens, Lead.words]

@[simp] theorem words_group (lead : Lead) (start : Nat) (inner : Derivation .orExpression)
    (stop : Nat) :
    (group lead start inner stop).words =
      lead.words ++ .openParen :: (inner.words ++ [.closeParen]) := by
  simp [words, tokens, Lead.words]

/-- The derivation at no particular positions. -/
def plain : Derivation n → Derivation n
  | or first others => or first.plain others.plain
  | orEnd => orEnd
  | orMore _ part others => orMore 0 part.plain others.plain
  | and first others => and first.plain others.plain
  | andEnd => andEnd
  | andMore _ part others => andMore 0 part.plain others.plain
  | comparison lead op _ literal _ =>
    comparison (lead.map fun (segments, _) => (segments, 0)) op 0 literal 0
  | group lead _ inner _ => group (lead.map fun (segments, _) => (segments, 0)) 0 inner.plain 0

theorem tokens_plain {n : Symbol} (d : Derivation n) :
    d.plain.tokens = d.words.map fun w => ⟨w, 0⟩ := by
  induction d with
  | or first others firstIh othersIh | and first others firstIh othersIh =>
    simp [plain, tokens, firstIh, othersIh]
  | orMore _ part others partIh othersIh | andMore _ part others partIh othersIh =>
    simp [plain, tokens, partIh, othersIh]
  | orEnd | andEnd => rfl
  | comparison lead => rcases lead with _ | ⟨segments, offset⟩ <;> rfl
  | group lead start inner stop ih =>
    rcases lead with _ | ⟨segments, offset⟩ <;> simp [plain, tokens, ih, Lead.tokens]

/-- Two derivations of the same tokens differ in positions only. -/
theorem plain_eq_of_words_eq {n : Symbol} {d d' : Derivation n} (same : d.words = d'.words) :
    d.plain = d'.plain :=
  eq_of_tokens_eq (by rw [tokens_plain, tokens_plain, same])

theorem tree_plain {n : Symbol} (d : Derivation n) :
    d.plain.tree = n.mapTree Comparison.plain d.tree := by
  induction d with
  | or first others firstIh othersIh | and first others firstIh othersIh =>
    simp only [plain, tree, firstIh, othersIh]
    exact (Constraint.map_join _ _ (_ :: _)).symm
  | orMore _ part others partIh othersIh | andMore _ part others partIh othersIh =>
    simp only [plain, tree, partIh, othersIh]
    rfl
  | orEnd | andEnd | comparison => rfl
  | group lead start inner stop ih => exact ih

theorem comparisons_plain {n : Symbol} (d : Derivation n) :
    d.plain.comparisons = d.comparisons.map Comparison.plain := by
  induction d with
  | or first others firstIh othersIh | and first others firstIh othersIh =>
    simp only [plain, comparisons, firstIh, othersIh, List.map_append]
  | orMore _ part others partIh othersIh | andMore _ part others partIh othersIh =>
    simp only [plain, comparisons, partIh, othersIh, List.map_append]
  | orEnd | andEnd | comparison => rfl
  | group lead start inner stop ih => exact ih

theorem value_plain {n : Symbol} (holds : Comparison → Bool) (d : Derivation n) :
    d.plain.value holds = d.value fun c => holds c.plain := by
  induction d with
  | or first others firstIh othersIh | and first others firstIh othersIh =>
    simp only [plain, value, firstIh, othersIh]
  | orMore _ part others partIh othersIh | andMore _ part others partIh othersIh =>
    simp only [plain, value, partIh, othersIh]
  | orEnd | andEnd | comparison => rfl
  | group lead start inner stop ih => exact ih

/-- What derives some tokens derives them at any positions. -/
theorem exists_tokens_eq {n : Symbol} (d : Derivation n) {located : List Located}
    (same : located.map (·.token) = d.words) : ∃ d' : Derivation n, d'.tokens = located := by
  induction d generalizing located with
  | or first others firstIh othersIh =>
    simp only [words_or] at same
    obtain ⟨before, after, rfl, left, right⟩ := List.map_eq_append_iff.1 same
    obtain ⟨first', rfl⟩ := firstIh left
    obtain ⟨others', rfl⟩ := othersIh right
    exact ⟨.or first' others', rfl⟩
  | and first others firstIh othersIh =>
    simp only [words_and] at same
    obtain ⟨before, after, rfl, left, right⟩ := List.map_eq_append_iff.1 same
    obtain ⟨first', rfl⟩ := firstIh left
    obtain ⟨others', rfl⟩ := othersIh right
    exact ⟨.and first' others', rfl⟩
  | orEnd => exact ⟨.orEnd, (List.map_eq_nil_iff.1 same).symm⟩
  | andEnd => exact ⟨.andEnd, (List.map_eq_nil_iff.1 same).symm⟩
  | orMore offset part others partIh othersIh =>
    simp only [words_orMore] at same
    obtain ⟨⟨_, offset'⟩, tail, rfl, rfl, both⟩ := List.map_eq_cons_iff.1 same
    obtain ⟨before, after, rfl, left, right⟩ := List.map_eq_append_iff.1 both
    obtain ⟨part', rfl⟩ := partIh left
    obtain ⟨others', rfl⟩ := othersIh right
    exact ⟨.orMore offset' part' others', rfl⟩
  | andMore offset part others partIh othersIh =>
    simp only [words_andMore] at same
    obtain ⟨⟨_, offset'⟩, tail, rfl, rfl, both⟩ := List.map_eq_cons_iff.1 same
    obtain ⟨before, after, rfl, left, right⟩ := List.map_eq_append_iff.1 both
    obtain ⟨part', rfl⟩ := partIh left
    obtain ⟨others', rfl⟩ := othersIh right
    exact ⟨.andMore offset' part' others', rfl⟩
  | comparison lead op offset literal literalOffset =>
    simp only [words_comparison] at same
    obtain ⟨before, after, rfl, left, right⟩ := List.map_eq_append_iff.1 same
    obtain ⟨lead', rfl⟩ := Lead.exists_tokens_eq lead left
    obtain ⟨⟨_, offset'⟩, operand, rfl, rfl, last⟩ := List.map_eq_cons_iff.1 right
    obtain ⟨⟨_, literalOffset'⟩, none, rfl, rfl, empty⟩ := List.map_eq_cons_iff.1 last
    obtain rfl := List.map_eq_nil_iff.1 empty
    exact ⟨.comparison lead' op offset' literal literalOffset', rfl⟩
  | group lead start inner stop ih =>
    simp only [words_group] at same
    obtain ⟨before, after, rfl, left, right⟩ := List.map_eq_append_iff.1 same
    obtain ⟨lead', rfl⟩ := Lead.exists_tokens_eq lead left
    obtain ⟨⟨_, start'⟩, tail, rfl, rfl, both⟩ := List.map_eq_cons_iff.1 right
    obtain ⟨content, closing, rfl, middle, last⟩ := List.map_eq_append_iff.1 both
    obtain ⟨inner', rfl⟩ := ih middle
    obtain ⟨⟨_, stop'⟩, none, rfl, rfl, empty⟩ := List.map_eq_cons_iff.1 last
    obtain rfl := List.map_eq_nil_iff.1 empty
    exact ⟨.group lead' start' inner' stop', rfl⟩

/-! ### Measures -/

/-- The greatest number of groups around a part. -/
def height : Derivation n → Nat
  | or first others => max first.height others.height
  | orEnd => 0
  | orMore _ part others => max part.height others.height
  | and first others => max first.height others.height
  | andEnd => 0
  | andMore _ part others => max part.height others.height
  | comparison .. => 0
  | group _ _ inner _ => inner.height + 1

theorem deepest_lead (depth : Nat) (lead : Lead) (rest : List Token) :
    Token.deepest depth (lead.words ++ rest) = Token.deepest depth rest := by
  rcases lead with _ | ⟨segments, offset⟩ <;> rfl

/-- Parentheses are closed where a derivation ends. -/
theorem deepest_append {n : Symbol} (d : Derivation n) (depth : Nat) (rest : List Token) :
    Token.deepest depth (d.words ++ rest) = max (depth + d.height) (Token.deepest depth rest) := by
  induction d generalizing depth rest with
  | or first others firstIh othersIh =>
    rw [words_or, List.append_assoc, firstIh, othersIh, height]
    omega
  | and first others firstIh othersIh =>
    rw [words_and, List.append_assoc, firstIh, othersIh, height]
    omega
  | orEnd | andEnd => exact (Nat.max_eq_right (Token.le_deepest depth rest)).symm
  | orMore offset part others partIh othersIh =>
    rw [words_orMore, List.cons_append, List.append_assoc, Token.deepest, partIh, othersIh, height]
    · omega
    all_goals nofun
  | andMore offset part others partIh othersIh =>
    rw [words_andMore, List.cons_append, List.append_assoc, Token.deepest, partIh, othersIh, height]
    · omega
    all_goals nofun
  | comparison lead op offset literal literalOffset =>
    rw [words_comparison, List.append_assoc, deepest_lead]
    exact (Nat.max_eq_right (Token.le_deepest depth rest)).symm
  | group lead start inner stop ih =>
    rw [words_group, List.append_assoc, deepest_lead, List.cons_append, Token.deepest,
      List.append_assoc, ih, List.singleton_append, Token.deepest, height, Nat.add_sub_cancel]
    have := Token.le_deepest depth rest
    omega

theorem parenDepth_words {n : Symbol} (d : Derivation n) : Token.parenDepth d.words = d.height := by
  rw [Token.parenDepth, ← List.append_nil d.words, deepest_append, Token.deepest]
  omega

/-! ### Operators and literals -/

theorem filter_isOperator_lead (lead : Lead) : lead.tokens.filter (·.token.isOperator) = [] := by
  rcases lead with _ | ⟨segments, offset⟩ <;> rfl

/-- The operators are those of the comparisons, at the same positions and in their order. -/
theorem filter_isOperator_tokens {n : Symbol} (d : Derivation n) :
    d.tokens.filter (·.token.isOperator) =
      d.comparisons.map fun c => ⟨.operator c.operator, c.offset⟩ := by
  induction d with
  | or first others firstIh othersIh | and first others firstIh othersIh =>
    simp [tokens, comparisons, firstIh, othersIh]
  | orEnd | andEnd => rfl
  | orMore _ part others partIh othersIh | andMore _ part others partIh othersIh =>
    rw [tokens, List.filter_cons_of_neg Bool.false_ne_true, List.filter_append, partIh, othersIh, comparisons,
      List.map_append]
  | comparison lead op offset literal literalOffset =>
    rw [tokens, List.filter_append, filter_isOperator_lead]
    rfl
  | group lead start inner stop ih =>
    rw [tokens, List.filter_append, filter_isOperator_lead, List.nil_append,
      List.filter_cons_of_neg Bool.false_ne_true, List.filter_append, ih, List.filter_cons_of_neg Bool.false_ne_true]
    exact List.append_nil _

theorem operatorCount_words {n : Symbol} (d : Derivation n) :
    Token.operatorCount d.words = d.comparisons.length := by
  have operators := congrArg List.length d.filter_isOperator_tokens
  rw [List.length_map, ← List.countP_eq_length_filter] at operators
  rw [← operators, Token.operatorCount, words, List.countP_map]
  rfl

theorem filterMap_literal?_lead (lead : Lead) : lead.words.filterMap Token.literal? = [] := by
  rcases lead with _ | ⟨segments, offset⟩ <;> rfl

/-- The literals are those of the comparisons, in their order. -/
theorem filterMap_literal?_words {n : Symbol} (d : Derivation n) :
    d.words.filterMap Token.literal? = d.comparisons.map (·.literal) := by
  induction d with
  | or first others firstIh othersIh | and first others firstIh othersIh =>
    simp [comparisons, firstIh, othersIh]
  | orEnd | andEnd => rfl
  | orMore _ part others partIh othersIh =>
    rw [words_orMore, List.filterMap_cons_none rfl, List.filterMap_append, partIh, othersIh,
      comparisons, List.map_append]
  | andMore _ part others partIh othersIh =>
    rw [words_andMore, List.filterMap_cons_none rfl, List.filterMap_append, partIh, othersIh,
      comparisons, List.map_append]
  | comparison lead op offset literal literalOffset =>
    rw [words_comparison, List.filterMap_append, filterMap_literal?_lead]
    rfl
  | group lead start inner stop ih =>
    rw [words_group, List.filterMap_append, filterMap_literal?_lead, List.nil_append,
      List.filterMap_cons_none rfl, List.filterMap_append, ih]
    exact List.append_nil _

/-- The literals of comparisons are among the tokens. -/
theorem literal_mem_words {n : Symbol} (d : Derivation n) {c : Comparison}
    (mem : c ∈ d.comparisons) : Token.literal c.literal ∈ d.words := by
  have literals := d.filterMap_literal?_words
  have listed : c.literal ∈ d.words.filterMap Token.literal? := by
    rw [literals]
    exact List.mem_map_of_mem mem
  obtain ⟨w, among, same⟩ := List.mem_filterMap.1 listed
  rwa [← Token.literal?_eq_some_iff.1 same]

end Derivation

end HalfBinary
