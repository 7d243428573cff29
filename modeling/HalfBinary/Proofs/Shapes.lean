import Mathlib
import HalfBinary.Proofs.Acceptance
import HalfBinary.Proofs.Meaning
import HalfBinary.Proofs.Pieces

/-!
# The shape of a parsed clause

The tree of a clause has the comparisons that the clause spells, each once and in their order, and
every chain in it has two parts at least. Each level of parentheses adds a chain of `||` and one of
`&&` at most, which bounds the depth of the tree (`parse_shape`).
-/

namespace HalfBinary

/-! ### The comparisons that tokens spell -/

/-- The comparisons among some tokens: each operator that a literal comes after. -/
def Located.comparisons : List Located → List Comparison
  | ⟨.operator op, offset⟩ :: ⟨.literal l, _⟩ :: rest => ⟨op, l, offset⟩ :: comparisons rest
  | _ :: rest => comparisons rest
  | [] => []

theorem Located.comparisons_cons {t : Located} (other : t.token.isOperator = false)
    (rest : List Located) : comparisons (t :: rest) = comparisons rest := by
  obtain ⟨w, offset⟩ := t
  cases w with
  | operator op => cases other
  | accessor _ | connective _ | openParen | closeParen | literal _ => rfl

theorem Lead.comparisons_append (lead : Lead) (rest : List Located) :
    Located.comparisons (lead.tokens ++ rest) = Located.comparisons rest := by
  rcases lead with _ | ⟨segments, offset⟩ <;> rfl

namespace Derivation

/-- A derivation spells its comparisons, whatever comes after it. -/
theorem comparisons_tokens_append {n : Symbol} (d : Derivation n) (rest : List Located) :
    Located.comparisons (d.tokens ++ rest) = d.comparisons ++ Located.comparisons rest := by
  induction d generalizing rest with
  | or first others firstIh othersIh | and first others firstIh othersIh =>
    rw [tokens, List.append_assoc, firstIh, othersIh, comparisons, List.append_assoc]
  | orEnd | andEnd => rfl
  | orMore offset part others partIh othersIh | andMore offset part others partIh othersIh =>
    rw [tokens, List.cons_append, Located.comparisons_cons rfl, List.append_assoc, partIh, othersIh,
      comparisons, List.append_assoc]
  | comparison lead op offset literal literalOffset =>
    rw [tokens, List.append_assoc, Lead.comparisons_append]
    rfl
  | group lead start inner stop ih =>
    rw [tokens, List.append_assoc, Lead.comparisons_append, List.cons_append,
      Located.comparisons_cons rfl, List.append_assoc, ih]
    rfl

theorem comparisons_tokens {n : Symbol} (d : Derivation n) :
    Located.comparisons d.tokens = d.comparisons := by
  have whole := d.comparisons_tokens_append []
  rwa [List.append_nil, Located.comparisons, List.append_nil] at whole

end Derivation

theorem Derivation.comparisons_ne_nil {n : Symbol} (d : Derivation n) (expression : n.IsExpression) :
    d.comparisons ≠ [] := by
  induction d with
  | or first others firstIh | and first others firstIh =>
    exact List.append_ne_nil_of_left_ne_nil (firstIh trivial) _
  | orEnd | orMore | andEnd | andMore => exact expression.elim
  | comparison => exact List.cons_ne_nil _ _
  | group lead start inner stop ih => exact ih trivial

/-! ### Depth -/

namespace Symbol

def treeDepth : (n : Symbol) → n.Tree → Nat
  | .orExpression, t | .andExpression, t | .term, t => t.depth
  | .orOthers, parts | .andOthers, parts => Constraint.depthAll parts

/-- How deep the tree of a symbol is at most, where no parentheses are. -/
def layers : Symbol → Nat
  | .orExpression => 3
  | .andExpression | .orOthers => 2
  | .term | .andOthers => 1

end Symbol

/-- A group of some level holds an or-expression of the level below, whose tree is two layers deeper
than that of a term. -/
theorem Derivation.depth_tree_le {n : Symbol} (d : Derivation n) :
    n.treeDepth d.tree ≤ 2 * d.height + n.layers := by
  induction d with
  | or first others firstIh othersIh =>
    have join := Constraint.depth_join_le .or first.tree others.tree
    simp only [Symbol.treeDepth, Symbol.layers] at firstIh othersIh
    simp only [Symbol.treeDepth, Symbol.layers, tree, height]
    omega
  | and first others firstIh othersIh =>
    have join := Constraint.depth_join_le .and first.tree others.tree
    simp only [Symbol.treeDepth, Symbol.layers] at firstIh othersIh
    simp only [Symbol.treeDepth, Symbol.layers, tree, height]
    omega
  | orEnd | andEnd => exact Nat.zero_le _
  | orMore _ part others partIh othersIh | andMore _ part others partIh othersIh =>
    simp only [Symbol.treeDepth, Symbol.layers] at partIh othersIh
    simp only [Symbol.treeDepth, Symbol.layers, tree, height, Constraint.depthAll]
    omega
  | comparison => exact Nat.le_add_left _ _
  | group lead start inner stop ih =>
    simp only [Symbol.treeDepth, Symbol.layers] at ih
    simp only [Symbol.treeDepth, Symbol.layers, tree, height]
    omega

/-! ### Whole clauses -/

/-- The tokens of a clause stand at strictly rising positions. -/
theorem Token.pairwise_offset {clause : String} {stream : TokenStream}
    (lexed : ofClause clause = .ok stream) :
    (stream.tokens.map (·.offset) ++ [stream.stop]).Pairwise (· < ·) := by
  obtain ⟨ps, legible, same, -, rfl⟩ := ofClause_eq_ok_iff.1 lexed
  have rising := legible.pairwise_offset 0
  rwa [same, Nat.zero_add, Text.byteLength_toList] at rising

namespace Clause

/-- The tree of a clause has chains of two parts at least, and its comparisons are those of the
clause: every operator and every literal is in one of them, in the order of the clause. Their number
and the depth of the tree are within the limits. -/
theorem parse_shape {registry : Registry} {subject : String} {limits : Limits} {clause : String}
    {c : Clause} (h : parse registry subject limits clause = .ok c) :
    c.root.Branching ∧
    (∃ stream, Token.ofClause clause = .ok stream ∧
      c.root.comparisons = Located.comparisons stream.tokens ∧
      stream.tokens.filter (·.token.isOperator) =
        c.root.comparisons.map (fun leaf => ⟨.operator leaf.operator, leaf.offset⟩) ∧
      stream.words.filterMap Token.literal? = c.root.comparisons.map (·.literal) ∧
      c.root.depth ≤ 2 * Token.parenDepth stream.words + 3 ∧
      Token.parenDepth stream.words ≤ limits.maxNesting) ∧
    (c.root.comparisons.map (·.offset)).Pairwise (· < ·) ∧
    1 ≤ c.root.comparisonCount ∧ c.root.comparisonCount ≤ limits.maxComparisons ∧
    c.root.comparisonCount = c.root.comparisons.length ∧
    (∀ p, Predicate.compile registry subject limits clause = .ok p →
      p.leafCount = c.root.comparisonCount) ∧
    c.root.depth ≤ 2 * limits.maxNesting + 3 ∧
    ∀ config : Config, config.validate = .ok () → config.limits = limits → c.root.depth ≤ 259 := by
  obtain ⟨-, stream, lexed, accepted⟩ := parse_eq_ok_iff.1 h
  obtain ⟨d, spelled, shallow, few, -, -, root⟩ := ofTokens_eq_ok_iff.1 accepted
  have words : stream.words = d.words := by
    rw [Derivation.words, spelled]
    rfl
  have leaves : c.root.comparisons = d.comparisons := Derivation.comparisons_of_tree_eq root
  have operators : stream.tokens.filter (·.token.isOperator) =
      c.root.comparisons.map fun leaf => ⟨.operator leaf.operator, leaf.offset⟩ := by
    rw [← spelled, leaves, d.filter_isOperator_tokens]
  have depth : c.root.depth ≤ 2 * Token.parenDepth stream.words + 3 := by
    rw [words, d.parenDepth_words, ← root]
    exact d.depth_tree_le
  have nested : Token.parenDepth stream.words ≤ limits.maxNesting := shallow
  have count : c.root.comparisonCount = c.root.comparisons.length := c.root.comparisonCount_eq
  have bounded : c.root.depth ≤ 2 * limits.maxNesting + 3 := by omega
  refine ⟨?_, ⟨stream, lexed, ?_, operators, ?_, depth, nested⟩, ?_, ?_, ?_, count, ?_, bounded, ?_⟩
  · rw [← root]
    exact d.branching_tree
  · rw [leaves, ← spelled, d.comparisons_tokens]
  · rw [words, leaves, d.filterMap_literal?_words]
  · have rising := (List.pairwise_append.1 (Token.pairwise_offset lexed)).1
    have listed : c.root.comparisons.map (·.offset) =
        (stream.tokens.filter (·.token.isOperator)).map (·.offset) := by
      rw [operators, List.map_map]
      rfl
    rw [listed]
    exact rising.sublist (List.filter_sublist.map _)
  · rw [count, leaves]
    exact List.length_pos_iff.2 (d.comparisons_ne_nil trivial)
  · rw [count, leaves, ← d.operatorCount_words, ← words]
    exact few
  · intro p compiled
    obtain ⟨parsed, -, -⟩ := Predicate.compile_eq_ok_iff.1 compiled
    cases h.symm.trans parsed
    rfl
  · rintro config valid rfl
    have ceiling := (Config.validate_eq_ok_iff_valid.1 valid).nesting.2
    omega

/-- A chain of `||` in a chain of `&&` inside parentheses, and both again outside: no clause with one
level of parentheses is deeper. -/
theorem parse_shape_deepest : ∃ c,
    parse .builtin "Integer" {} "== 1 && (== 2 || == 3 && != 4) || == 5" = .ok c ∧
      c.root.depth = 2 * 1 + 3 ∧ c.root.Branching ∧
      c.root.comparisons.map (·.literal) =
        [.integer 1, .integer 2, .integer 3, .integer 4, .integer 5] ∧
      (c.root.comparisons.map (·.offset)).Pairwise (· < ·) ∧ c.root.depth ≤ 2 * 32 + 3 := by
  let group := Constraint.chain .or [.leaf ⟨.eq, .integer 2, 9⟩,
    .chain .and [.leaf ⟨.eq, .integer 3, 17⟩, .leaf ⟨.ne, .integer 4, 25⟩]]
  let root := Constraint.chain .or
    [.chain .and [.leaf ⟨.eq, .integer 1, 0⟩, group], .leaf ⟨.eq, .integer 5, 34⟩]
  have parsed : parse .builtin "Integer" {} "== 1 && (== 2 || == 3 && != 4) || == 5" =
      .ok ⟨⟨⟨[]⟩, "Integer", [], ⟨"Integer", .scalar .integer⟩⟩, root⟩ := by cbv
  obtain ⟨branching, -, rising, -, -, -, -, depth, -⟩ := parse_shape parsed
  exact ⟨_, parsed, rfl, branching, rfl, rising, depth⟩

end Clause

end HalfBinary
