import Mathlib
import HalfBinary.Proofs.Edits
import HalfBinary.Proofs.Meaning
import HalfBinary.Proofs.Printing
import HalfBinary.Proofs.Validation

/-!
# Normal forms

The text of a compiled clause compiles to a predicate of the same path and truth values, with a tree
that is the same but for the way in which its numbers are held (`compile_render`).
-/

namespace HalfBinary

/-! ### Comparisons read again -/

namespace Comparator

variable {valueType : TypeDescriptor}

theorem reread_eq_plain {c : Comparison} (same : c.literal = c.literal.reread) :
    c.reread = c.plain := by
  rw [Comparison.reread, ← same]
  rfl

theorem resolves_reread {c : Comparison} (resolves : Resolves valueType c) :
    Resolves valueType c.reread := by
  rcases c.literal.same_reread with same | ⟨q, number, number'⟩
  · obtain ⟨k, resolved⟩ := resolves
    rw [reread_eq_plain same]
    exact ⟨k, resolve_plain_eq_ok_iff.2 resolved⟩
  · exact (resolves_number_iff number').2 ((resolves_number_iff number).1 resolves)

theorem meaning_reread {c : Comparison} (resolves : Resolves valueType c) (value : Json) :
    meaning valueType value c.reread = meaning valueType value c := by
  rcases c.literal.same_reread with same | ⟨q, number, number'⟩
  · rw [reread_eq_plain same, meaning_plain]
  · obtain ⟨k', resolved'⟩ := resolves_reread resolves
    obtain ⟨k, resolved⟩ := resolves
    rw [meaning, meaning, resolved, resolved']
    exact (test_number number' resolved' value).trans (test_number number resolved value).symm

end Comparator

/-! ### Trees that are alike -/

namespace Constraint

mutual

/-- Trees of the same shape with the same connectives and operators, and with literals that are
equal, numbers by value. -/
def Alike : Constraint → Constraint → Prop
  | leaf c, leaf c' => c.operator = c'.operator ∧ c.literal.Same c'.literal
  | chain connective parts, chain connective' parts' =>
    connective = connective' ∧ AllAlike parts parts'
  | _, _ => False

def AllAlike : List Constraint → List Constraint → Prop
  | [], [] => True
  | part :: parts, part' :: parts' => Alike part part' ∧ AllAlike parts parts'
  | _, _ => False

end

mutual

theorem alike_of_plain_eq_reread : (t u : Constraint) → u.plain = t.reread → Alike t u
  | leaf c, leaf c', same => by
    obtain ⟨op, l, offset⟩ := c'
    injection same with same
    cases same
    exact ⟨rfl, c.literal.same_reread⟩
  | chain connective parts, chain connective' parts', same => by
    injection same with connectives all
    exact ⟨connectives.symm, allAlike_of_plain_eq_reread parts parts' all⟩
  | leaf c, chain connective parts, same => by cases same
  | chain connective parts, leaf c, same => by cases same

theorem allAlike_of_plain_eq_reread : (parts parts' : List Constraint) →
    mapAll Comparison.plain parts' = mapAll Comparison.reread parts → AllAlike parts parts'
  | [], [], _ => trivial
  | part :: parts, part' :: parts', same => by
    injection same with first others
    exact ⟨alike_of_plain_eq_reread part part' first, allAlike_of_plain_eq_reread parts parts' others⟩
  | [], part' :: parts', same => by cases same
  | part :: parts, [], same => by cases same

end

theorem plain_reread (t : Constraint) : t.reread.plain = t.reread := map_map _ _ t

section

open Comparator (meaning Resolves)

variable {t u : Constraint} {valueType : TypeDescriptor} (same : u.plain = t.reread)
  (resolves : ∀ c ∈ t.comparisons, Resolves valueType c)

include same resolves

theorem resolves_of_plain_eq_reread : ∀ c ∈ u.comparisons, Resolves valueType c := by
  intro c mem
  have plain : c.plain ∈ t.comparisons.map Comparison.reread := by
    rw [← comparisons_map]
    change _ ∈ t.reread.comparisons
    rw [← same, plain, comparisons_map]
    exact List.mem_map_of_mem mem
  obtain ⟨c', mem', reread⟩ := List.mem_map.1 plain
  obtain ⟨k, resolved⟩ := Comparator.resolves_reread (resolves c' mem')
  rw [reread] at resolved
  exact ⟨k, Comparator.resolve_plain_eq_ok_iff.1 resolved⟩

theorem value_of_plain_eq_reread (value : Json) :
    u.value (meaning valueType value) = t.value (meaning valueType value) := by
  calc u.value (meaning valueType value)
      = u.value fun c => meaning valueType value c.plain :=
        value_congr u fun c _ => (Comparator.meaning_plain valueType value c).symm
    _ = u.plain.value (meaning valueType value) := (value_map _ _ u).symm
    _ = t.reread.value (meaning valueType value) := by rw [same]
    _ = t.value fun c => meaning valueType value c.reread := value_map _ _ t
    _ = t.value (meaning valueType value) :=
        value_congr t fun c mem => Comparator.meaning_reread (resolves c mem) value

end

end Constraint

/-! ### The text of an accessor -/

theorem Token.ofWord_of_isProperty {first : String} (property : IsProperty first)
    (others : List String) : ofWord (first :: others) = .accessor (first :: others) := by
  obtain ⟨-, other⟩ := property
  unfold ofWord
  split
  · next same =>
    cases same
    exact absurd (by decide) other
  · next same =>
    cases same
    exact absurd (by decide) other
  · next same =>
    cases same
    exact absurd (by decide) other
  · rfl

namespace AccessorPath

/-- The segments that are written for a path. -/
def written (p : AccessorPath) : List String := if p.isIdentity then [self] else p.segments

variable {p : AccessorPath} (properties : ∀ segment ∈ p.segments, IsProperty segment)

include properties

theorem ofSegments_written : ofSegments p.written = p := by
  obtain ⟨segments⟩ := p
  cases segments with
  | nil => rfl
  | cons first others =>
    have other : first ≠ self := by
      rintro rfl
      exact (properties self List.mem_cons_self).2 List.mem_cons_self
    exact congrArg mk (if_neg other)

theorem spelling_render :
    Token.Spelling p.render.toList (.accessor p.written) Token.continuesWord := by
  obtain ⟨segments⟩ := p
  cases segments with
  | nil => exact @Token.Spelling.word self.toList [] rfl (List.forall_mem_nil _)
  | cons first others =>
    obtain ⟨property, properties⟩ := List.forall_mem_cons.1 properties
    have spelled := @Token.Spelling.word first.toList (others.map String.toList) property.1 (by
      intro o mem
      obtain ⟨segment, found, rfl⟩ := List.mem_map.1 mem
      exact (properties segment found).1)
    have text : (render ⟨first :: others⟩).toList =
        first.toList ++ Token.pointed (others.map String.toList) := by
      rw [render, if_neg nofun, Token.toList_intercalate_point]
    have written : written ⟨first :: others⟩ = first :: others := rfl
    rw [text, written, ← Token.ofWord_of_isProperty property others]
    simpa using spelled

end AccessorPath

/-! ### The text of a predicate -/

namespace Predicate

open Piece (Legible text words)

/-- The pieces of the text: the accessor, then the constraint as one term. -/
def pieces (p : Predicate) : List Piece :=
  .word (.accessor p.accessor.path.written) p.accessor.path.render.toList :: .blank ' ' ::
    p.tree.termPieces

theorem text_pieces (p : Predicate) : text p.pieces = p.render.toList := by
  unfold pieces render
  rw [Piece.text_word, Piece.text_blank]
  split
  · next c leaf =>
    rw [leaf, Constraint.text_termPieces_leaf]
    simp [Comparison.render]
  · next connective parts chain =>
    rw [chain, Constraint.text_termPieces_chain]
    simp [Constraint.render]

theorem render_eq (p : Predicate) : p.render = String.ofList (text p.pieces) := by
  rw [text_pieces, String.ofList_toList]

/-- The text of a predicate without positions, and with its numbers held as they are read again. -/
theorem render_eq_of_plain {p q : Predicate} (path : q.accessor.path = p.accessor.path)
    (tree : q.tree.plain = p.tree.reread) : q.render = p.render := by
  have term : text q.tree.termPieces = text p.tree.termPieces := by
    rw [← Constraint.text_termPieces_map (f := Comparison.plain) (fun _ => rfl) q.tree]
    have same : q.tree.map Comparison.plain = p.tree.map Comparison.reread := tree
    rw [same, Constraint.text_termPieces_map]
    intro c
    rw [Comparison.chars, Comparison.chars, Comparison.reread, Literal.chars_reread]
  rw [render_eq, render_eq, pieces, pieces, path]
  simp [term]

theorem inRange_of_reading {registry : Registry} {subject : String} {limits : Limits}
    {a : ResolvedAccessor} {ps : List Piece} {d : Derivation .orExpression}
    (h : Clause.Reading registry subject limits a ps d) :
    ∀ c ∈ d.comparisons, c.literal.InRange := by
  intro c mem
  have word := d.literal_mem_words mem
  rw [h.derived] at word
  obtain ⟨piece, found, same⟩ := List.mem_filterMap.1 word
  cases piece with
  | blank _ => cases same
  | word token lexeme =>
    cases same
    obtain ⟨more, spelled⟩ := h.legible.exists_spelling found
    exact Literal.inRange_of_spelling spelled rfl

section

variable {registry : Registry} {subject : String} {limits : Limits} {p : Predicate}
  (properties : ∀ segment ∈ p.accessor.path.segments, IsProperty segment)
  (resolved : registry.resolve subject p.accessor.path = .ok p.accessor)
  (branching : p.tree.Branching) (range : ∀ c ∈ p.tree.comparisons, c.literal.InRange)
  (small : p.render.utf8ByteSize ≤ limits.maxClauseBytes)
  (shallow : p.tree.depth - 1 ≤ limits.maxNesting) (few : p.leafCount ≤ limits.maxComparisons)

include properties resolved branching range small shallow few

/-- The text of a predicate whose path resolves is accepted where it is not too large. -/
theorem exists_reading_of_resolve :
    ∃ d, Clause.Reading registry subject limits p.accessor p.pieces d ∧ d.tree = p.tree.reread := by
  obtain ⟨term, spelled, tree, height⟩ :=
    Constraint.exists_term (some (p.accessor.path.written, 0)) p.tree branching
  let whole : Derivation .orExpression := .or (.and term .andEnd) .orEnd
  have derived : whole.words = words p.pieces := by simp [whole, spelled, pieces]
  have clausePath : Token.clausePath (words p.pieces) = p.accessor.path :=
    AccessorPath.ofSegments_written properties
  refine ⟨whole, ⟨?_, ?_, derived, ?_, ?_, ?_, ?_⟩, tree⟩
  · refine ⟨⟨_, AccessorPath.spelling_render properties, stops_cons_iff.2 rfl⟩, rfl, ?_⟩
    have legible := @Constraint.legible_term p.tree range [] trivial (by simp [Ends])
    rwa [List.append_nil] at legible
  · rw [text_pieces, ← Text.utf8ByteSize_ofList, String.ofList_toList]
    exact small
  · rw [← derived, Derivation.parenDepth_words]
    simpa [whole, Derivation.height, height] using shallow
  · have same : whole.tree = p.tree.reread := tree
    have count : whole.comparisons.length = p.leafCount := by
      rw [← whole.comparisons_tree, same, leafCount, Constraint.comparisonCount_eq]
      exact (congrArg List.length (Constraint.comparisons_map _ p.tree)).trans (List.length_map _)
    rw [← derived, Derivation.operatorCount_words, count]
    exact few
  · rw [clausePath]
    exact resolved
  · have paths : Token.paths (words p.pieces) =
        .ofSegments p.accessor.path.written :: Token.paths (words p.tree.termPieces) := rfl
    rw [clausePath, paths, AccessorPath.ofSegments_written properties, Constraint.paths_termPieces]
    simp

/-- The text of a predicate whose comparisons have comparators compiles. -/
theorem exists_compile_render
    (resolves : ∀ c ∈ p.tree.comparisons, Comparator.Resolves p.accessor.valueType c) :
    ∃ q, compile registry subject limits p.render = .ok q ∧ q.accessor = p.accessor ∧
      q.tree.plain = p.tree.reread := by
  obtain ⟨d, reading, tree⟩ :=
    exists_reading_of_resolve properties resolved branching range small shallow few
  obtain ⟨⟨a, t⟩, parsed, rfl, root⟩ := reading.exists_parse
  rw [← render_eq] at parsed
  have same : t.plain = p.tree.reread := by
    rw [root, d.tree_plain, tree]
    exact p.tree.plain_reread
  obtain ⟨condition, bound⟩ :=
    Condition.exists_bind t (Constraint.resolves_of_plain_eq_reread same resolves)
  exact ⟨⟨p.render, p.accessor, t, condition⟩, compile_eq_ok_iff.2 ⟨parsed, bound, rfl⟩, rfl, same⟩

end

variable {config : Config} {subject source : String} {limits limits' : Limits} {p : Predicate}

/-- The text of a compiled predicate is accepted where it is not too large. -/
theorem exists_reading_pieces (valid : config.validate = .ok ())
    (h : compile config.registry subject limits source = .ok p)
    (small : p.render.utf8ByteSize ≤ limits'.maxClauseBytes)
    (shallow : p.tree.depth - 1 ≤ limits'.maxNesting)
    (few : p.leafCount ≤ limits'.maxComparisons) :
    ∃ d, Clause.Reading config.registry subject limits' p.accessor p.pieces d ∧
      d.tree = p.tree.reread := by
  obtain ⟨parsed, -, -⟩ := compile_eq_ok_iff.1 h
  obtain ⟨ps, d, reading, -, -, -, root⟩ := Clause.exists_reading_of_parse parsed
  have root : d.tree = p.tree := root
  have path := Clause.resolve_path reading.resolved
  have resolved := reading.resolved
  rw [← path] at resolved
  have branching : p.tree.Branching := by
    rw [← root]
    exact d.branching_tree
  have leaves := Derivation.comparisons_of_tree_eq root
  exact exists_reading_of_resolve (Registry.property_of_resolve valid resolved) resolved branching
    (leaves ▸ inRange_of_reading reading) small shallow few

/-- The text of a predicate is a normal form: it compiles again, for the same types and subject and
under any limits that are wide enough for it, to a predicate of the same path, tree and text, which
is true of the same facts. Equal literals may be held in another way: a decimal that is written
without fraction and power of ten is read as an integer if it fits a word. -/
theorem compile_render (valid : config.validate = .ok ())
    (h : compile config.registry subject limits source = .ok p)
    (small : p.render.utf8ByteSize ≤ limits'.maxClauseBytes)
    (shallow : p.tree.depth - 1 ≤ limits'.maxNesting)
    (few : p.leafCount ≤ limits'.maxComparisons) :
    ∃ q, compile config.registry subject limits' p.render = .ok q ∧
      q.accessor.path = p.accessor.path ∧ p.tree.Alike q.tree ∧
      (∀ fact, q.evaluate fact = p.evaluate fact) ∧ q.render = p.render := by
  obtain ⟨d, reading, tree⟩ := exists_reading_pieces valid h small shallow few
  obtain ⟨⟨a, t⟩, parsed, rfl, root⟩ := reading.exists_parse
  rw [← render_eq] at parsed
  have same : t.plain = p.tree.reread := by
    rw [root, d.tree_plain, tree]
    exact p.tree.plain_reread
  obtain ⟨-, bound, -⟩ := compile_eq_ok_iff.1 h
  obtain ⟨resolves, holds⟩ := Condition.holds_of_bind p.tree bound
  obtain ⟨condition, bound'⟩ :=
    Condition.exists_bind t (Constraint.resolves_of_plain_eq_reread same resolves)
  obtain ⟨-, holds'⟩ := Condition.holds_of_bind t bound'
  refine ⟨⟨p.render, p.accessor, t, condition⟩, compile_eq_ok_iff.2 ⟨parsed, bound', rfl⟩, rfl,
    Constraint.alike_of_plain_eq_reread _ _ same, ?_, render_eq_of_plain rfl same⟩
  intro fact
  rw [evaluate, evaluate, holds, holds']
  exact Constraint.value_of_plain_eq_reread same resolves _

theorem compile_render_thousand_or_two :
    ∃ p, compile ({} : Config).registry "Integer" {} "this == 1e3 || == 2" = .ok p ∧
      p.render = "this (== 1000 || == 2)" ∧
      ∃ q, compile ({} : Config).registry "Integer" {} p.render = .ok q ∧
        (∀ fact, q.evaluate fact = p.evaluate fact) ∧ q.render = p.render := by
  let tree := Constraint.chain .or [.leaf ⟨.eq, .decimal ⟨1, -3⟩, 5⟩, .leaf ⟨.eq, .integer 2, 15⟩]
  let condition := Condition.chain .or [.leaf ⟨.eq, .decimal ⟨1, -3⟩⟩, .leaf ⟨.eq, .integer 2⟩]
  let accessor : ResolvedAccessor := ⟨⟨[]⟩, "Integer", [], ⟨"Integer", .scalar .integer⟩⟩
  let p : Predicate := ⟨"this == 1e3 || == 2", accessor, tree, condition⟩
  have valid : ({} : Config).validate = .ok () := by cbv
  have compiled : compile ({} : Config).registry "Integer" {} "this == 1e3 || == 2" = .ok p := by cbv
  have text : p.render = "this (== 1000 || == 2)" := by cbv
  obtain ⟨q, again, -, -, evaluated, rendered⟩ :=
    @compile_render {} "Integer" "this == 1e3 || == 2" {} {} p valid compiled
      (by rw [text]; decide) (by decide) (by decide)
  exact ⟨p, compiled, text, q, again, evaluated, rendered⟩

end Predicate

end HalfBinary
