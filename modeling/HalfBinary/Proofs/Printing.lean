import Mathlib
import HalfBinary.Proofs.Pieces
import HalfBinary.Proofs.Rendering

/-!
# Rendered constraints

The text of a constraint in pieces (`text_pieces`). The pieces are legible (`legible_term`), and
their tokens have a derivation of the same tree but for literals that are read again
(`exists_term`).
-/

namespace HalfBinary

open Piece (Legible text words)

/-- What may follow a term: nothing, a space or a closing parenthesis. -/
def Ends (rest : List Char) : Prop := ∀ c ∈ rest.head?, c = ' ' ∨ c = ')'

theorem Token.Spelling.stops_of_ends {cs rest : List Char} {t : Token} {more : Char → Bool}
    (spelled : Spelling cs t more) (ends : Ends rest) : Stops more rest := by
  intro c head
  rcases ends c head with rfl | rfl
  · exact spelled.more_blank rfl
  · exact spelled.more_paren.2

/-! ### Pieces -/

/-- The comparison that the text of one is read as. -/
def Comparison.reread (c : Comparison) : Comparison := ⟨c.operator, c.literal.reread, 0⟩

def Comparison.pieces (c : Comparison) : List Piece :=
  [.word (.operator c.operator) c.operator.symbol.toList, .blank ' ',
    .word (.literal c.literal.reread) c.literal.chars]

/-- A connective between two spaces. -/
def Connective.pieces (k : Connective) : List Piece :=
  [.blank ' ', .word (.connective k) k.symbol.toList, .blank ' ']

def Piece.enclosed (ps : List Piece) : List Piece :=
  .word .openParen ['('] :: (ps ++ [.word .closeParen [')']])

namespace Constraint

mutual

/-- The pieces of a constraint, without parentheses around it. -/
def pieces : Constraint → List Piece
  | leaf c => c.pieces
  | chain connective parts => connective.pieces.intercalate (piecesOfParts parts)

/-- The pieces of each part of a chain; a chain among them stands in parentheses. -/
def piecesOfParts : List Constraint → List (List Piece)
  | [] => []
  | leaf c :: parts => c.pieces :: piecesOfParts parts
  | chain connective inner :: parts =>
    Piece.enclosed (pieces (chain connective inner)) :: piecesOfParts parts

end

/-- The pieces of a constraint as one term. -/
def termPieces : Constraint → List Piece
  | leaf c => c.pieces
  | chain connective parts => Piece.enclosed (chain connective parts).pieces

/-- The pieces of the parts of a chain after its first, each after a connective. -/
def otherPieces (connective : Connective) (parts : List Constraint) : List Piece :=
  parts.flatMap fun part => connective.pieces ++ part.termPieces

theorem piecesOfParts_eq (parts : List Constraint) : piecesOfParts parts = parts.map termPieces := by
  induction parts with
  | nil => rfl
  | cons part parts ih => cases part <;> rw [piecesOfParts, ih] <;> rfl

theorem pieces_chain_cons (connective : Connective) (first : Constraint)
    (others : List Constraint) :
    (chain connective (first :: others)).pieces =
      first.termPieces ++ otherPieces connective others := by
  rw [pieces, piecesOfParts_eq, List.map_cons, intercalate_cons, List.flatMap_map]
  rfl

theorem otherPieces_cons (connective : Connective) (part : Constraint) (parts : List Constraint) :
    otherPieces connective (part :: parts) =
      connective.pieces ++ (part.termPieces ++ otherPieces connective parts) := by
  rw [otherPieces, List.flatMap_cons, List.append_assoc]
  rfl

theorem text_enclosed (ps : List Piece) : text (Piece.enclosed ps) = '(' :: text ps ++ [')'] := by
  simp [Piece.enclosed]

theorem text_intercalate (separator : List Piece) (parts : List (List Piece)) :
    text (separator.intercalate parts) = (text separator).intercalate (parts.map text) := by
  cases parts with
  | nil => rfl
  | cons part parts =>
    rw [List.map_cons, intercalate_cons, intercalate_cons, Piece.text_append]
    induction parts with
    | nil => rfl
    | cons second parts ih =>
      simp only [List.map_cons, List.flatMap_cons, Piece.text_append, List.append_assoc] at ih ⊢
      rw [List.append_cancel_left_eq] at ih
      rw [ih]

mutual

/-- The pieces are those of the text. -/
theorem text_pieces : (t : Constraint) → text t.pieces = t.chars
  | leaf c => by simp [pieces, chars, Comparison.pieces, Comparison.chars]
  | chain connective parts => by
    rw [pieces, chars, text_intercalate, text_piecesOfParts parts]
    simp [Connective.pieces]

theorem text_piecesOfParts : (parts : List Constraint) →
    (piecesOfParts parts).map text = charsOfParts parts
  | [] => rfl
  | leaf c :: parts => by
    rw [piecesOfParts, charsOfParts, List.map_cons, text_piecesOfParts parts]
    simp [Comparison.pieces, Comparison.chars]
  | chain connective inner :: parts => by
    rw [piecesOfParts, charsOfParts, List.map_cons, text_piecesOfParts parts, text_enclosed,
      text_pieces (chain connective inner)]

end

theorem text_termPieces_leaf (c : Comparison) : text (leaf c).termPieces = c.chars :=
  text_pieces (leaf c)

theorem text_termPieces_chain (connective : Connective) (parts : List Constraint) :
    text (chain connective parts).termPieces = '(' :: (chain connective parts).chars ++ [')'] := by
  rw [termPieces, text_enclosed, text_pieces]

section

variable {f : Comparison → Comparison} (same : ∀ c, (f c).chars = c.chars)

include same

mutual

theorem chars_map : (t : Constraint) → (t.map f).chars = t.chars
  | leaf c => same c
  | chain connective parts => by rw [map, chars, chars, charsOfParts_mapAll parts]

theorem charsOfParts_mapAll : (parts : List Constraint) →
    charsOfParts (mapAll f parts) = charsOfParts parts
  | [] => rfl
  | leaf c :: parts => by
    rw [mapAll, map, charsOfParts, charsOfParts, same c, charsOfParts_mapAll parts]
  | chain connective inner :: parts => by
    rw [mapAll, map, charsOfParts, charsOfParts, ← map, chars_map (chain connective inner),
      charsOfParts_mapAll parts]

end

/-- The text of a term is that of its comparisons. -/
theorem text_termPieces_map (t : Constraint) : text (t.map f).termPieces = text t.termPieces := by
  cases t with
  | leaf c => rw [map, text_termPieces_leaf, text_termPieces_leaf, same]
  | chain connective parts =>
    rw [map, text_termPieces_chain, text_termPieces_chain, ← map, chars_map same]

end

/-! ### Legible text -/

theorem legible_comparison {c : Comparison} (range : c.literal.InRange) {rest : List Piece}
    (legible : Legible rest) (ends : Ends (text rest)) : Legible (c.pieces ++ rest) := by
  obtain ⟨more, spelled⟩ := Literal.spelling_chars range
  have operator := Token.Spelling.operator c.operator
  refine ⟨⟨_, operator, ?_⟩, rfl, ⟨more, spelled, spelled.stops_of_ends ends⟩, legible⟩
  exact operator.stops_of_ends (by simp [Ends])

theorem legible_enclosed {ps rest : List Piece} (legible : Legible rest)
    (inner : ∀ {rest : List Piece}, Legible rest → Ends (text rest) → Legible (ps ++ rest)) :
    Legible (Piece.enclosed ps ++ rest) := by
  have closed : Legible (.word .closeParen [')'] :: rest) :=
    ⟨⟨_, .closeParen, stops_false _⟩, legible⟩
  have split : Piece.enclosed ps ++ rest =
      .word .openParen ['('] :: (ps ++ .word .closeParen [')'] :: rest) := by simp [Piece.enclosed]
  rw [split]
  exact ⟨⟨_, .openParen, stops_false _⟩, inner closed (by simp [Ends])⟩

/-- A space is in front of the further parts of a chain. -/
theorem ends_otherPieces (connective : Connective) (parts : List Constraint) {rest : List Piece}
    (ends : Ends (text rest)) : Ends (text (otherPieces connective parts ++ rest)) := by
  cases parts with
  | nil => exact ends
  | cons part parts => simp [otherPieces_cons, Connective.pieces, Ends]

mutual

theorem legible_term : (t : Constraint) → (∀ c ∈ t.comparisons, c.literal.InRange) →
    {rest : List Piece} → Legible rest → Ends (text rest) → Legible (t.termPieces ++ rest)
  | leaf c, range, rest, legible, ends =>
    legible_comparison (range c List.mem_cons_self) legible ends
  | chain connective [], range, rest, legible, ends =>
    legible_enclosed legible fun legible _ => legible
  | chain connective (first :: others), range, rest, legible, ends => by
    refine legible_enclosed legible fun {rest} legible ends => ?_
    rw [pieces_chain_cons, List.append_assoc]
    refine legible_term first (fun c mem => range c (List.mem_append_left _ mem)) ?_
      (ends_otherPieces connective others ends)
    exact legible_otherPieces connective others
      (fun c mem => range c (List.mem_append_right _ mem)) legible ends

theorem legible_otherPieces (connective : Connective) : (parts : List Constraint) →
    (∀ c ∈ comparisonsAll parts, c.literal.InRange) → {rest : List Piece} → Legible rest →
      Ends (text rest) → Legible (otherPieces connective parts ++ rest)
  | [], range, rest, legible, ends => legible
  | part :: parts, range, rest, legible, ends => by
    rw [otherPieces_cons, List.append_assoc, List.append_assoc]
    refine ⟨rfl, ⟨_, .connective connective, stops_false _⟩, rfl, ?_⟩
    refine legible_term part (fun c mem => range c (List.mem_append_left _ mem)) ?_
      (ends_otherPieces connective parts ends)
    exact legible_otherPieces connective parts
      (fun c mem => range c (List.mem_append_right _ mem)) legible ends

end

/-! ### Derivations -/

/-- The tree that the text of a constraint stands for. -/
def reread (t : Constraint) : Constraint := t.map Comparison.reread

theorem words_enclosed (ps : List Piece) :
    words (Piece.enclosed ps) = .openParen :: (words ps ++ [.closeParen]) := by
  simp [Piece.enclosed]

theorem words_otherPieces_cons (connective : Connective) (part : Constraint)
    (parts : List Constraint) :
    words (otherPieces connective (part :: parts)) =
      .connective connective :: (words part.termPieces ++ words (otherPieces connective parts)) := by
  simp [otherPieces_cons, Connective.pieces]

theorem one_le_depth (t : Constraint) : 1 ≤ t.depth := by
  cases t with
  | leaf c => exact Nat.le_refl 1
  | chain connective parts => exact Nat.le_add_right 1 _

mutual

/-- No accessor is in the text of a constraint. -/
theorem paths_termPieces : (t : Constraint) → Token.paths (words t.termPieces) = []
  | leaf c => rfl
  | chain connective [] => rfl
  | chain connective (first :: others) => by
    rw [termPieces, words_enclosed, pieces_chain_cons, Piece.words_append, Token.paths_cons rfl,
      Token.paths_append, Token.paths_append, paths_termPieces first,
      paths_otherPieces connective others]
    rfl

theorem paths_otherPieces (connective : Connective) : (parts : List Constraint) →
    Token.paths (words (otherPieces connective parts)) = []
  | [] => rfl
  | part :: parts => by
    rw [words_otherPieces_cons, Token.paths_cons rfl, Token.paths_append, paths_termPieces part,
      paths_otherPieces connective parts]
    rfl

end

mutual

/-- The text of a constraint derives from a term whose groups are the chains around comparisons. -/
theorem exists_term (lead : Lead) : (t : Constraint) → t.Branching →
    ∃ d : Derivation .term, d.words = lead.words ++ words t.termPieces ∧ d.tree = t.reread ∧
      d.height = t.depth - 1
  | leaf c, _ =>
    ⟨.comparison lead c.operator 0 c.literal.reread 0, by simp [termPieces, Comparison.pieces], rfl,
      rfl⟩
  | chain .or [], ⟨two, _⟩ | chain .and [], ⟨two, _⟩ => by simp at two
  | chain .or (first :: others), ⟨two, branching, branchings⟩ => by
    obtain ⟨d, spelled, tree, height⟩ := exists_term none first branching
    obtain ⟨ds, spelleds, trees, heights⟩ := exists_orOthers others branchings
    have deep := first.one_le_depth
    -- The parentheses around the chain are the one level that its parts do not have.
    refine ⟨.group lead 0 (.or (.and d .andEnd) ds) 0, ?_, ?_, ?_⟩
    · simp [termPieces, words_enclosed, pieces_chain_cons, spelled, spelleds]
    · refine Eq.trans ?_ (join_of_two_le .or (by rw [length_mapAll]; exact two))
      rw [Derivation.tree, Derivation.tree, Derivation.tree, trees, tree]
      rfl
    · simp only [Derivation.height, height, heights, depth, depthAll]
      omega
  | chain .and (first :: others), ⟨two, branching, branchings⟩ => by
    obtain ⟨d, spelled, tree, height⟩ := exists_term none first branching
    obtain ⟨ds, spelleds, trees, heights⟩ := exists_andOthers others branchings
    have deep := first.one_le_depth
    refine ⟨.group lead 0 (.or (.and d ds) .orEnd) 0, ?_, ?_, ?_⟩
    · simp [termPieces, words_enclosed, pieces_chain_cons, spelled, spelleds]
    · refine Eq.trans ?_ (join_of_two_le .and (by rw [length_mapAll]; exact two))
      rw [Derivation.tree, Derivation.tree, Derivation.tree, join, Derivation.tree, trees, tree]
      rfl
    · simp only [Derivation.height, height, heights, depth, depthAll]
      omega

theorem exists_orOthers : (parts : List Constraint) → AllBranching parts →
    ∃ d : Derivation .orOthers, d.words = words (otherPieces .or parts) ∧
      d.tree = mapAll Comparison.reread parts ∧ d.height = depthAll parts - 1
  | [], _ => ⟨.orEnd, rfl, rfl, rfl⟩
  | part :: parts, ⟨branching, branchings⟩ => by
    obtain ⟨d, spelled, tree, height⟩ := exists_term none part branching
    obtain ⟨ds, spelleds, trees, heights⟩ := exists_orOthers parts branchings
    refine ⟨.orMore 0 (.and d .andEnd) ds, ?_, ?_, ?_⟩
    · simp [words_otherPieces_cons, spelled, spelleds]
    · rw [Derivation.tree, Derivation.tree, trees, tree]
      rfl
    · simp only [Derivation.height, height, heights, depthAll]
      omega

theorem exists_andOthers : (parts : List Constraint) → AllBranching parts →
    ∃ d : Derivation .andOthers, d.words = words (otherPieces .and parts) ∧
      d.tree = mapAll Comparison.reread parts ∧ d.height = depthAll parts - 1
  | [], _ => ⟨.andEnd, rfl, rfl, rfl⟩
  | part :: parts, ⟨branching, branchings⟩ => by
    obtain ⟨d, spelled, tree, height⟩ := exists_term none part branching
    obtain ⟨ds, spelleds, trees, heights⟩ := exists_andOthers parts branchings
    refine ⟨.andMore 0 d ds, ?_, ?_, ?_⟩
    · simp [words_otherPieces_cons, spelled, spelleds]
    · rw [Derivation.tree, trees, tree]
      rfl
    · simp only [Derivation.height, height, heights, depthAll]
      omega

end

end Constraint

end HalfBinary
