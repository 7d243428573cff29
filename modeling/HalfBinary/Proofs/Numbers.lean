import Mathlib
import HalfBinary.Proofs.Edits
import HalfBinary.Proofs.Meaning
import HalfBinary.Proofs.NormalForm
import HalfBinary.Proofs.Shortest

/-!
# Comparing with written numbers

A numeral of any length is read as the number that it denotes, and a comparison with it is one of
rational numbers, however the numeral is written and the value is held (`evaluate_comparison`).
-/

namespace HalfBinary

/-! ### The number of a numeral -/

namespace Numeral

/-- The number that a numeral denotes: its whole part and its fraction, times its power of ten. -/
def toRat (n : Numeral) : ℚ :=
  (if n.negative then -1 else 1) *
    (Nat.ofDigitChars 10 n.whole 0 + Nat.ofDigitChars 10 n.fraction 0 / 10 ^ n.fraction.length) *
      10 ^ n.power

theorem ofDigitChars_append (ds fs : List Char) :
    (Nat.ofDigitChars 10 (ds ++ fs) 0 : ℚ) =
      (Nat.ofDigitChars 10 ds 0 + Nat.ofDigitChars 10 fs 0 / 10 ^ fs.length) * 10 ^ fs.length := by
  have power : (10 : ℚ) ^ fs.length ≠ 0 := pow_ne_zero _ (by norm_num)
  rw [Nat.ofDigitChars_append, Nat.ofDigitChars_eq_ofDigitChars_zero, add_mul,
    div_mul_cancel₀ _ power]
  push_cast
  ring

/-- All digits, with the point put back by the scale. -/
theorem toRat_eq (n : Numeral) : n.toRat = n.digits * 10 ^ (-n.scale) := by
  have sign : (n.digits : ℚ) =
      (if n.negative then -1 else 1) * Nat.ofDigitChars 10 (n.whole ++ n.fraction) 0 := by
    rw [digits]
    split <;> simp
  have places : -n.scale = n.power - n.fraction.length := by rw [scale]; omega
  have ten : (10 : ℚ) ≠ 0 := by norm_num
  rw [sign, ofDigitChars_append, places, zpow_sub₀ ten, zpow_natCast, toRat]
  field_simp

theorem toRat_of_isWhole {n : Numeral} (whole : n.isWhole = true) : n.toRat = n.digits := by
  simp only [isWhole, Bool.and_eq_true, List.isEmpty_iff, Option.isNone_iff_eq_none] at whole
  have scale : n.scale = 0 := by simp [scale, power, whole]
  rw [toRat_eq, scale, neg_zero, zpow_zero, mul_one]

end Numeral

/-- A decimal stands for the number of the numeral that it was read from. -/
theorem Decimal.toRat_of_ofNumeral? {n : Numeral} {d : Decimal} (read : ofNumeral? n = some d) :
    d.toRat = n.toRat := by
  unfold ofNumeral? at read
  split at read
  · cases read
    exact n.toRat_eq.symm
  · cases read

namespace Literal

variable {n : Numeral} {l : Literal}

theorem toRat?_of_ofNumeral? (read : ofNumeral? n = some l) : l.toRat? = some n.toRat := by
  unfold ofNumeral? at read
  split at read
  · next word =>
    cases read
    rw [toRat?, Numeral.toRat_of_isWhole word.1]
  · obtain ⟨d, decimal, rfl⟩ := Option.map_eq_some_iff.1 read
    rw [toRat?, Decimal.toRat_of_ofNumeral? decimal]

/-- A numeral is held as an integer if it is whole and fits a signed word, else as a decimal. -/
theorem exists_integer_iff_of_ofNumeral? (read : ofNumeral? n = some l) :
    (∃ v, l = .integer v) ↔ n.isWhole = true ∧ -2 ^ 63 ≤ n.toRat ∧ n.toRat < 2 ^ 63 := by
  have word (whole : n.isWhole = true) : (-2 ^ 63 ≤ n.toRat ∧ n.toRat < 2 ^ 63) ↔
      -0x8000000000000000 ≤ n.digits ∧ n.digits < 0x8000000000000000 := by
    rw [Numeral.toRat_of_isWhole whole]
    norm_cast
  unfold ofNumeral? at read
  split at read
  · next fits =>
    cases read
    exact ⟨fun _ => ⟨fits.1, (word fits.1).2 fits.2⟩, fun _ => ⟨_, rfl⟩⟩
  · next other =>
    obtain ⟨d, -, rfl⟩ := Option.map_eq_some_iff.1 read
    constructor
    · rintro ⟨v, ⟨⟩⟩
    · rintro ⟨whole, range⟩
      exact (other ⟨whole, (word whole).1 range⟩).elim

end Literal

/-! ### The literal of a numeral -/

namespace Token

open Piece (located text words Legible)

/-- A numeral that is lexed is one literal of its number. -/
theorem exists_literal_of_ofClause {n : Numeral} {s : String} {stream : TokenStream}
    (spelled : n.Spelling s.toList) (lexed : ofClause s = .ok stream) :
    ∃ l, Literal.ofNumeral? n = some l ∧ stream.words = [.literal l] := by
  rcases read : Literal.ofNumeral? n with _ | l
  · -- The lexer would have refused the numeral.
    obtain ⟨c, tail, chars, other, start⟩ := number_start spelled []
    obtain ⟨scanned, -⟩ := ofClause_eq_ok_iff_scanAll.1 lexed
    have blank : isBlank c = false := by
      rw [Bool.eq_false_iff]
      intro blank
      simp only [isBlank, Bool.or_eq_true, beq_iff_eq] at blank
      rcases blank with ((rfl | rfl) | rfl) | rfl <;> simp at start
    rw [List.append_nil] at start
    have scan : Numeral.scan (c :: tail) = .ok ⟨n, c :: tail, []⟩ := by
      have complete := Numeral.scan_complete spelled (.nil n.more)
      rwa [List.append_nil, chars] at complete
    have refused : ∃ fault, scanToken c tail = .error fault := by
      rw [scanToken_of_not_mark other, if_pos start, scanNumber, scan]
      simp only [read]
      exact ⟨_, rfl⟩
    obtain ⟨fault, refused⟩ := refused
    rw [chars, scanAll, if_neg (by simp [blank])] at scanned
    split at scanned
    · cases scanned
    · next s' token => cases token.symm.trans refused
  · cases (ofClause_of_spelling (.number spelled read)).symm.trans lexed
    exact ⟨l, rfl, rfl⟩

end Token

/-! ### One comparison -/

namespace Clause

open Piece (located text words Legible)

variable {registry : Registry} {subject : String} {limits : Limits} {d : TypeDescriptor}
  {op : Operator} {s : String} {l : Literal}

/-- The text of a comparison of the fact itself. -/
def ofComparison (op : Operator) (s : String) : String := "this " ++ op.symbol ++ " " ++ s

/-- The pieces of a comparison of the fact itself. -/
def comparisonPieces (op : Operator) (l : Literal) (lexeme : List Char) : List Piece :=
  [.word (.accessor [AccessorPath.self]) AccessorPath.self.toList, .blank ' ',
    .word (.operator op) op.symbol.toList, .blank ' ', .word (.literal l) lexeme]

def comparisonDerivation (op : Operator) (l : Literal) : Derivation .orExpression :=
  .or (.and (.comparison (some ([AccessorPath.self], 0)) op 0 l 0) .andEnd) .orEnd

theorem words_comparisonDerivation (op : Operator) (l : Literal) (lexeme : List Char) :
    (comparisonDerivation op l).words = words (comparisonPieces op l lexeme) := rfl

theorem text_comparisonPieces (op : Operator) (l : Literal) (s : String) :
    text (comparisonPieces op l s.toList) = (ofComparison op s).toList := by
  simp [text, comparisonPieces, Piece.chars, ofComparison, AccessorPath.self]

theorem legible_comparisonPieces {more : Char → Bool}
    (spelled : Token.Spelling s.toList (.literal l) more) :
    Legible (comparisonPieces op l s.toList) := by
  refine ⟨⟨Token.continuesWord, ?_, stops_cons_iff.2 rfl⟩, rfl, ⟨_, .operator op, ?_⟩, rfl,
    ⟨more, spelled, .nil more⟩, trivial⟩
  · exact @Token.Spelling.word AccessorPath.self.toList [] rfl (List.forall_mem_nil _)
  · exact stops_cons_iff.2 ((Token.Spelling.operator op).more_blank rfl)

theorem lex_comparison {more : Char → Bool}
    (spelled : Token.Spelling s.toList (.literal l) more) :
    Token.ofClause (ofComparison op s) =
      .ok ⟨located 0 (comparisonPieces op l s.toList), (ofComparison op s).utf8ByteSize⟩ :=
  Token.ofClause_eq_ok_iff.2 ⟨_, legible_comparisonPieces spelled, text_comparisonPieces op l s,
    List.cons_ne_nil _ _, rfl⟩

theorem resolve_self (found : registry.get? subject = some d) :
    registry.resolve subject ⟨[]⟩ = .ok ⟨⟨[]⟩, subject, [], d⟩ := by
  rw [Registry.resolve, Registry.get_eq_ok_iff.2 found]
  rfl

/-- A comparison of the fact itself is accepted where it is not too large. -/
theorem exists_parse_comparison {more : Char → Bool}
    (spelled : Token.Spelling s.toList (.literal l) more)
    (found : registry.get? subject = some d)
    (small : (ofComparison op s).utf8ByteSize ≤ limits.maxClauseBytes)
    (few : 1 ≤ limits.maxComparisons) :
    ∃ c, parse registry subject limits (ofComparison op s) = .ok c := by
  have reading : Reading registry subject limits ⟨⟨[]⟩, subject, [], d⟩
      (comparisonPieces op l s.toList) (comparisonDerivation op l) := by
    refine ⟨legible_comparisonPieces spelled, ?_, words_comparisonDerivation op l _, Nat.zero_le _,
      few, resolve_self found, ?_⟩
    · rw [text_comparisonPieces, ← Text.utf8ByteSize_ofList, String.ofList_toList]
      exact small
    · simp [words, comparisonPieces, Piece.token?, Token.paths, Token.path?, Token.clausePath]
  obtain ⟨c, parsed, -⟩ := reading.exists_parse
  rw [text_comparisonPieces, String.ofList_toList] at parsed
  exact ⟨c, parsed⟩

/-- The only clause that a comparison of the fact itself is read as. -/
theorem parse_comparison {more : Char → Bool} {c : Clause}
    (spelled : Token.Spelling s.toList (.literal l) more)
    (found : registry.get? subject = some d)
    (h : parse registry subject limits (ofComparison op s) = .ok c) :
    c.accessor = ⟨⟨[]⟩, subject, [], d⟩ ∧ ∃ offset, c.root = .leaf ⟨op, l, offset⟩ := by
  obtain ⟨ps, d', reading, -, lexed, -, root⟩ := exists_reading_of_parse h
  have streams := Except.ok.inj (lexed.symm.trans (lex_comparison spelled))
  have same : words ps = words (comparisonPieces op l s.toList) := by
    rw [← Piece.map_token_located 0 ps, ← Piece.map_token_located 0 (comparisonPieces op l s.toList)]
    exact congrArg TokenStream.words streams
  constructor
  · have resolved := reading.resolved
    rw [same] at resolved
    exact Except.ok.inj (resolved.symm.trans (resolve_self found))
  · -- Equal words have one derivation, up to positions, and so one tree.
    have plain : d'.plain = (comparisonDerivation op l).plain := by
      refine Derivation.plain_eq_of_words_eq ?_
      rw [reading.derived, same]
      rfl
    have tree := congrArg Derivation.tree plain
    rw [Derivation.tree_plain, Derivation.tree_plain, root] at tree
    have leaf : c.root.plain = .leaf ⟨op, l, 0⟩ := tree
    rcases shape : c.root with ⟨op', l', offset⟩ | ⟨connective, parts⟩
    · rw [shape] at leaf
      cases leaf
      exact ⟨offset, rfl⟩
    · rw [shape] at leaf
      cases leaf

end Clause

/-! ### Comparisons of numbers -/

/-- What an operator asks of two numbers. -/
def Operator.Relates : Operator → ℚ → ℚ → Prop
  | eq, a, b => a = b
  | ne, a, b => a ≠ b
  | lt, a, b => a < b
  | le, a, b => a ≤ b
  | gt, a, b => b < a
  | ge, a, b => b ≤ a

theorem Operator.accepts_compare_iff {op : Operator} {a b : ℚ} :
    op.accepts (compare a b) = true ↔ op.Relates a b := by
  rcases lt_trichotomy a b with less | same | greater
  · rw [compare_lt_iff_lt.2 less]
    cases op <;> simp [accepts, Relates, less, less.le, less.ne]
  · rw [compare_eq_iff_eq.2 same]
    cases op <;> simp [accepts, Relates, same]
  · rw [compare_gt_iff_gt.2 greater]
    cases op <;> simp [accepts, Relates, greater, greater.le, greater.ne']

theorem Operator.holdsOf_number_iff {op : Operator} {q : ℚ} {x : Number} :
    op.holdsOf q (.number x) = true ↔ op.Relates x.toRat q :=
  accepts_compare_iff

namespace Predicate

variable {registry : Registry} {subject : String} {d : TypeDescriptor} {limits : Limits}
  {op : Operator} {s : String} {n : Numeral} {l : Literal}

/-- A comparison of the fact itself says of a fact what its comparator does. -/
theorem test_of_compile_comparison {more : Char → Bool} (found : registry.get? subject = some d)
    (spelled : Token.Spelling s.toList (.literal l) more) {p : Predicate}
    (h : compile registry subject limits (Clause.ofComparison op s) = .ok p) :
    ∃ offset k, Comparator.resolve d ⟨op, l, offset⟩ = .ok k ∧
      ∀ fact, p.evaluate fact = k.test fact := by
  obtain ⟨parsed, bound, -⟩ := compile_eq_ok_iff.1 h
  obtain ⟨accessor, offset, root⟩ := Clause.parse_comparison spelled found parsed
  dsimp only at accessor root
  obtain ⟨resolves, holds⟩ := Condition.holds_of_bind p.tree bound
  rw [root, accessor] at resolves
  obtain ⟨k, resolved⟩ := resolves ⟨op, l, offset⟩ List.mem_cons_self
  refine ⟨offset, k, resolved, fun fact => ?_⟩
  have self : p.accessor.read fact = fact := by rw [accessor]; rfl
  rw [evaluate, holds, self, root, accessor, Constraint.value, Comparator.meaning, resolved]

theorem exists_compile_of_resolves {more : Char → Bool} (found : registry.get? subject = some d)
    (spelled : Token.Spelling s.toList (.literal l) more)
    (resolves : ∀ offset, Comparator.Resolves d ⟨op, l, offset⟩)
    (small : (Clause.ofComparison op s).utf8ByteSize ≤ limits.maxClauseBytes)
    (few : 1 ≤ limits.maxComparisons) :
    ∃ p, compile registry subject limits (Clause.ofComparison op s) = .ok p := by
  obtain ⟨c, parsed⟩ := Clause.exists_parse_comparison spelled found small few
  obtain ⟨accessor, offset, root⟩ := Clause.parse_comparison spelled found parsed
  have resolves : ∀ c' ∈ c.root.comparisons, Comparator.Resolves c.accessor.valueType c' := by
    intro c' mem
    rw [root] at mem
    obtain rfl := List.mem_singleton.1 mem
    rw [accessor]
    exact resolves offset
  obtain ⟨condition, bound⟩ := Condition.exists_bind c.root resolves
  exact ⟨⟨_, c.accessor, c.root, condition⟩, compile_eq_ok_iff.2 ⟨parsed, bound, rfl⟩⟩

/-- What a comparison with a numeral says of a fact depends on the number alone. -/
theorem evaluate_of_compile_comparison (found : registry.get? subject = some d)
    (spelled : n.Spelling s.toList) (read : Literal.ofNumeral? n = some l) {p : Predicate}
    (h : compile registry subject limits (Clause.ofComparison op s) = .ok p) (fact : Json) :
    p.evaluate fact = op.holdsOf n.toRat fact := by
  obtain ⟨_, k, resolved, tests⟩ := test_of_compile_comparison found (.number spelled read) h
  rw [tests, Comparator.test_number (Literal.toRat?_of_ofNumeral? read) resolved]

theorem exists_compile_comparison {kind : ScalarKind} (found : registry.get? subject = some d)
    (scalar : d.scalarKind? = some kind) (numeric : kind.isNumeric = true)
    (spelled : n.Spelling s.toList) (read : Literal.ofNumeral? n = some l)
    (small : (Clause.ofComparison op s).utf8ByteSize ≤ limits.maxClauseBytes)
    (few : 1 ≤ limits.maxComparisons) :
    ∃ p, compile registry subject limits (Clause.ofComparison op s) = .ok p := by
  refine exists_compile_of_resolves found (.number spelled read) (fun offset => ?_) small few
  rw [Comparator.resolves_number_iff (Literal.toRat?_of_ofNumeral? read), scalar]
  exact .inl numeric

/-- A comparison with a numeral is a comparison with the number that the numeral denotes, in exact
arithmetic. The numeral is kept as an integer if it is whole and fits a word and as a decimal
otherwise; a fact's number is a whole number, or a double for the shortest decimal that rounds to
it. Another way to write the same number gives a comparison that is true of the same facts. -/
theorem evaluate_comparison {kind : ScalarKind} (found : registry.get? subject = some d)
    (scalar : d.scalarKind? = some kind) (numeric : kind.isNumeric = true) {stream : TokenStream}
    (spelled : n.Spelling s.toList) (lexed : Token.ofClause s = .ok stream)
    (small : (Clause.ofComparison op s).utf8ByteSize ≤ limits.maxClauseBytes)
    (few : 1 ≤ limits.maxComparisons) :
    (∃ l, stream.words = [.literal l] ∧ l.toRat? = some n.toRat ∧ l.isNumeric = true ∧
      ((∃ v, l = .integer v) ↔ n.isWhole = true ∧ -2 ^ 63 ≤ n.toRat ∧ n.toRat < 2 ^ 63)) ∧
    ∃ p, compile registry subject limits (Clause.ofComparison op s) = .ok p ∧
      (∀ v : Int, p.evaluate (.number (.whole v)) = true ↔ op.Relates v n.toRat) ∧
      (∀ x : Binary64, (p.evaluate (.number (.double x)) = true ↔
        op.Relates x.shortest.toRat n.toRat) ∧ (x.Canonical → x.IsShortest x.shortest)) ∧
      ∀ (s' : String) (n' : Numeral) (stream' : TokenStream) (limits' : Limits) (p' : Predicate),
        n'.Spelling s'.toList → Token.ofClause s' = .ok stream' → n'.toRat = n.toRat →
          compile registry subject limits' (Clause.ofComparison op s') = .ok p' →
            ∀ fact, p'.evaluate fact = p.evaluate fact := by
  obtain ⟨l, read, word⟩ := Token.exists_literal_of_ofClause spelled lexed
  have number := Literal.toRat?_of_ofNumeral? read
  obtain ⟨p, compiled⟩ := @exists_compile_comparison _ _ _ _ op _ _ _ _ found scalar numeric spelled
    read small few
  have evaluates := evaluate_of_compile_comparison found spelled read compiled
  refine ⟨⟨l, word, number, ?_, Literal.exists_integer_iff_of_ofNumeral? read⟩, p, compiled, ?_, ?_,
    ?_⟩
  · cases l with
    | integer _ | decimal _ => rfl
    | null | boolean _ | text _ => cases number
  · intro v
    rw [evaluates, Operator.holdsOf_number_iff]
    have value : (Number.whole v).toRat = v := Decimal.toRat_ofInt v
    rw [value]
  · intro x
    refine ⟨?_, Binary64.isShortest_shortest⟩
    rw [evaluates, Operator.holdsOf_number_iff]
    rfl
  · intro s' n' stream' limits' p' spelled' lexed' same compiled' fact
    obtain ⟨l', read', -⟩ := Token.exists_literal_of_ofClause spelled' lexed'
    rw [evaluates, evaluate_of_compile_comparison found spelled' read' compiled', same]

theorem evaluate_comparison_fifty_tenths :
    ∃ p, compile .builtin "Integer" {} (Clause.ofComparison .ge "50e-1") = .ok p ∧
      p.evaluate (.number (.whole 5)) = true ∧
      ∃ p', compile .builtin "Integer" {} (Clause.ofComparison .ge "5.0") = .ok p' ∧
        ∀ fact, p'.evaluate fact = p.evaluate fact := by
  let fifty : Numeral := ⟨false, ['5', '0'], [], some (true, ['1'])⟩
  let five : Numeral := ⟨false, ['5'], ['0'], none⟩
  have spelled : fifty.Spelling "50e-1".toList := by
    refine ⟨⟨by simp [fifty], by simp [fifty]⟩, .inl rfl, "e-1".toList, ?_, rfl⟩
    exact @Numeral.PowerSpelling.written 'e' ['-'] ['1'] (.inl rfl) (.inr (.inr rfl))
      ⟨by simp, by simp⟩
  have spelled' : five.Spelling "5.0".toList :=
    ⟨⟨by simp [five], by simp [five]⟩, .inr ⟨by simp [five], by simp [five]⟩, [], .absent, rfl⟩
  have lexed : Token.ofClause "50e-1" = .ok ⟨[⟨.literal (.decimal ⟨50, 1⟩), 0⟩], 5⟩ := by cbv
  have lexed' : Token.ofClause "5.0" = .ok ⟨[⟨.literal (.decimal ⟨50, 1⟩), 0⟩], 3⟩ := by cbv
  have integer : Registry.builtin.get? "Integer" = some ⟨"Integer", .scalar .integer⟩ := rfl
  have value : fifty.toRat = 5 := by
    have digits : fifty.digits = 50 := rfl
    have scale : fifty.scale = 1 := rfl
    rw [Numeral.toRat_eq, digits, scale]
    norm_num
  have value' : five.toRat = 5 := by
    have digits : five.digits = 50 := rfl
    have scale : five.scale = 1 := rfl
    rw [Numeral.toRat_eq, digits, scale]
    norm_num
  have small : (Clause.ofComparison .ge "50e-1").utf8ByteSize ≤ ({} : Limits).maxClauseBytes := by decide
  have small' : (Clause.ofComparison .ge "5.0").utf8ByteSize ≤ ({} : Limits).maxClauseBytes := by decide
  obtain ⟨-, p, compiled, whole, -, agrees⟩ :=
    evaluate_comparison integer rfl rfl spelled lexed small (by decide)
  obtain ⟨-, p', compiled', -⟩ :=
    evaluate_comparison integer rfl rfl spelled' lexed' small' (by decide)
  refine ⟨p, compiled, (whole 5).2 (by rw [value]; exact le_refl _), p', compiled', ?_⟩
  exact agrees "5.0" five _ {} p' spelled' lexed' (value'.trans value.symm) compiled'

end Predicate

end HalfBinary
