import HalfBinary.Proofs.Pieces

/-!
# The segments of a clause

A clause that is lexed consists of lexemes with blanks around them. Each token is read from its
lexeme alone, starts where it starts, and no longer lexeme stands there (`ofClause_segmented`).
-/

namespace HalfBinary

open Text (inIdentifier isIdentifier)
open Token (Spelling isBlank)

/-! ### The longest text of a kind -/

/-- No longer text of a kind stands where some characters are, and none starts with these and the
next character, whatever it goes on with. -/
structure Longest (kind : List Char → Prop) (cs rest : List Char) : Prop where
  longest : ∀ ds, kind ds → ds <+: cs ++ rest → ds.length ≤ cs.length
  closed : ∀ c ∈ rest.head?, ∀ tail, ¬ kind (cs ++ c :: tail)

theorem exists_cons_of_longer {cs ds rest : List Char} (here : ds <+: cs ++ rest)
    (longer : cs.length < ds.length) : ∃ c tail, c ∈ rest.head? ∧ ds = cs ++ c :: tail := by
  obtain ⟨more, rfl⟩ := List.prefix_of_prefix_length_le (List.prefix_append cs rest) here longer.le
  cases more with
  | nil => simp at longer
  | cons c tail =>
    obtain ⟨later, rfl⟩ := (List.prefix_append_right_inj cs).1 here
    exact ⟨c, tail, rfl, rfl⟩

theorem longest_iff {kind : List Char → Prop} {cs rest : List Char} :
    Longest kind cs rest ↔ ∀ c ∈ rest.head?, ∀ tail, ¬ kind (cs ++ c :: tail) := by
  refine ⟨Longest.closed, fun closed => ⟨fun ds valid here => ?_, closed⟩⟩
  by_contra longer
  obtain ⟨c, tail, next, rfl⟩ := exists_cons_of_longer here (Nat.lt_of_not_le longer)
  exact closed c next tail valid

/-- A text is the longest of its kind if it ends where no character goes on with it. -/
theorem longest_iff_stops {kind : List Char → Prop} {cs rest : List Char} {more : Char → Bool}
    (extends_iff : ∀ c, more c = true ↔ ∃ tail, kind (cs ++ c :: tail)) :
    Longest kind cs rest ↔ Stops more rest := by
  rw [longest_iff, Stops]
  refine forall₂_congr fun c next => ?_
  rw [← Bool.not_eq_true, extends_iff, not_exists]

/-! ### Words -/

/-- Identifiers joined by single points. -/
def IsPath (segments : List String) (cs : List Char) : Prop :=
  segments ≠ [] ∧ (∀ s ∈ segments, isIdentifier s.toList = true) ∧
    cs = (".".intercalate segments).toList

def IsWord (cs : List Char) : Prop := ∃ segments, IsPath segments cs

theorem isPath_cons {first : List Char} {others : List (List Char)}
    (start : isIdentifier first = true) (identifiers : ∀ o ∈ others, isIdentifier o = true) :
    IsPath (String.ofList first :: others.map String.ofList)
      (first ++ Token.pointed others) := by
  refine ⟨List.cons_ne_nil _ _, List.forall_mem_cons.2 ⟨?_, fun s mem => ?_⟩, ?_⟩
  · rwa [String.toList_ofList]
  · obtain ⟨o, among, rfl⟩ := List.mem_map.1 mem
    rw [String.toList_ofList]
    exact identifiers o among
  · rw [Token.toList_intercalate_point]
    simp [Function.comp_def]

theorem IsPath.exists_eq {segments : List String} {cs : List Char} (path : IsPath segments cs) :
    ∃ first others, isIdentifier first = true ∧ (∀ o ∈ others, isIdentifier o = true) ∧
      cs = first ++ Token.pointed others ∧
      segments = String.ofList first :: others.map String.ofList := by
  obtain ⟨some, identifiers, rfl⟩ := path
  cases segments with
  | nil => exact absurd rfl some
  | cons first others =>
    obtain ⟨start, identifiers⟩ := List.forall_mem_cons.1 identifiers
    refine ⟨first.toList, others.map String.toList, start, ?_,
      Token.toList_intercalate_point first others, ?_⟩
    · simpa using identifiers
    · simp [Function.comp_def]

theorem IsPath.spelling {segments : List String} {cs : List Char} (path : IsPath segments cs) :
    Spelling cs (Token.ofWord segments) Token.continuesWord := by
  obtain ⟨first, others, start, identifiers, rfl, rfl⟩ := path.exists_eq
  exact .word start identifiers

theorem isIdentifier_concat {cs : List Char} {c : Char} (identifier : isIdentifier cs = true)
    (inside : inIdentifier c = true) : isIdentifier (cs ++ [c]) = true := by
  cases cs with
  | nil => cases identifier
  | cons d ds =>
    rw [isIdentifier, Bool.and_eq_true] at identifier
    simp [isIdentifier, identifier.1, identifier.2, inside]

/-- A character goes on with a word exactly if some longer word starts with both. -/
theorem IsWord.continues_iff {cs : List Char} (word : IsWord cs) (c : Char) :
    Token.continuesWord c = true ↔ ∃ tail, IsWord (cs ++ c :: tail) := by
  obtain ⟨segments, path⟩ := word
  obtain ⟨first, others, start, identifiers, rfl, rfl⟩ := path.exists_eq
  constructor
  · intro continues
    simp only [Token.continuesWord, Bool.or_eq_true, beq_iff_eq] at continues
    rcases continues with inside | rfl
    · rcases List.eq_nil_or_concat' others with rfl | ⟨init, last, rfl⟩
      · have longer : IsWord (first ++ [c] ++ Token.pointed []) :=
          ⟨_, isPath_cons (isIdentifier_concat start inside) (List.forall_mem_nil _)⟩
        exact ⟨[], by simpa [Token.pointed] using longer⟩
      · rw [List.forall_mem_append, List.forall_mem_singleton] at identifiers
        have longer : ∀ o ∈ init ++ [last ++ [c]], isIdentifier o = true :=
          List.forall_mem_append.2 ⟨identifiers.1, List.forall_mem_singleton.2
            (isIdentifier_concat identifiers.2 inside)⟩
        have word : IsWord (first ++ Token.pointed (init ++ [last ++ [c]])) :=
          ⟨_, isPath_cons start longer⟩
        exact ⟨[], by simpa [Token.pointed] using word⟩
    · have longer : ∀ o ∈ others ++ [['a']], isIdentifier o = true :=
        List.forall_mem_append.2 ⟨identifiers, List.forall_mem_singleton.2 (by decide)⟩
      have word : IsWord (first ++ Token.pointed (others ++ [['a']])) := ⟨_, isPath_cons start longer⟩
      exact ⟨['a'], by simpa [Token.pointed] using word⟩
  · rintro ⟨tail, segments, longer⟩
    exact path.spelling.more_of_longer longer.spelling

theorem IsPath.longest_iff {segments : List String} {cs rest : List Char}
    (path : IsPath segments cs) : Longest IsWord cs rest ↔ Stops Token.continuesWord rest :=
  longest_iff_stops (IsWord.continues_iff ⟨segments, path⟩)

/-! ### Numbers -/

/-- A sign, digits, a fraction and a power of ten, all but the digits optional. -/
def IsNumber (cs : List Char) : Prop := ∃ n : Numeral, n.Spelling cs

theorem Numeral.Digits.concat {ds : List Char} {c : Char} (digit : c.isDigit = true)
    (digits : ∀ d ∈ ds, d.isDigit = true) : Digits (ds ++ [c]) :=
  ⟨by simp, List.forall_mem_append.2 ⟨digits, List.forall_mem_singleton.2 digit⟩⟩

theorem Numeral.fractionChars_eq {ds : List Char} (digits : Digits ds) :
    fractionChars ds = '.' :: ds := by
  rw [fractionChars, if_neg (by simpa using digits.1)]

/-- A character goes on with a numeral exactly if some longer number starts with both. -/
theorem Numeral.Spelling.continues_iff {cs : List Char} {n : Numeral} (spelled : n.Spelling cs)
    (c : Char) : n.more c = true ↔ ∃ tail, IsNumber (cs ++ c :: tail) := by
  constructor
  case mpr =>
    rintro ⟨tail, n', longer⟩
    exact spelled.more_of_longer longer
  intro continues
  obtain ⟨whole, fraction, power, power', rfl⟩ := spelled
  have zero : Digits ['0'] := ⟨List.cons_ne_nil _ _, List.forall_mem_singleton.2 rfl⟩
  obtain ⟨negative, ws, fs, exponent⟩ := n
  dsimp only at whole fraction power' ⊢
  cases power' with
  | @written mark sign ds marked signed digits =>
    -- After a power of ten only a digit goes on, and the power takes it.
    have digit : c.isDigit = true := by simpa [more] using continues
    refine ⟨[], ⟨negative, ws, fs, some (sign == ['-'], ds ++ [c])⟩, whole, fraction,
      _, .written marked signed (.concat digit digits.2), ?_⟩
    simp
  | absent =>
    simp only [more, Option.isNone_none, Bool.true_and, Bool.or_eq_true, Bool.and_eq_true,
      beq_iff_eq] at continues
    rcases continues with digit | (rfl | rfl) | ⟨unpointed, rfl⟩
    · rcases fraction with rfl | digits
      · refine ⟨[], ⟨negative, ws ++ [c], [], none⟩, .concat digit whole.2, .inl rfl, _, .absent, ?_⟩
        simp [fractionChars]
      · refine ⟨[], ⟨negative, ws, fs ++ [c], none⟩, whole, .inr (.concat digit digits.2), _,
          .absent, ?_⟩
        simp [fractionChars_eq digits, fractionChars_eq (.concat digit digits.2)]
    · exact ⟨['0'], ⟨negative, ws, fs, some (false, ['0'])⟩, whole, fraction, _,
        .written (.inl rfl) (.inl rfl) zero, by simp⟩
    · exact ⟨['0'], ⟨negative, ws, fs, some (false, ['0'])⟩, whole, fraction, _,
        .written (.inr rfl) (.inl rfl) zero, by simp⟩
    · obtain rfl := List.isEmpty_iff.1 unpointed
      exact ⟨['0'], ⟨negative, ws, ['0'], none⟩, whole, .inr zero, _, .absent,
        by simp [fractionChars]⟩

theorem Numeral.Spelling.longest_iff {cs rest : List Char} {n : Numeral} (spelled : n.Spelling cs) :
    Longest IsNumber cs rest ↔ Stops n.more rest := longest_iff_stops spelled.continues_iff

/-! ### Tokens and their lexemes -/

/-- The words that are literals. -/
def keywords : List (String × Literal) :=
  [("true", .boolean true), ("false", .boolean false), ("null", .null)]

/-- The characters that a backslash escapes, and what each stands for. -/
def escapes : List (Char × Char) :=
  [('\\', '\\'), ('"', '"'), ('\'', '\''), ('n', '\n'), ('t', '\t'), ('r', '\r')]

theorem unescape?_eq_some_iff {e d : Char} : Token.unescape? e = some d ↔ (e, d) ∈ escapes := by
  unfold Token.unescape?
  split <;> simp_all [escapes, eq_comm]

/-- A token is read from a lexeme that stands before the rest of a clause. -/
def Token.Reads : Token → List Char → List Char → Prop
  | accessor segments, cs, rest =>
    IsPath segments cs ∧ (∀ k ∈ keywords, cs ≠ k.1.toList) ∧ Longest IsWord cs rest
  | literal l, cs, rest =>
    ((String.ofList cs, l) ∈ keywords ∧ Longest IsWord cs rest) ∨
    ((∃ n : Numeral, n.Spelling cs ∧ Literal.ofNumeral? n = some l) ∧ Longest IsNumber cs rest) ∨
    ∃ quote body text, (quote = '"' ∨ quote = '\'') ∧ Quoted quote body text ∧
      cs = quote :: body ++ [quote] ∧ l = .text (String.ofList text)
  | operator op, cs, rest =>
    cs = op.symbol.toList ∧ (op = .lt ∨ op = .gt → rest.head? ≠ some '=')
  | connective c, cs, _ => cs = c.symbol.toList
  | openParen, cs, _ => cs = ['(']
  | closeParen, cs, _ => cs = [')']

namespace Token

/-- A word is a keyword, and stands alone, or it is a path. -/
theorem ofWord_keyword_or_path (segments : List String) :
    (∃ k l, (k, l) ∈ keywords ∧ segments = [k] ∧ ofWord segments = literal l) ∨
      (∀ k ∈ keywords, segments ≠ [k.1]) ∧ ofWord segments = accessor segments := by
  unfold ofWord
  split
  · exact .inl ⟨_, _, by simp [keywords], rfl, rfl⟩
  · exact .inl ⟨_, _, by simp [keywords], rfl, rfl⟩
  · exact .inl ⟨_, _, by simp [keywords], rfl, rfl⟩
  · next notTrue notFalse notNull =>
    refine .inr ⟨?_, rfl⟩
    simp only [keywords, List.forall_mem_cons]
    exact ⟨notTrue, notFalse, notNull, List.forall_mem_nil _⟩

theorem ofWord_of_mem_keywords {k : String × Literal} (mem : k ∈ keywords) :
    ofWord [k.1] = literal k.2 ∧ isIdentifier k.1.toList = true ∧ '.' ∉ k.1.toList := by
  revert k
  decide +kernel

/-- A keyword is the path of one segment. -/
theorem isPath_keyword {k : String × Literal} (mem : k ∈ keywords) : IsPath [k.1] k.1.toList := by
  refine ⟨List.cons_ne_nil _ _, List.forall_mem_singleton.2 (ofWord_of_mem_keywords mem).2.1, ?_⟩
  simp

theorem eq_singleton_of_isPath_keyword {k : String × Literal} (mem : k ∈ keywords)
    {segments : List String} (path : IsPath segments k.1.toList) : segments = [k.1] := by
  obtain ⟨first, others, -, -, same, rfl⟩ := path.exists_eq
  cases others with
  | nil =>
    simp [pointed] at same
    simp [← same]
  | cons o others =>
    have point : '.' ∈ k.1.toList := by simp [same, pointed]
    exact absurd point (ofWord_of_mem_keywords mem).2.2

variable {t : Token} {cs rest : List Char} {more : Char → Bool}

theorem Reads.exists_spelling (reads : t.Reads cs rest) :
    ∃ more, Spelling cs t more ∧ Stops more rest := by
  cases t with
  | accessor segments =>
    obtain ⟨path, other, longest⟩ := reads
    rcases ofWord_keyword_or_path segments with ⟨k, l, mem, rfl, -⟩ | ⟨-, token⟩
    · obtain ⟨-, -, same⟩ := path
      exact absurd same (by simpa using other _ mem)
    · exact ⟨_, token ▸ path.spelling, path.longest_iff.1 longest⟩
  | literal l =>
    rcases reads with ⟨mem, longest⟩ | ⟨⟨n, spelled, value⟩, longest⟩ |
      ⟨quote, body, text, mark, quoted, rfl, rfl⟩
    · have path := isPath_keyword mem
      rw [String.toList_ofList] at path
      have spelled := path.spelling
      rw [(ofWord_of_mem_keywords mem).1] at spelled
      exact ⟨_, spelled, path.longest_iff.1 longest⟩
    · exact ⟨_, .number spelled value, spelled.longest_iff.1 longest⟩
    · exact ⟨_, .text mark quoted, stops_false _⟩
  | operator op =>
    obtain ⟨rfl, strict⟩ := reads
    refine ⟨_, .operator op, fun c next => ?_⟩
    cases op with
    | eq | ne | le | ge => rfl
    | lt | gt =>
      rw [continuesOperator, beq_eq_false_iff_ne]
      rintro rfl
      exact strict (by simp) next
  | connective c => exact ⟨_, reads ▸ .connective c, stops_false _⟩
  | openParen => exact ⟨_, reads ▸ .openParen, stops_false _⟩
  | closeParen => exact ⟨_, reads ▸ .closeParen, stops_false _⟩

theorem Spelling.reads (spelled : Spelling cs t more) (stops : Stops more rest) :
    t.Reads cs rest := by
  cases spelled with
  | openParen | closeParen | connective => rfl
  | operator op =>
    refine ⟨rfl, ?_⟩
    rintro (rfl | rfl) next <;> exact absurd (stops _ next) (by decide)
  | text mark quoted => exact .inr (.inr ⟨_, _, _, mark, quoted, rfl, rfl⟩)
  | number spelled value =>
    exact .inr (.inl ⟨⟨_, spelled, value⟩, spelled.longest_iff.2 stops⟩)
  | @word first others start identifiers =>
    have path := isPath_cons start identifiers
    have longest := path.longest_iff.2 stops
    rcases ofWord_keyword_or_path (String.ofList first :: others.map String.ofList) with
      ⟨k, l, mem, single, token⟩ | ⟨other, token⟩
    · rw [token]
      refine .inl ⟨?_, longest⟩
      obtain ⟨-, -, same⟩ := path
      rw [same, single]
      simpa using mem
    · rw [token]
      refine ⟨path, fun k mem same => ?_, longest⟩
      exact other k mem (eq_singleton_of_isPath_keyword mem (same ▸ path))

/-- A token is read from its spellings, where nothing goes on with them. -/
theorem reads_iff : t.Reads cs rest ↔ ∃ more, Spelling cs t more ∧ Stops more rest :=
  ⟨Reads.exists_spelling, fun ⟨_, spelled, stops⟩ => spelled.reads stops⟩

/-- No longer lexeme stands where a token is read. -/
theorem Reads.longest (reads : t.Reads cs rest) :
    Longest (fun ds => ∃ t' : Token, t'.Reads ds []) cs rest := by
  obtain ⟨more, spelled, stops⟩ := reads.exists_spelling
  refine longest_iff.2 ?_
  rintro c next tail ⟨t', reads'⟩
  obtain ⟨more', longer, -⟩ := reads'.exists_spelling
  exact absurd (spelled.more_of_longer longer) (Bool.eq_false_iff.1 (stops c next))

end Token

/-! ### Segments -/

/-- The characters that may stand around lexemes. -/
def Blanks (cs : List Char) : Prop := ∀ c ∈ cs, c ∈ [' ', '\t', '\n', '\r']

theorem blanks_iff {cs : List Char} : Blanks cs ↔ ∀ c ∈ cs, isBlank c = true := by
  simp [Blanks, isBlank, or_assoc]

/-- A lexeme with its token and the blanks after it. -/
structure Segment where
  token : Token
  lexeme : List Char
  gap : List Char

namespace Segment

/-- The text that segments are written as. -/
def text (ss : List Segment) : List Char := ss.flatMap fun s => s.lexeme ++ s.gap

def pieces (ss : List Segment) : List Piece :=
  ss.flatMap fun s => .word s.token s.lexeme :: s.gap.map .blank

@[simp] theorem text_pieces (ss : List Segment) : Piece.text (pieces ss) = text ss := by
  induction ss with
  | nil => rfl
  | cons s ss ih => simpa [pieces, text] using ih

@[simp] theorem words_pieces (ss : List Segment) : Piece.words (pieces ss) = ss.map (·.token) := by
  induction ss with
  | nil => rfl
  | cons s ss ih => simpa [pieces] using ih

theorem pieces_append (ss ts : List Segment) : pieces (ss ++ ts) = pieces ss ++ pieces ts :=
  List.flatMap_append

theorem pieces_cons (s : Segment) (ss : List Segment) :
    pieces (s :: ss) = .word s.token s.lexeme :: (s.gap.map .blank ++ pieces ss) := rfl

/-- Pieces are blanks and then segments. -/
theorem exists_pieces_eq (ps : List Piece) :
    ∃ (first : List Char) (ss : List Segment), ps = first.map .blank ++ pieces ss := by
  induction ps with
  | nil => exact ⟨[], [], rfl⟩
  | cons p ps ih =>
    obtain ⟨first, ss, rfl⟩ := ih
    cases p with
    | blank c => exact ⟨c :: first, ss, rfl⟩
    | word token lexeme => exact ⟨[], ⟨token, lexeme, first⟩ :: ss, rfl⟩

theorem forall_split_cons {kind : Segment → List Segment → Prop} {s : Segment}
    {ss : List Segment} :
    (∀ before t after, s :: ss = before ++ t :: after → kind t after) ↔
      kind s ss ∧ ∀ before t after, ss = before ++ t :: after → kind t after := by
  constructor
  · intro each
    exact ⟨each [] s ss rfl, fun before t after split => each (s :: before) t after (by simp [split])⟩
  · rintro ⟨here, later⟩ before t after split
    cases before with
    | nil =>
      obtain ⟨rfl, rfl⟩ := List.cons.inj split
      exact here
    | cons b before => exact later before t after (List.cons.inj split).2

end Segment

open Segment (pieces)

/-- A text is blanks and then segments, and each token is read where it stands. -/
structure Segmented (cs first : List Char) (ss : List Segment) : Prop where
  text_eq : cs = first ++ Segment.text ss
  ne_nil : ss ≠ []
  blanks : Blanks first ∧ ∀ s ∈ ss, Blanks s.gap
  reads : ∀ before s after, ss = before ++ s :: after →
    s.token.Reads s.lexeme (s.gap ++ Segment.text after)

/-- The tokens of a stream are those of some segments, each at the first byte of its lexeme. -/
structure TokenStream.Locates (stream : TokenStream) (first : List Char) (ss : List Segment) :
    Prop where
  length_eq : stream.tokens.length = ss.length
  located : ∀ before s after, ss = before ++ s :: after →
    stream.tokens[before.length]? =
      some ⟨s.token, Text.byteLength (first ++ Segment.text before)⟩

theorem legible_pieces_iff {ss : List Segment} :
    Piece.Legible (pieces ss) ↔ (∀ s ∈ ss, Blanks s.gap) ∧
      ∀ before s after, ss = before ++ s :: after →
        s.token.Reads s.lexeme (s.gap ++ Segment.text after) := by
  induction ss with
  | nil => simp [pieces, Piece.Legible]
  | cons s ss ih =>
    rw [Segment.forall_split_cons, Segment.pieces_cons, Piece.Legible, Piece.text_append,
      Piece.text_map_blank, Segment.text_pieces, ← Token.reads_iff, Piece.legible_map_blank_append,
      ih, List.forall_mem_cons, blanks_iff]
    tauto

theorem segmented_iff {cs first : List Char} {ss : List Segment} :
    Segmented cs first ss ↔ Piece.Legible (first.map .blank ++ pieces ss) ∧
      Piece.text (first.map .blank ++ pieces ss) = cs ∧
      Piece.words (first.map .blank ++ pieces ss) ≠ [] := by
  rw [Piece.legible_map_blank_append, legible_pieces_iff, ← blanks_iff]
  simp only [Piece.text_append, Piece.text_map_blank, Segment.text_pieces, Piece.words_append,
    Piece.words_map_blank, Segment.words_pieces, List.nil_append, ne_eq, List.map_eq_nil_iff]
  constructor
  · rintro ⟨rfl, some, ⟨first, gaps⟩, reads⟩
    exact ⟨⟨first, gaps, reads⟩, rfl, some⟩
  · rintro ⟨⟨first, gaps, reads⟩, rfl, some⟩
    exact ⟨rfl, some, ⟨first, gaps⟩, reads⟩

namespace TokenStream

theorem locates_pieces (first : List Char) (ss : List Segment) (stop : Nat) :
    Locates ⟨Piece.located 0 (first.map .blank ++ pieces ss), stop⟩ first ss := by
  refine ⟨?_, ?_⟩
  · simp [Piece.length_located]
  · rintro before s after rfl
    have count : (Piece.located 0 (first.map .blank ++ pieces before)).length = before.length := by
      simp [Piece.length_located]
    dsimp only
    rw [Segment.pieces_append, ← List.append_assoc, Piece.located_append, Segment.pieces_cons,
      Piece.located, ← count, List.getElem?_append_right (Nat.le_refl _), Nat.sub_self]
    simp

theorem Locates.tokens_eq {stream stream' : TokenStream} {first : List Char} {ss : List Segment}
    (locates : stream.Locates first ss) (locates' : stream'.Locates first ss) :
    stream.tokens = stream'.tokens := by
  refine List.ext_getElem? fun i => ?_
  rcases Nat.lt_or_ge i ss.length with inside | outside
  · have split : ss = ss.take i ++ ss[i] :: ss.drop (i + 1) := by
      rw [← List.drop_eq_getElem_cons, List.take_append_drop]
    have count : (ss.take i).length = i := List.length_take_of_le inside.le
    rw [← count, locates.located _ _ _ split, locates'.located _ _ _ split]
  · rw [List.getElem?_eq_none (locates.length_eq ▸ outside),
      List.getElem?_eq_none (locates'.length_eq ▸ outside)]

end TokenStream

/-- A clause is lexed exactly if it consists of segments, and then to their tokens. -/
theorem Token.ofClause_eq_ok_iff_segmented {clause : String} {stream : TokenStream} :
    ofClause clause = .ok stream ↔ ∃ first ss, Segmented clause.toList first ss ∧
      stream.Locates first ss ∧ stream.stop = clause.utf8ByteSize := by
  rw [ofClause_eq_ok_iff]
  constructor
  · rintro ⟨ps, legible, same, some, rfl⟩
    obtain ⟨first, ss, rfl⟩ := Segment.exists_pieces_eq ps
    exact ⟨first, ss, segmented_iff.2 ⟨legible, same, some⟩,
      TokenStream.locates_pieces first ss _, rfl⟩
  · rintro ⟨first, ss, segmented, locates, stop⟩
    obtain ⟨legible, same, some⟩ := segmented_iff.1 segmented
    refine ⟨_, legible, same, some, ?_⟩
    obtain ⟨tokens, _⟩ := stream
    obtain rfl := locates.tokens_eq (TokenStream.locates_pieces first ss 0)
    obtain rfl := stop
    rfl

/-- Lexing cuts a clause into blanks and lexemes: it gives exactly the tokens that are read from the
lexemes of a segmented clause, at strictly rising positions, and no longer lexeme stands where one
is taken. A clause of blanks is empty. -/
theorem Token.ofClause_segmented (clause : String) :
    (∀ stream, ofClause clause = .ok stream ↔ ∃ first ss, Segmented clause.toList first ss ∧
      stream.Locates first ss ∧ stream.stop = clause.utf8ByteSize) ∧
    (∀ first ss, Segmented clause.toList first ss →
      ∀ before s after, ss = before ++ s :: after → s.lexeme ≠ [] ∧
        ∀ t ds, Reads t ds [] → ds <+: s.lexeme ++ s.gap ++ Segment.text after →
          ds.length ≤ s.lexeme.length) ∧
    (∀ stream, ofClause clause = .ok stream →
      (stream.tokens.map (·.offset) ++ [stream.stop]).Pairwise (· < ·)) ∧
    (∀ e d, unescape? e = some d ↔ (e, d) ∈ escapes) ∧
    (ofClause clause = .error .emptyExpression ↔ Blanks clause.toList) := by
  refine ⟨fun stream => ofClause_eq_ok_iff_segmented, ?_, ?_, fun e d => unescape?_eq_some_iff, ?_⟩
  · intro first ss segmented before s after split
    have reads := segmented.reads before s after split
    obtain ⟨more, spelled, -⟩ := reads.exists_spelling
    refine ⟨spelled.ne_nil, fun t ds lexeme here => ?_⟩
    rw [List.append_assoc] at here
    exact reads.longest.longest ds ⟨t, lexeme⟩ here
  · intro stream lexed
    obtain ⟨ps, legible, same, -, rfl⟩ := ofClause_eq_ok_iff.1 lexed
    have rising := legible.pairwise_offset 0
    rwa [same, Nat.zero_add, ← Text.utf8ByteSize_ofList, String.ofList_toList] at rising
  · rw [ofClause_eq_emptyExpression_iff, blanks_iff]

theorem Token.ofClause_segmented_comparison :
    ∃ stream, ofClause " a.b<=-1.5e3 " = .ok stream ∧ stream.tokens.map (·.offset) = [1, 4, 6] ∧
      ∃ first ss, Segmented " a.b<=-1.5e3 ".toList first ss ∧ stream.Locates first ss ∧
        stream.stop = 13 := by
  have lexed : ofClause " a.b<=-1.5e3 " = .ok ⟨[⟨.accessor ["a", "b"], 1⟩, ⟨.operator .le, 4⟩,
      ⟨.literal (.decimal ⟨-15, -2⟩), 6⟩], 13⟩ := by cbv
  exact ⟨_, lexed, rfl, ((ofClause_segmented " a.b<=-1.5e3 ").1 _).1 lexed⟩

end HalfBinary
